import Mathlib.Data.List.Pairwise
import MrIss.Machine.Run
import MrIss.Mmu.Run
import MrIss.State.Save
/-!
# A saved state file is the saved state

`Exact` says what a reader of the file is promised: a chunk for each
register, chunks of RAM that agree with it, nothing else, and no read of
RAM past the end of a bank. The file is opened without being cut short,
and RAM is read by whole pieces: so it holds just where the previous
content is no longer than the new one and every bank is a number of whole
pieces.
-/

namespace MrIss

open EarlyReturn ByteFile ByteMem

namespace StateSave

/-! ## Names -/

/-- The names of the registers. -/
def registerNames : List String :=
  (List.finRange 32).map (fun i : Fin 32 => "GPR" ++ twoDigits i) ++
  ["PC", "CTR", "LR", "XER", "CR", "MSR", "HID0", "HID1", "SPRG0", "SPRG1", "SPRG2", "SPRG3",
    "SRR0", "SRR1", "DAR", "DSISR", "DEC", "TB", "SDR1"] ++
  (List.finRange 16).map (fun i : Fin 16 => "SR" ++ twoDigits i) ++
  (List.finRange 4).flatMap (fun i : Fin 4 =>
    ["IBAT" ++ toString i.val ++ "U", "IBAT" ++ toString i.val ++ "L",
      "DBAT" ++ toString i.val ++ "U", "DBAT" ++ toString i.val ++ "L"]) ++
  ["IRQ"]

theorem map_savedRegisters (pcs : CpuState) (mmu : Mmu) :
    (savedRegisters pcs mmu).map Prod.fst = registerNames := by
  simp only [savedRegisters, registerNames, List.map_append, List.map_map, List.map_flatMap,
    List.map_cons, List.map_nil, Function.comp_def]

/-- **The names in the file tell the chunks apart.** -/
theorem registerNames_nodup :
    (0#64 :: strncpy stsMem :: registerNames.map strncpy).Nodup := by decide +kernel

theorem length_registerNames : registerNames.length = 84 := by decide

/-! ## What a reader is promised -/

/-- Two banks share no guest address. -/
def Apart (b b' : MemInfo) : Prop :=
  b.ramPaBase.toNat + b.ramSize.toNat ≤ b'.ramPaBase.toNat ∨
    b'.ramPaBase.toNat + b'.ramSize.toNat ≤ b.ramPaBase.toNat

instance : Std.Symm Apart := ⟨fun _ _ => Or.symm⟩

/-- Bank lists: the banks are apart in the guest's address space. -/
structure Banks where
  meminfo : List MemInfo
  inSpace : ∀ b ∈ meminfo, b.ramPaBase.toNat + b.ramSize.toNat ≤ 2 ^ 32
  apart : meminfo.Pairwise Apart

/-- The address that a chunk of RAM begins at. -/
def chunkBase (k : Tlv.Chunk) : ℕ := ofLE (k.data.take 8)

/-- The byte that a chunk has for an address. -/
def byteAt (k : Tlv.Chunk) (pa : ℕ) : Option (BitVec 8) :=
  if k.name = strncpy stsMem ∧ chunkBase k ≤ pa then k.data[8 + (pa - chunkBase k)]? else none

/-- Byte `j` of a bank. -/
def ramByte (ram : HostMem) (b : MemInfo) (j : ℕ) : BitVec 8 :=
  ram (b.hostMapBase + BitVec.ofNat 64 j)

/-- The chunks of a file are those of a state. -/
structure Exact (ram : HostMem) (pcs : CpuState) (mmu : Mmu) (meminfo : List MemInfo)
    (ks : List Tlv.Chunk) : Prop where
  /-- One chunk for each register, with its value. -/
  registers : ∀ r ∈ savedRegisters pcs mmu,
    ks.filter (fun k => k.name = strncpy r.1) = [regChunk r]
  /-- Every other chunk is of RAM, within a bank. -/
  nothingElse : ∀ k ∈ ks, (∃ r ∈ savedRegisters pcs mmu, k = regChunk r) ∨
    k.name = strncpy stsMem ∧ ∃ b ∈ meminfo, b.ramPaBase.toNat ≤ chunkBase k ∧
      chunkBase k + (k.data.length - 8) ≤ b.ramPaBase.toNat + b.ramSize.toNat
  /-- A byte of RAM is what a chunk that covers it says. -/
  covered : ∀ b ∈ meminfo, ∀ j < b.ramSize.toNat, ∀ k ∈ ks, ∀ v,
    byteAt k (b.ramPaBase.toNat + j) = some v → ramByte ram b j = v
  /-- A byte of RAM that no chunk covers is zero. -/
  uncovered : ∀ b ∈ meminfo, ∀ j < b.ramSize.toNat,
    (∀ k ∈ ks, byteAt k (b.ramPaBase.toNat + j) = none) → ramByte ram b j = 0

/-- **The file is the saved state,** and no RAM was read but that of the
banks. -/
def SavedExactly (ram : HostMem) (pcs : CpuState) (mmu : Mmu) (meminfo : List MemInfo)
    (t : Saving) : Prop :=
  (∃ ks, Tlv.read t.file = some ks ∧ Exact ram pcs mmu meminfo ks) ∧
    ∀ r ∈ t.reads, RamRead.Within r

/-- The size of the new content: each register takes 24 bytes, and each
piece of RAM that is not all zero its size and 24 bytes. -/
def savedSize (ram : HostMem) (meminfo : List MemInfo) : ℕ :=
  24 * 84 + (24 + stsMemChunkSz) * (meminfo.map fun b =>
    (List.range (pieces b)).countP fun k =>
      decide (∃ j < stsMemChunkSz, ramByte ram b (stsMemChunkSz * k + j) ≠ 0)).sum

/-! ## The chunks written are exact -/

variable {ram : HostMem} {pcs : CpuState} {mmu : Mmu} {b b' : MemInfo} {k : ℕ}

/-- The index of a piece, added to where the bank is mapped. -/
theorem host_index (hk : k < pieces b) : b.hostMapBase +
    (BitVec.ofNat 32 (stsMemChunkSz * k)).setWidth 64 =
      b.hostMapBase + BitVec.ofNat 64 (stsMemChunkSz * k) := by
  have hlt := pieces_lt b
  congr 1
  apply BitVec.eq_of_toNat_eq
  rw [BitVec.toNat_setWidth, toNat_index (by omega), BitVec.toNat_ofNat]

theorem scan_index (ram : HostMem) (hk : k < pieces b) :
    scan ram (b.hostMapBase + (BitVec.ofNat 32 (stsMemChunkSz * k)).setWidth 64) = 0#64 ↔
      ∀ j < stsMemChunkSz, ramByte ram b (stsMemChunkSz * k + j) = 0 := by
  rw [host_index hk, scan_eq_zero]
  simp only [ramByte, BitVec.add_assoc, ← BitVec.ofNat_add]
  rfl

theorem chunkBase_memChunk (hin : b.ramPaBase.toNat + b.ramSize.toNat ≤ 2 ^ 32)
    (hk : k < pieces b) :
    chunkBase (memChunk ram b (BitVec.ofNat 32 (stsMemChunkSz * k))) =
      b.ramPaBase.toNat + stsMemChunkSz * k := by
  have hlt := pieces_lt b
  have hwithin := piece_within hk
  have hsz : 0 < stsMemChunkSz := by decide
  rw [chunkBase, memChunk, List.take_left' (length_le64 _), le64, ofLE_toLE, BitVec.toNat_setWidth,
    BitVec.toNat_add, toNat_index (by omega), Nat.mod_eq_of_lt, Nat.mod_eq_of_lt]
  · omega
  · omega
  · exact BitVec.isLt _

/-- What a chunk of RAM has for an address. -/
theorem byteAt_memChunk (ram : HostMem) (hin : b.ramPaBase.toNat + b.ramSize.toNat ≤ 2 ^ 32)
    (hk : k < pieces b) (j : ℕ) {v : BitVec 8} :
    byteAt (memChunk ram b (BitVec.ofNat 32 (stsMemChunkSz * k))) j = some v ↔
      ∃ i < stsMemChunkSz, j = b.ramPaBase.toNat + (stsMemChunkSz * k + i) ∧
        ramByte ram b (stsMemChunkSz * k + i) = v := by
  have hbyte (d : ℕ) (hd : d < stsMemChunkSz) :
      (memChunk ram b (BitVec.ofNat 32 (stsMemChunkSz * k))).data[8 + d]? =
        some (ramByte ram b (stsMemChunkSz * k + d)) := by
    rw [memChunk, List.getElem?_append_right (by simp), length_le64, Nat.add_sub_cancel_left,
      getElem?_bytes _ _ hd, host_index hk, BitVec.add_assoc, ← BitVec.ofNat_add]
    rfl
  rw [byteAt, chunkBase_memChunk hin hk]
  constructor
  · intro h
    split at h
    · next hle =>
      have hlt := (List.getElem?_eq_some_iff.mp h).1
      have hlen : (memChunk ram b (BitVec.ofNat 32 (stsMemChunkSz * k))).data.length =
          8 + stsMemChunkSz := by
        rw [memChunk, List.length_append, length_le64, length_bytes]
      rw [hlen] at hlt
      rw [hbyte _ (by omega), Option.some_inj] at h
      exact ⟨j - (b.ramPaBase.toNat + stsMemChunkSz * k), by omega, by omega, h⟩
    · cases h
  · rintro ⟨i, hi, rfl, rfl⟩
    rw [if_pos ⟨rfl, by omega⟩, ← hbyte i hi]
    congr 1
    omega

/-- Where the chunks of RAM come from. -/
theorem mem_bankChunks {meminfo : List MemInfo} {c : Tlv.Chunk} :
    c ∈ (meminfo.flatMap fun b => (chunkIndices b).flatMap (chunksAt ram b)) ↔
      ∃ b ∈ meminfo, ∃ k < pieces b,
        ¬ (∀ j < stsMemChunkSz, ramByte ram b (stsMemChunkSz * k + j) = 0) ∧
        c = memChunk ram b (BitVec.ofNat 32 (stsMemChunkSz * k)) := by
  have hat (b : MemInfo) (k : ℕ) (hk : k < pieces b) :
      c ∈ chunksAt ram b (BitVec.ofNat 32 (stsMemChunkSz * k)) ↔
        ¬ (∀ j < stsMemChunkSz, ramByte ram b (stsMemChunkSz * k + j) = 0) ∧
          c = memChunk ram b (BitVec.ofNat 32 (stsMemChunkSz * k)) := by
    rw [chunksAt, ← scan_index ram hk]
    split <;> simp [*]
  simp only [List.mem_flatMap, chunkIndices, List.mem_map, List.mem_range, exists_exists_and_eq_and]
  refine exists_congr fun b => and_congr_right fun _ => exists_congr fun k => ?_
  exact and_congr_right fun hk => hat b k hk

/-- Banks that share an address are one. -/
theorem Banks.eq_of_mem (banks : Banks) (hb : b ∈ banks.meminfo) (hb' : b' ∈ banks.meminfo)
    (pa : ℕ) (h : b.ramPaBase.toNat ≤ pa ∧ pa < b.ramPaBase.toNat + b.ramSize.toNat)
    (h' : b'.ramPaBase.toNat ≤ pa ∧ pa < b'.ramPaBase.toNat + b'.ramSize.toNat) : b = b' := by
  by_contra hne
  have hapart := banks.apart.forall hb hb' hne
  unfold Apart at hapart
  omega

/-! ## Registers -/

theorem regChunk_name_ne {r : String × BitVec 64} (hr : r ∈ savedRegisters pcs mmu) :
    strncpy r.1 ≠ strncpy stsMem ∧ strncpy r.1 ≠ 0#64 := by
  have hnames := registerNames_nodup
  have hmem : strncpy r.1 ∈ registerNames.map strncpy := by
    rw [← map_savedRegisters pcs mmu, List.map_map]
    exact List.mem_map_of_mem hr
  rw [List.nodup_cons, List.nodup_cons] at hnames
  obtain ⟨hzero, hstsMem, -⟩ := hnames
  refine ⟨?_, ?_⟩
  · rintro heq
    rw [heq] at hmem
    exact hstsMem hmem
  · rintro heq
    rw [heq] at hmem
    exact hzero (List.mem_cons_of_mem _ hmem)

/-- One item of a list has its key, where the keys are distinct. -/
theorem filter_key {α β : Type} [DecidableEq β] {key : α → β} {l : List α} {a : α}
    (hl : (l.map key).Nodup) (ha : a ∈ l) : l.filter (fun x => key x = key a) = [a] := by
  induction l with
  | nil => cases ha
  | cons x l ih =>
    rw [List.map_cons, List.nodup_cons] at hl
    obtain ⟨hx, hl⟩ := hl
    rcases List.mem_cons.mp ha with rfl | ha
    · rw [List.filter_cons_of_pos (by simp), List.filter_eq_nil_iff.mpr]
      intro y hy
      simp only [decide_eq_true_eq]
      rintro heq
      exact hx (heq ▸ List.mem_map_of_mem hy)
    · rw [List.filter_cons_of_neg, ih hl ha]
      simp only [decide_eq_true_eq]
      rintro heq
      exact hx (heq ▸ List.mem_map_of_mem ha)

theorem filter_regChunks {r : String × BitVec 64} (hr : r ∈ savedRegisters pcs mmu) :
    ((savedRegisters pcs mmu).map regChunk).filter (fun k => k.name = strncpy r.1) =
      [regChunk r] := by
  have hnames : ((savedRegisters pcs mmu).map fun r => strncpy r.1).Nodup := by
    have h := registerNames_nodup
    rw [List.nodup_cons, List.nodup_cons, ← map_savedRegisters pcs mmu, List.map_map] at h
    exact h.2.2
  rw [List.filter_map]
  have hkey := filter_key hnames hr
  exact congrArg (List.map regChunk) hkey

/-! ## The file is exact -/

/-- **The chunks written are those of the state,** where the banks are
whole pieces. -/
theorem exact_savedChunks (banks : Banks)
    (hmem : ∀ b ∈ banks.meminfo, b.ramSize.toNat % stsMemChunkSz = 0) :
    Exact ram pcs mmu banks.meminfo (savedChunks ram pcs mmu banks.meminfo) where
  registers r hr := by
    rw [savedChunks, List.filter_append, filter_regChunks hr]
    refine List.append_right_eq_self.mpr (List.filter_eq_nil_iff.mpr fun c hc => ?_)
    obtain ⟨b, -, k, -, -, rfl⟩ := mem_bankChunks.mp hc
    rw [decide_eq_true_eq]
    exact (regChunk_name_ne hr).1.symm
  nothingElse c hc := by
    rcases List.mem_append.mp hc with hc | hc
    · obtain ⟨r, hr, rfl⟩ := List.mem_map.mp hc
      exact .inl ⟨r, hr, rfl⟩
    · obtain ⟨b, hb, k, hk, -, rfl⟩ := mem_bankChunks.mp hc
      have hwithin := piece_within hk
      refine .inr ⟨rfl, b, hb, ?_⟩
      rw [chunkBase_memChunk (banks.inSpace b hb) hk, memChunk, List.length_append, length_le64,
        length_bytes]
      omega
  covered b hb j hj c hc v hv := by
    rcases List.mem_append.mp hc with hc | hc
    · obtain ⟨r, hr, rfl⟩ := List.mem_map.mp hc
      rw [byteAt, if_neg (fun h => (regChunk_name_ne hr).1 h.1)] at hv
      cases hv
    · obtain ⟨b', hb', k, hk, -, rfl⟩ := mem_bankChunks.mp hc
      obtain ⟨i, hi, hj', rfl⟩ := (byteAt_memChunk ram (banks.inSpace b' hb') hk _).mp hv
      have hwithin := piece_within hk
      have heq : b = b' := banks.eq_of_mem hb hb' (b.ramPaBase.toNat + j)
        ⟨by omega, by omega⟩ ⟨by omega, by omega⟩
      subst heq
      rw [Nat.add_left_cancel hj']
  uncovered b hb j hj hnone := by
    -- the piece that the byte is of was not saved
    have hk : j / stsMemChunkSz < pieces b := by
      have hb := hmem b hb
      rw [pieces, stsMemChunkSz_eq]
      rw [stsMemChunkSz_eq] at hb
      omega
    have hdiv := Nat.div_add_mod j stsMemChunkSz
    have hmod : j % stsMemChunkSz < stsMemChunkSz := Nat.mod_lt _ (by decide)
    by_contra hne
    have hsaved : memChunk ram b (BitVec.ofNat 32 (stsMemChunkSz * (j / stsMemChunkSz))) ∈
        savedChunks ram pcs mmu banks.meminfo := by
      refine List.mem_append_right _ (mem_bankChunks.mpr ⟨b, hb, _, hk, fun hzero => hne ?_, rfl⟩)
      rw [← hdiv]
      exact hzero _ hmod
    have hsome := (byteAt_memChunk ram (banks.inSpace b hb) hk _).mpr
      ⟨_, hmod, rfl, rfl⟩
    rw [hdiv, hnone _ hsaved] at hsome
    cases hsome

theorem length_encode_of_forall {ks : List Tlv.Chunk} {n : ℕ}
    (h : ∀ k ∈ ks, 16 + k.data.length = n) : (Tlv.encode ks).length = n * ks.length := by
  induction ks with
  | nil => rfl
  | cons k ks ih =>
    rw [Tlv.encode_cons, List.length_append, k.length_encode, h k (by simp),
      ih fun k hk => h k (by simp [hk]), List.length_cons, Nat.mul_succ, Nat.add_comm]

theorem length_flatMap_ite {α β : Type} {f : α → List β} {p : α → Bool} {l : List α}
    (h : ∀ x ∈ l, (f x).length = if p x then 1 else 0) : (l.flatMap f).length = l.countP p := by
  induction l with
  | nil => rfl
  | cons x l ih =>
    rw [List.flatMap_cons, List.length_append, h x (by simp), ih fun x hx => h x (by simp [hx]),
      List.countP_cons, Nat.add_comm]

/-- The new content has the size said. -/
theorem length_encode_savedChunks (ram : HostMem) (pcs : CpuState) (mmu : Mmu)
    (meminfo : List MemInfo) :
    (Tlv.encode (savedChunks ram pcs mmu meminfo)).length = savedSize ram meminfo := by
  have hregs : (savedRegisters pcs mmu).length = 84 := by
    rw [← List.length_map (f := Prod.fst), map_savedRegisters, length_registerNames]
  have hcount (b : MemInfo) : ((chunkIndices b).flatMap (chunksAt ram b)).length =
      (List.range (pieces b)).countP fun k =>
        decide (∃ j < stsMemChunkSz, ramByte ram b (stsMemChunkSz * k + j) ≠ 0) := by
    rw [chunkIndices, List.flatMap_map]
    refine length_flatMap_ite fun k hk => ?_
    have hscan := scan_index ram (List.mem_range.mp hk)
    rw [chunksAt]
    by_cases hz : scan ram (b.hostMapBase +
        (BitVec.ofNat 32 (stsMemChunkSz * k)).setWidth 64) = 0#64
    · have hnone := hscan.mp hz
      rw [if_pos hz, if_neg]
      · rfl
      · simpa using hnone
    · rw [if_neg hz, if_pos]
      · rfl
      · simpa using mt hscan.mpr hz
  rw [savedChunks, Tlv.encode_append, List.length_append, length_encode_of_forall (n := 24),
    length_encode_of_forall (n := 24 + stsMemChunkSz), List.length_map, hregs, List.length_flatMap,
    savedSize]
  · simp only [hcount]
  · intro c hc
    obtain ⟨b, -, k, -, -, rfl⟩ := mem_bankChunks.mp hc
    rw [memChunk, List.length_append, length_le64, length_bytes]
    omega
  · intro c hc
    obtain ⟨r, -, rfl⟩ := List.mem_map.mp hc
    rw [regChunk, length_le64]

/-! ## Where it is not -/

/-- Bytes of the previous content that stay are read as more chunks, or
make the file unreadable. -/
theorem not_exact_of_zeros {n : ℕ} (hn : n ≠ 0) {meminfo : List MemInfo} {ks : List Tlv.Chunk}
    (hread : Tlv.read (Tlv.encode (savedChunks ram pcs mmu meminfo) ++ List.replicate n 0) =
      some ks) : ¬ Exact ram pcs mmu meminfo ks := by
  intro h
  rw [Tlv.read_encode_append, Option.map_eq_some_iff] at hread
  obtain ⟨rest, hrest, rfl⟩ := hread
  obtain ⟨c, hc, hname⟩ := Tlv.read_zeros hn hrest
  have hnames := registerNames_nodup
  rw [List.nodup_cons] at hnames
  rcases h.nothingElse c (List.mem_append_right _ hc) with ⟨r, hr, rfl⟩ | ⟨hstsMem, -⟩
  · exact (regChunk_name_ne hr).2 hname
  · rw [hstsMem] at hname
    exact hnames.1 (by rw [← hname]; exact List.mem_cons_self)

/-- The frame of reads: none is forgotten. -/
def readFrame : Frame Saving :=
  .always (fun s t => ∀ r ∈ s.reads, r ∈ t.reads) (fun _ _ h => h) fun h h' r hr => h' r (h r hr)

instance keeps_write (bs : Bytes) : Keeps readFrame (write bs) := .modify fun _ _ hr => hr

instance keeps_readRam (r : RamRead) : Keeps readFrame (readRam r) :=
  .modify fun _ _ hr => List.mem_cons_of_mem _ hr

instance keeps_saveRegChunk (val : BitVec 64) (cname : String) :
    Keeps readFrame (saveRegChunk val cname) := keeps_write _

instance keeps_saveChunk (i : BitVec 32) : Keeps readFrame (saveChunk ram b i) := by
  unfold saveChunk
  infer_instance

instance keeps_saveBank (n : ℕ) (i : BitVec 32) : Keeps readFrame (saveBank ram b n i) := by
  unfold saveBank
  infer_instance

theorem read_of_saveChunk {i : BitVec 32} {s t : Saving} (h : saveChunk ram b i s = .ok () t) :
    ⟨b, i.toNat, stsMemChunkSz⟩ ∈ t.reads := by
  unfold saveChunk at h
  obtain ⟨_, u, hu, ht⟩ := Prog.bind_eq_ok h
  have hrest : Keeps readFrame (if scan ram (b.hostMapBase + i.setWidth 64) != 0#64 then do
      write (le64 (strncpy stsMem) ++ le64 (BitVec.ofNat 64 (8 + stsMemChunkSz)) ++
        le64 ((b.ramPaBase + i).setWidth 64))
      readRam ⟨b, i.toNat, stsMemChunkSz⟩
      write (bytes ram (b.hostMapBase + i.setWidth 64) stsMemChunkSz)
      else pure () : SaveM Unit) := inferInstance
  refine hrest.of_ok ht _ ?_
  cases hu
  exact List.mem_cons_self

/-- **A bank is read by whole pieces,** to past its end where it is not a
number of them. -/
theorem read_of_saveBank {s t : Saving} (h : saveBank ram b 2049 0 s = .ok () t)
    (hk : stsMemChunkSz * k < b.ramSize.toNat) :
    ⟨b, stsMemChunkSz * k, stsMemChunkSz⟩ ∈ t.reads := by
  have hsize := b.ramSize.isLt
  have hindex (l : ℕ) (hl : l ≤ k) :
      (BitVec.ofNat 32 (stsMemChunkSz * l)).toNat = stsMemChunkSz * l := by
    refine toNat_index ?_
    rw [stsMemChunkSz_eq] at hk
    omega
  have hvisits := @Prog.forLoop_visits SaveAbort Saving (BitVec 32)
    (fun i => decide (i < b.ramSize)) (fun i => i + BitVec.ofNat 32 stsMemChunkSz)
    (saveChunk ram b) .endless (fun k => BitVec.ofNat 32 (stsMemChunkSz * k))
    (fun i s => ⟨b, i.toNat, stsMemChunkSz⟩ ∈ s.reads) index_succ (fun _ _ _ => read_of_saveChunk)
    (fun _ j _ _ hi hj => (keeps_saveChunk j).of_ok hj _ hi) 2049 0 s t h
  have hmem := hvisits.2 k (Nat.zero_le _) fun l _ hl => by
    rw [decide_eq_true_eq, BitVec.lt_def, hindex l hl]
    exact Nat.lt_of_le_of_lt (Nat.mul_le_mul_left _ hl) hk
  rwa [hindex k le_rfl] at hmem

theorem read_of_stateSaveOpen {meminfo : List MemInfo} {s t : Saving}
    (h : stateSaveOpen ram pcs mmu meminfo s = .ok () t) (hb : b ∈ meminfo)
    (hk : stsMemChunkSz * k < b.ramSize.toNat) :
    ⟨b, stsMemChunkSz * k, stsMemChunkSz⟩ ∈ t.reads := by
  unfold stateSaveOpen at h
  obtain ⟨_, u, -, hbanks⟩ := Prog.bind_eq_ok h
  have key (l : List MemInfo) : ∀ u : Saving, (forM l fun b => saveBank ram b 2049 0) u =
      .ok () t → b ∈ l → ⟨b, stsMemChunkSz * k, stsMemChunkSz⟩ ∈ t.reads := by
    induction l with
    | nil => intro u _ hb; cases hb
    | cons b' l ih =>
      intro u hrun hb
      rw [List.forM_cons] at hrun
      obtain ⟨_, v, hv, hrest⟩ := Prog.bind_eq_ok hrun
      rcases List.mem_cons.mp hb with rfl | hb
      · have hkeep : Keeps readFrame (forM l fun b => saveBank ram b 2049 0) := inferInstance
        exact hkeep.of_ok hrest _ (read_of_saveBank hv hk)
      · exact ih v hrest hb
  exact key meminfo u hbanks hb

/-! ## When a saved state file is the saved state -/

/-- **When a saved state file is the saved state:** for every previous
content of a length, just where that is no longer than the new content and
every bank is a number of whole pieces. -/
theorem savedExactly_iff (ram : HostMem) (pcs : CpuState) (mmu : Mmu) (banks : Banks) (n : ℕ) :
    (∀ previous : Bytes, previous.length = n →
      ∃ t, stateSaveOpen ram pcs mmu banks.meminfo (opened previous) = .ok () t ∧
        SavedExactly ram pcs mmu banks.meminfo t) ↔
    n ≤ savedSize ram banks.meminfo ∧
      ∀ b ∈ banks.meminfo, b.ramSize.toNat % stsMemChunkSz = 0 := by
  constructor
  · intro h
    obtain ⟨t, ht, ⟨ks, hread, hexact⟩, hreads⟩ := h (List.replicate n 0) List.length_replicate
    have hmem : ∀ b ∈ banks.meminfo, b.ramSize.toNat % stsMemChunkSz = 0 := by
      intro b hb
      by_contra hne
      have hpast : stsMemChunkSz * (b.ramSize.toNat / stsMemChunkSz) < b.ramSize.toNat ∧
          b.ramSize.toNat <
            stsMemChunkSz * (b.ramSize.toNat / stsMemChunkSz) + stsMemChunkSz := by
        rw [stsMemChunkSz_eq] at hne ⊢
        omega
      have hwithin := hreads _ (read_of_stateSaveOpen ht hb hpast.1)
      unfold RamRead.Within at hwithin
      dsimp only at hwithin
      omega
    refine ⟨?_, hmem⟩
    by_contra hlong
    obtain ⟨rs, hrun, -⟩ := stateSaveOpen_wrote ram pcs mmu hmem (List.replicate n 0)
    rw [ht] at hrun
    cases hrun
    rw [wrote, List.drop_replicate, length_encode_savedChunks] at hread
    exact not_exact_of_zeros (by omega) hread hexact
  · rintro ⟨hn, hmem⟩ previous hlen
    obtain ⟨rs, hrun, hrs⟩ := stateSaveOpen_wrote ram pcs mmu hmem previous
    refine ⟨_, hrun, ⟨_, ?_, exact_savedChunks banks hmem⟩, hrs⟩
    rw [wrote, List.drop_of_length_le, List.append_nil, Tlv.read_encode]
    rw [length_encode_savedChunks]
    omega

/-- RAM that is all zero has no chunks. -/
theorem savedChunks_zero (meminfo : List MemInfo) :
    savedChunks (fun _ => 0) pcs mmu meminfo = (savedRegisters pcs mmu).map regChunk := by
  rw [savedChunks, List.append_right_eq_self, List.eq_nil_iff_forall_not_mem]
  intro c hc
  obtain ⟨b, -, k, -, hne, -⟩ := mem_bankChunks.mp hc
  exact hne fun _ _ => rfl

/-- The bank of the third platform. -/
def mr3Banks : Banks where
  meminfo := [⟨0, 0x2000000, 0x10000000⟩]
  inSpace := by decide
  apart := List.pairwise_singleton ..

/-- A machine with a byte of RAM set is saved, and then, to the same file,
one with RAM all zero: the chunk of the first is still there. -/
theorem not_savedExactly_stale :
    ∃ t t', stateSaveOpen (Function.update (fun _ => 0) 0x10000000 1) .construct .zero
        mr3Banks.meminfo (opened []) = .ok () t ∧
      stateSaveOpen (fun _ => 0) .construct .zero mr3Banks.meminfo (opened t.file) = .ok () t' ∧
      ¬ SavedExactly (fun _ => 0) .construct .zero mr3Banks.meminfo t' := by
  have hmem : ∀ b ∈ mr3Banks.meminfo, b.ramSize.toNat % stsMemChunkSz = 0 := by decide
  obtain ⟨rs, hrun, -⟩ := stateSaveOpen_wrote (Function.update (fun _ => 0) 0x10000000 1)
    .construct .zero hmem []
  obtain ⟨rs', hrun', -⟩ := stateSaveOpen_wrote (fun _ => 0) .construct .zero hmem
    (wrote [] (Tlv.encode (savedChunks (Function.update (fun _ => 0) 0x10000000 1) .construct .zero
      mr3Banks.meminfo)) rs).file
  refine ⟨_, _, hrun, hrun', ?_⟩
  rintro ⟨⟨ks, hread, hexact⟩, -⟩
  rw [savedChunks_zero] at hread
  simp only [wrote, List.drop_nil, List.append_nil] at hread
  rw [savedChunks, Tlv.encode_append, List.drop_left, ← Tlv.encode_append, Tlv.read_encode] at hread
  cases hread
  -- the chunk left over covers address zero
  have hk : 0 < pieces ⟨0, 0x2000000, 0x10000000⟩ := by decide
  have hstale := hexact.covered ⟨0, 0x2000000, 0x10000000⟩ (by decide) 0 (by decide)
    (memChunk (Function.update (fun _ => 0) 0x10000000 1) ⟨0, 0x2000000, 0x10000000⟩
      (BitVec.ofNat 32 (stsMemChunkSz * 0)))
    (List.mem_append_right _ (mem_bankChunks.mpr ⟨_, List.mem_singleton_self _, 0, hk, ?_, rfl⟩)) 1
    ((byteAt_memChunk _ (by decide) hk _).mpr ⟨0, by decide, rfl, by decide⟩)
  · exact absurd hstale (by decide)
  · intro hzero
    exact absurd (hzero 0 (by decide)) (by decide)

end StateSave

end MrIss
