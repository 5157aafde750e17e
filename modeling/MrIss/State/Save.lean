import MrIss.Cpu.State
import MrIss.Lib.Tlv
/-!
# Saving the state

`state_save_open` writes a file of chunks: one for each register, and one
for each 2 MB of RAM that is not all zero. `write`, of a file that can be
written, writes all it is given. What of RAM is read is kept beside the
file; no function reads that.
-/

namespace MrIss

open EarlyReturn ByteFile ByteMem

/-- `meminfo_t`: a bank of RAM. -/
structure MemInfo where
  ramPaBase : PA
  ramSize : BitVec 32
  hostMapBase : HVA
  deriving DecidableEq, Repr

/-- A read of RAM, `size` bytes from an offset in a bank on. -/
structure RamRead where
  bank : MemInfo
  offset : ℕ
  size : ℕ
  deriving DecidableEq, Repr

/-- The file, where it is written next, and the reads of RAM. -/
structure Saving where
  file : Bytes
  pos : ℕ
  reads : List RamRead

/-- How saving fails to end. -/
inductive SaveAbort where
  /-- The loop over a bank goes round for ever. -/
  | endless
  deriving DecidableEq, Repr

/-- A statement of `state_save_open`. -/
abbrev SaveM : Type → Type := Prog SaveAbort Saving

namespace StateSave

/-- `STS_MEM_CHUNK_SZ`. -/
def stsMemChunkSz : ℕ := 0x200000

/-- `STS_MEM`. -/
def stsMem : String := "MEMBLK"

/-- What `strncpy` leaves in a name. -/
def strncpy (s : String) : BitVec 64 :=
  BitVec.ofNat 64 (ofLE ((s.toList.map fun ch => BitVec.ofNat 8 ch.toNat).take 8))

/-- `%02d`. -/
def twoDigits (i : ℕ) : String := String.ofList [Nat.digitChar (i / 10), Nat.digitChar (i % 10)]

/-- `write`. -/
def write (bs : Bytes) : SaveM Unit :=
  Prog.modify fun s => { s with file := pwrite s.file s.pos bs, pos := s.pos + bs.length }

/-- RAM is read. -/
def readRam (r : RamRead) : SaveM Unit := Prog.modify fun s => { s with reads := r :: s.reads }

/-- `SAVE_REG_CHUNK`. -/
def saveRegChunk (val : BitVec 64) (cname : String) : SaveM Unit :=
  write (le64 (strncpy cname) ++ le64 8 ++ le64 val)

/-- The registers that are saved, in the order of their chunks. -/
def savedRegisters (pcs : CpuState) (mmu : Mmu) : List (String × BitVec 64) :=
  (List.finRange 32).map (fun i : Fin 32 => ("GPR" ++ twoDigits i, (pcs.user.gprs i).setWidth 64)) ++
  [("PC", pcs.user.pc.setWidth 64), ("CTR", pcs.user.ctr.setWidth 64),
    ("LR", pcs.user.lr.setWidth 64), ("XER", pcs.user.xer.setWidth 64),
    ("CR", pcs.user.cr.setWidth 64), ("MSR", pcs.os.msr.setWidth 64),
    ("HID0", pcs.os.hid0.setWidth 64), ("HID1", pcs.os.hid1.setWidth 64),
    ("SPRG0", pcs.os.sprg0.setWidth 64), ("SPRG1", pcs.os.sprg1.setWidth 64),
    ("SPRG2", pcs.os.sprg2.setWidth 64), ("SPRG3", pcs.os.sprg3.setWidth 64),
    ("SRR0", pcs.os.srr0.setWidth 64), ("SRR1", pcs.os.srr1.setWidth 64),
    ("DAR", pcs.os.dar.setWidth 64), ("DSISR", pcs.os.dsisr.setWidth 64),
    ("DEC", pcs.os.dec.setWidth 64), ("TB", pcs.os.getTB), ("SDR1", pcs.os.sdr1.setWidth 64)] ++
  (List.finRange 16).map (fun i : Fin 16 => ("SR" ++ twoDigits i, (mmu.getSegmentReg i).setWidth 64)) ++
  (List.finRange 4).flatMap (fun i : Fin 4 =>
    [("IBAT" ++ toString i.val ++ "U", (mmu.getIBATupper i).setWidth 64),
      ("IBAT" ++ toString i.val ++ "L", (mmu.getIBATlower i).setWidth 64),
      ("DBAT" ++ toString i.val ++ "U", (mmu.getDBATupper i).setWidth 64),
      ("DBAT" ++ toString i.val ++ "L", (mmu.getDBATlower i).setWidth 64)]) ++
  [("IRQ", if pcs.irqFlag then 1 else 0)]

section

variable (ram : HostMem)

/-- Is there anything non-zero? -/
def scan (chunkBase : HVA) : BitVec 64 :=
  (List.range (stsMemChunkSz / 8)).foldl
    (fun v j => v ||| read64 ram (chunkBase + BitVec.ofNat 64 (8 * j))) 0#64

/-- The body of the loop over a bank. -/
def saveChunk (b : MemInfo) (i : BitVec 32) : SaveM Unit := do
  let chunkBase := b.hostMapBase + i.setWidth 64
  readRam ⟨b, i.toNat, stsMemChunkSz⟩
  if scan ram chunkBase != 0#64 then
    write (le64 (strncpy stsMem) ++ le64 (BitVec.ofNat 64 (8 + stsMemChunkSz)) ++
      le64 ((b.ramPaBase + i).setWidth 64))
    readRam ⟨b, i.toNat, stsMemChunkSz⟩
    write (bytes ram chunkBase stsMemChunkSz)

/-- The loop over a bank. The index has come round to zero again before
the fuel is used up. -/
def saveBank (b : MemInfo) : ℕ → BitVec 32 → SaveM Unit :=
  Prog.forLoop (fun i => decide (i < b.ramSize)) (fun i => i + BitVec.ofNat 32 stsMemChunkSz)
    (saveChunk ram b) .endless

/-- `state_save_open`, of a file that can be opened, and
`state_save_finalise`. -/
def stateSaveOpen (pcs : CpuState) (mmu : Mmu) (meminfo : List MemInfo) : SaveM Unit := do
  (savedRegisters pcs mmu).forM fun r => saveRegChunk r.2 r.1
  meminfo.forM fun b => saveBank ram b 2049 0

end

/-- The file is opened at its front: what it held stays until it is
written over. -/
def opened (previous : Bytes) : Saving := ⟨previous, 0, []⟩

/-! ## The chunks that are written -/

/-- The chunk of a register. -/
def regChunk (r : String × BitVec 64) : Tlv.Chunk := ⟨strncpy r.1, le64 r.2, by simp⟩

variable {ram : HostMem} {b : MemInfo} {i : BitVec 32}

/-- The chunk of a piece of RAM. -/
def memChunk (ram : HostMem) (b : MemInfo) (i : BitVec 32) : Tlv.Chunk where
  name := strncpy stsMem
  data := le64 ((b.ramPaBase + i).setWidth 64) ++
    bytes ram (b.hostMapBase + i.setWidth 64) stsMemChunkSz
  fits := by
    rw [List.length_append, length_le64, length_bytes]
    decide

/-- The chunks of a piece of RAM: none where all of it is zero. -/
def chunksAt (ram : HostMem) (b : MemInfo) (i : BitVec 32) : List Tlv.Chunk :=
  if scan ram (b.hostMapBase + i.setWidth 64) = 0#64 then [] else [memChunk ram b i]

/-- Where the pieces of a bank begin. -/
def chunkIndices (b : MemInfo) : List (BitVec 32) :=
  (List.range (b.ramSize.toNat / stsMemChunkSz)).map fun k => BitVec.ofNat 32 (stsMemChunkSz * k)

/-- **What is written.** -/
def savedChunks (ram : HostMem) (pcs : CpuState) (mmu : Mmu) (meminfo : List MemInfo) :
    List Tlv.Chunk :=
  (savedRegisters pcs mmu).map regChunk ++
    meminfo.flatMap fun b => (chunkIndices b).flatMap (chunksAt ram b)

/-- The reads of a piece of RAM, latest first. -/
def readsAt (ram : HostMem) (b : MemInfo) (i : BitVec 32) : List RamRead :=
  if scan ram (b.hostMapBase + i.setWidth 64) = 0#64 then [⟨b, i.toNat, stsMemChunkSz⟩]
  else [⟨b, i.toNat, stsMemChunkSz⟩, ⟨b, i.toNat, stsMemChunkSz⟩]

theorem foldl_or_eq_zero {f : ℕ → BitVec 64} (l : List ℕ) (v : BitVec 64) :
    l.foldl (fun v j => v ||| f j) v = 0#64 ↔ v = 0#64 ∧ ∀ j ∈ l, f j = 0#64 := by
  induction l generalizing v with
  | nil => simp
  | cons j l ih =>
    rw [List.foldl_cons, ih, BitVec.or_eq_zero_iff]
    simp [and_assoc]

/-- The scan finds whether all bytes are zero. -/
theorem scan_eq_zero {base : HVA} :
    scan ram base = 0#64 ↔ ∀ j < stsMemChunkSz, ram (base + BitVec.ofNat 64 j) = 0#8 := by
  have hadd (j k : ℕ) : base + BitVec.ofNat 64 (8 * j) + BitVec.ofNat 64 k =
      base + BitVec.ofNat 64 (8 * j + k) := by
    rw [BitVec.add_assoc, ← BitVec.ofNat_add]
  rw [scan, foldl_or_eq_zero]
  simp only [true_and, List.mem_range, read64_eq_zero, hadd]
  have hsz : stsMemChunkSz = 8 * (stsMemChunkSz / 8) := rfl
  constructor
  · intro h j hj
    have := h (j / 8) (by omega) (j % 8) (by omega)
    rwa [Nat.div_add_mod] at this
  · intro h j hj k hk
    exact h (8 * j + k) (by omega)

/-! ## What a run writes -/

/-- The state when some bytes have been written over the previous file. -/
def wrote (previous done : Bytes) (reads : List RamRead) : Saving :=
  ⟨done ++ previous.drop done.length, done.length, reads⟩

variable {previous done : Bytes} {reads : List RamRead}

theorem write_wrote (bs : Bytes) :
    write bs (wrote previous done reads) = .ok () (wrote previous (done ++ bs) reads) := by
  rw [write, Prog.modify_apply, wrote, pwrite_append, List.drop_drop, wrote, List.length_append]

theorem saveRegChunk_wrote (r : String × BitVec 64) :
    saveRegChunk r.2 r.1 (wrote previous done reads) =
      .ok () (wrote previous (done ++ (regChunk r).encode) reads) := by
  rw [saveRegChunk, write_wrote]
  rfl

theorem saveChunk_wrote (ram : HostMem) (b : MemInfo) (i : BitVec 32) :
    saveChunk ram b i (wrote previous done reads) =
      .ok () (wrote previous (done ++ Tlv.encode (chunksAt ram b i))
        (readsAt ram b i ++ reads)) := by
  have hread (r : RamRead) (d : Bytes) (rs : List RamRead) :
      readRam r (wrote previous d rs) = .ok () (wrote previous d (r :: rs)) := rfl
  rw [saveChunk, Prog.bind_of_ok (hread ..), chunksAt, readsAt]
  by_cases hz : scan ram (b.hostMapBase + i.setWidth 64) = 0#64
  · rw [if_neg (by simpa using hz), if_pos hz, if_pos hz, Tlv.encode_nil, List.append_nil]
    rfl
  · rw [if_pos (by simpa using hz), if_neg hz, if_neg hz, Prog.bind_of_ok (write_wrote _),
      Prog.bind_of_ok (hread ..), write_wrote]
    simp only [Tlv.encode_cons, Tlv.encode_nil, List.append_nil, Tlv.Chunk.encode, memChunk,
      List.length_append, length_le64, length_bytes, List.append_assoc]
    rfl

theorem index_succ (k : ℕ) : BitVec.ofNat 32 (stsMemChunkSz * k) + BitVec.ofNat 32 stsMemChunkSz =
    BitVec.ofNat 32 (stsMemChunkSz * (k + 1)) := by
  rw [← BitVec.ofNat_add, Nat.mul_succ]

theorem stsMemChunkSz_eq : stsMemChunkSz = 2097152 := rfl

theorem toNat_index {k : ℕ} (hk : k < 2048) :
    (BitVec.ofNat 32 (stsMemChunkSz * k)).toNat = stsMemChunkSz * k := by
  rw [BitVec.toNat_ofNat, Nat.mod_eq_of_lt]
  rw [stsMemChunkSz_eq]
  omega

/-- How many whole pieces a bank has. -/
def pieces (b : MemInfo) : ℕ := b.ramSize.toNat / stsMemChunkSz

theorem pieces_lt (b : MemInfo) : pieces b < 2048 := by
  have hsize := b.ramSize.isLt
  rw [pieces, stsMemChunkSz_eq]
  omega

theorem piece_within {b : MemInfo} {k : ℕ} (hk : k < pieces b) :
    stsMemChunkSz * k + stsMemChunkSz ≤ b.ramSize.toNat := by
  rw [pieces, stsMemChunkSz_eq] at hk
  rw [stsMemChunkSz_eq]
  omega

theorem index_lt_iff {b : MemInfo} (hb : b.ramSize.toNat % stsMemChunkSz = 0) {k : ℕ}
    (hk : k ≤ pieces b) : BitVec.ofNat 32 (stsMemChunkSz * k) < b.ramSize ↔ k < pieces b := by
  have hlt := pieces_lt b
  rw [BitVec.lt_def, toNat_index (by omega)]
  rw [pieces, stsMemChunkSz_eq] at hk ⊢
  rw [stsMemChunkSz_eq] at hb
  omega

/-- A read that is within its bank. -/
def RamRead.Within (r : RamRead) : Prop := r.offset + r.size ≤ r.bank.ramSize.toNat

theorem readsAt_eq (ram : HostMem) (b : MemInfo) (i : BitVec 32) :
    ∀ r ∈ readsAt ram b i, r = ⟨b, i.toNat, stsMemChunkSz⟩ := by
  intro r hr
  unfold readsAt at hr
  split at hr <;> simpa using hr

/-- What is written of a bank's first `k` pieces. -/
def piecesWrote (ram : HostMem) (b : MemInfo) (k : ℕ) : Bytes :=
  Tlv.encode ((List.range k).flatMap fun k => chunksAt ram b (BitVec.ofNat 32 (stsMemChunkSz * k)))

theorem piecesWrote_succ (ram : HostMem) (b : MemInfo) (k : ℕ) : piecesWrote ram b (k + 1) =
    piecesWrote ram b k ++ Tlv.encode (chunksAt ram b (BitVec.ofNat 32 (stsMemChunkSz * k))) := by
  rw [piecesWrote, List.range_succ, List.flatMap_append, Tlv.encode_append, List.flatMap_singleton]
  rfl

/-- The loop over a bank of whole pieces. -/
theorem saveBank_wrote (ram : HostMem) {b : MemInfo} (previous done : Bytes)
    (hb : b.ramSize.toNat % stsMemChunkSz = 0) (hreads : ∀ r ∈ reads, RamRead.Within r) :
    ∃ rs, saveBank ram b 2049 0 (wrote previous done reads) =
        .ok () (wrote previous (done ++ piecesWrote ram b (pieces b)) rs) ∧
      ∀ r ∈ rs, RamRead.Within r := by
  have hlt := pieces_lt b
  let I (k : ℕ) (s : Saving) : Prop := ∃ rs,
    s = wrote previous (done ++ piecesWrote ram b k) rs ∧ ∀ r ∈ rs, RamRead.Within r
  have hbody : ∀ k < pieces b, ∀ s, I k s →
      ∃ t, saveChunk ram b (BitVec.ofNat 32 (stsMemChunkSz * k)) s = .ok () t ∧ I (k + 1) t := by
    rintro k hk s ⟨rs, rfl, hrs⟩
    refine ⟨_, saveChunk_wrote .., readsAt ram b (BitVec.ofNat 32 (stsMemChunkSz * k)) ++ rs, ?_,
      fun r hr => ?_⟩
    · rw [piecesWrote_succ, List.append_assoc]
    · rcases List.mem_append.mp hr with hr | hr
      · rw [readsAt_eq ram b _ r hr, RamRead.Within, toNat_index (by omega)]
        exact piece_within hk
      · exact hrs r hr
  have hstart : I 0 (wrote previous done reads) := ⟨reads, by simp [piecesWrote], hreads⟩
  obtain ⟨t, ht, rs, rfl, hrs⟩ := @Prog.forLoop_run SaveAbort Saving (BitVec 32)
    (fun i => decide (i < b.ramSize)) (fun i => i + BitVec.ofNat 32 stsMemChunkSz)
    (saveChunk ram b) .endless (fun k => BitVec.ofNat 32 (stsMemChunkSz * k)) (pieces b) I
    (fun k hk => decide_eq_decide.mpr (index_lt_iff hb hk)) (fun k _ => index_succ k) hbody
    2049 0 _ (Nat.zero_le _) (by omega) hstart
  exact ⟨rs, ht, hrs⟩

theorem saveRegs_wrote (l : List (String × BitVec 64)) : ∀ done,
    (forM l fun r => saveRegChunk r.2 r.1) (wrote previous done []) =
      .ok () (wrote previous (done ++ Tlv.encode (l.map regChunk)) []) := by
  induction l with
  | nil => intro done; simp
  | cons r l ih =>
    intro done
    rw [List.forM_cons, Prog.bind_of_ok (saveRegChunk_wrote r), ih, List.map_cons,
      Tlv.encode_cons, List.append_assoc]

theorem saveBanks_wrote (ram : HostMem) (previous : Bytes) (l : List MemInfo)
    (hl : ∀ b ∈ l, b.ramSize.toNat % stsMemChunkSz = 0) : ∀ done reads,
      (∀ r ∈ reads, RamRead.Within r) →
      ∃ rs, (forM l fun b => saveBank ram b 2049 0) (wrote previous done reads) =
        .ok () (wrote previous (done ++ Tlv.encode (l.flatMap fun b =>
          (chunkIndices b).flatMap (chunksAt ram b))) rs) ∧ ∀ r ∈ rs, RamRead.Within r := by
  induction l with
  | nil =>
    intro done reads hreads
    exact ⟨reads, by simp, hreads⟩
  | cons b l ih =>
    intro done reads hreads
    obtain ⟨rs, hrun, hrs⟩ := saveBank_wrote ram previous done (hl b (by simp)) hreads
    obtain ⟨rs', hrun', hrs'⟩ := ih (fun b hb => hl b (by simp [hb])) _ rs hrs
    refine ⟨rs', ?_, hrs'⟩
    rw [List.forM_cons]
    refine (Prog.bind_of_ok hrun).trans ?_
    rw [hrun', List.flatMap_cons, Tlv.encode_append, List.append_assoc, chunkIndices,
      List.flatMap_map, piecesWrote, pieces]

/-- **What `state_save_open` leaves in the file,** where the banks are
whole pieces: the chunks, over the previous content. -/
theorem stateSaveOpen_wrote (ram : HostMem) (pcs : CpuState) (mmu : Mmu) {meminfo : List MemInfo}
    (hmem : ∀ b ∈ meminfo, b.ramSize.toNat % stsMemChunkSz = 0) (previous : Bytes) :
    ∃ rs, stateSaveOpen ram pcs mmu meminfo (opened previous) =
      .ok () (wrote previous (Tlv.encode (savedChunks ram pcs mmu meminfo)) rs) ∧
      ∀ r ∈ rs, RamRead.Within r := by
  obtain ⟨rs, hrun, hrs⟩ := saveBanks_wrote ram previous meminfo hmem
    (Tlv.encode ((savedRegisters pcs mmu).map regChunk)) [] (by simp)
  refine ⟨rs, ?_, hrs⟩
  have hopen : opened previous = wrote previous [] [] := rfl
  rw [stateSaveOpen, hopen]
  refine (Prog.bind_of_ok (saveRegs_wrote _ _)).trans ?_
  rw [List.nil_append, savedChunks, Tlv.encode_append]
  exact hrun

end StateSave

end MrIss
