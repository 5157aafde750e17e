import MrIss.Mmu.Bytes
import MrIss.Mmu.Frame
/-!
# Strings in guest memory

Loads or stores of one size at consecutive addresses. Loads of the words
of a string in RAM make the translations, and give the bytes, that loads
of its single bytes do, also where the string ends within the last word.
-/

namespace MrIss

open EarlyReturn

namespace Mmu

variable {c : Config} {priv : Bool} {s t u : Mem} {addr : VA} {h : HVA} {size : Size}

/-- Loads at consecutive addresses, all let through, and what they give. -/
inductive Reads (c : Config) (size : Size) (priv : Bool) :
    VA → Mem → List (BitVec 32) → Mem → Prop where
  | nil {addr : VA} {s : Mem} : Reads c size priv addr s [] s
  | cons {addr : VA} {s t u : Mem} {v : BitVec 32} {vs : List (BitVec 32)}
      (head : load c size addr priv s = .ok (.ok v) t)
      (tail : Reads c size priv (addr + BitVec.ofNat 32 size.bytes) t vs u) :
      Reads c size priv addr s (v :: vs) u

/-- Single-byte loads. -/
def ReadsBytes (c : Config) (priv : Bool) (addr : VA) (s : Mem) (bs : List (BitVec 8)) (t : Mem) :
    Prop :=
  Reads c .byte priv addr s (bs.map (·.setWidth 32)) t

/-- The bytes of a list of words. -/
def stringOf (ws : List (BitVec 32)) : List (BitVec 8) := ws.flatMap ByteMem.ofWord

@[simp] theorem stringOf_nil : stringOf [] = [] := rfl

@[simp] theorem stringOf_cons (w : BitVec 32) (ws : List (BitVec 32)) :
    stringOf (w :: ws) = ByteMem.ofWord w ++ stringOf ws := rfl

theorem length_stringOf (ws : List (BitVec 32)) : (stringOf ws).length = 4 * ws.length := by
  induction ws with
  | nil => rfl
  | cons w ws ih =>
    rw [stringOf_cons, List.length_append, ih, ByteMem.length_ofWord, List.length_cons]
    omega

/-! ## A word's bytes -/

/-- Loads of bytes of a page that is granted. -/
theorem readsBytes_granted (n : ℕ) : ∀ {addr : VA} {h : HVA},
    Granted c s.mmu addr false true priv h → isDirect h = true → addr.toNat % 4096 + n ≤ 4096 →
      ReadsBytes c priv addr s (ByteMem.bytes s.sys.mem h n) s := by
  induction n with
  | zero => intro addr h _ _ _; exact .nil
  | succ n ih =>
    intro addr h hg hd hp
    rw [ByteMem.bytes_succ]
    refine .cons (load8_granted hg hd) ?_
    rcases Nat.eq_zero_or_pos n with rfl | hn
    · exact .nil
    · have hnext : addr.toNat % 4096 + 1 < 4096 := by omega
      have haddr : (addr + 1).toNat = addr.toNat + 1 :=
        Block.toNat_add_of_lt (k := 12) (by omega) hnext
      refine ih (hg.add hnext) (isDirect_add hg hnext hd) ?_
      show (addr + 1).toNat % 4096 + n ≤ 4096
      omega

/-- The first bytes of a run. -/
theorem bytes_take (mem : HostMem) (h : HVA) {r n : ℕ} (hr : r ≤ n) :
    (ByteMem.bytes mem h n).take r = ByteMem.bytes mem h r := by
  rw [ByteMem.bytes, ← List.map_take, List.take_range, Nat.min_eq_left hr]
  rfl

/-- **A word's load is the loads of its first bytes.** -/
theorem readsBytes_of_load {v : BitVec 32} {r : ℕ}
    (hram : ∀ h u, translateAddr c addr false true priv s = .ok (.ok h) u → isDirect h = true)
    (hp : addr.toNat % 4096 + 4 ≤ 4096) (hr : 0 < r) (hr4 : r ≤ 4)
    (hl : load c .word addr priv s = .ok (.ok v) t) :
    ReadsBytes c priv addr s ((ByteMem.ofWord v).take r) t := by
  obtain ⟨res, u, ht, hl⟩ := Prog.bind_eq_ok hl
  cases res with
  | error f => cases hl
  | ok h =>
    have hd := hram h u ht
    have hg : Granted c u.mmu addr false true priv h := translateAddr_hit ht
    simp only at hl
    rw [Prog.bind_of_ok (readPA_direct hd), Prog.pure_apply] at hl
    split_ifs at hl
    · cases hl
    cases hl
    have hbytes : ByteMem.ofWord (memRead .word t.sys.mem h) = ByteMem.bytes t.sys.mem h 4 :=
      ByteMem.ofWord_read32 _ _
    rw [hbytes, bytes_take _ _ hr4]
    have hreads := readsBytes_granted r hg hd (by omega)
    obtain ⟨r, rfl⟩ : ∃ k, r = k + 1 := ⟨r - 1, by omega⟩
    rw [ByteMem.bytes_succ] at hreads ⊢
    -- the first byte's load makes the translation
    have hfirst : load8 c addr priv s = load8 c addr priv t := by
      rw [load8, load, Prog.bind_of_ok ht, Prog.bind_of_ok hg.translateAddr]
    cases hreads with
    | cons head tail => exact .cons (hfirst.trans head) tail

/-! ## Strings of words -/

theorem Reads.append {vs ws : List (BitVec 32)} (hv : Reads c size priv addr s vs t)
    (hw : Reads c size priv (addr + BitVec.ofNat 32 (size.bytes * vs.length)) t ws u) :
    Reads c size priv addr s (vs ++ ws) u := by
  induction hv with
  | nil => simpa using hw
  | @cons addr s t u' v vs head tail ih =>
    refine .cons head (ih ?_)
    rw [BitVec.add_assoc, BitVec.ofNat_add_ofNat,
      show size.bytes + size.bytes * vs.length = size.bytes * (vs.length + 1) by rw [Nat.mul_succ]; omega]
    exact hw

/-- Every word of a string is in RAM: where translation lets its load
through, the host's memory is read. -/
def StringInRam (c : Config) (priv : Bool) (addr : VA) (s : Mem) (ws : List (BitVec 32)) : Prop :=
  ∀ j < ws.length, ∀ u, Reads c .word priv addr s (ws.take j) u →
    (Access.load .word (addr + BitVec.ofNat 32 (4 * j)) priv).ToRam c u

/-- No word of a string crosses the end of a page. -/
def StringInPages (addr : VA) (n : ℕ) : Prop :=
  ∀ j < n, (addr + BitVec.ofNat 32 (4 * j)).toNat % 4096 + 4 ≤ 4096

/-- **A string's words are its bytes.** Loads of the words of a string in
RAM make the translations that loads of its bytes alone make, however many
bytes of the last word it has, and give those bytes. -/
theorem Reads.bytes {ws : List (BitVec 32)} {n : ℕ} (hr : Reads c .word priv addr s ws t)
    (hram : StringInRam c priv addr s ws)
    (hpage : c.build.alignment = .any → StringInPages addr ws.length)
    (hn : n ≤ 4 * ws.length) (hlast : 4 * ws.length < n + 4) :
    ReadsBytes c priv addr s ((stringOf ws).take n) t := by
  induction hr generalizing n with
  | nil => simpa [ReadsBytes] using Reads.nil
  | @cons addr s t u v vs head tail ih =>
    have hin : addr.toNat % 4096 + 4 ≤ 4096 := by
      by_cases hb : c.build.alignment = .any
      · simpa using hpage hb 0 (by simp)
      · have hrun : (Access.load .word addr priv).run c s = .ok (.ok (some v)) t := by
          rw [Access.run, Prog.bind_of_ok head]
          rfl
        exact Access.inPage hb hrun
    have hhead : (Access.load .word addr priv).ToRam c s := by
      simpa using hram 0 (by simp) s .nil
    have hnext (j : ℕ) : addr + BitVec.ofNat 32 4 + BitVec.ofNat 32 (4 * j) =
        addr + BitVec.ofNat 32 (4 * (j + 1)) := by
      rw [BitVec.add_assoc, BitVec.ofNat_add_ofNat, Nat.add_comm 4, Nat.mul_succ]
    have hram' : StringInRam c priv (addr + BitVec.ofNat 32 4) t vs := by
      intro j hj w hw
      rw [hnext]
      exact hram (j + 1) (by simpa using hj) w (.cons head hw)
    have hpage' (hb : c.build.alignment = .any) :
        StringInPages (addr + BitVec.ofNat 32 4) vs.length := by
      intro j hj
      rw [hnext]
      exact hpage hb (j + 1) (by simpa using hj)
    rw [List.length_cons] at hn hlast
    rcases Nat.lt_or_ge n 4 with hn4 | hn4
    · -- the string ends in this word
      obtain rfl : vs = [] := List.length_eq_zero_iff.mp (by omega)
      cases tail
      have hfirst := readsBytes_of_load hhead hin (by omega) hn4.le head
      simpa [List.take_append_of_le_length, hn4.le] using hfirst
    · have hword := readsBytes_of_load hhead hin (by decide : 0 < 4) le_rfl head
      have hrest := ih hram' hpage' (n := n - 4) (by omega) (by omega)
      have htake : (stringOf (v :: vs)).take n = ByteMem.ofWord v ++ (stringOf vs).take (n - 4) := by
        rw [stringOf_cons, List.take_append, List.take_of_length_le (by simpa using hn4),
          ByteMem.length_ofWord]
      rw [htake, ReadsBytes, List.map_append]
      rw [List.take_of_length_le (by simp)] at hword
      exact hword.append hrest

/-! ## Stores -/

/-- Stores at addresses `step` apart, all let through. -/
inductive Writes (c : Config) (size : Size) (step : ℕ) (priv : Bool) :
    VA → List (BitVec 32) → Mem → Mem → Prop where
  | nil {addr : VA} {s : Mem} : Writes c size step priv addr [] s s
  | cons {addr : VA} {s t u : Mem} {v : BitVec 32} {vs : List (BitVec 32)}
      (head : store c size addr v priv s = .ok (.ok ()) t)
      (tail : Writes c size step priv (addr + BitVec.ofNat 32 step) vs t u) :
      Writes c size step priv addr (v :: vs) s u

/-- Single-byte stores. -/
def WritesBytes (c : Config) (priv : Bool) (addr : VA) (bs : List (BitVec 8)) (s t : Mem) : Prop :=
  Writes c .byte 1 priv addr (bs.map (·.setWidth 32)) s t

section

variable {step : ℕ} {vs ws : List (BitVec 32)}

theorem Writes.unique (ht : Writes c size step priv addr vs s t)
    (hu : Writes c size step priv addr vs s u) : t = u := by
  induction ht with
  | nil =>
    cases hu
    rfl
  | cons head tail ih =>
    cases hu with
    | cons head' tail' =>
      cases head.symm.trans head'
      exact ih tail'

theorem writes_append : Writes c size step priv addr (vs ++ ws) s u ↔
    ∃ t, Writes c size step priv addr vs s t ∧
      Writes c size step priv (addr + BitVec.ofNat 32 (step * vs.length)) ws t u := by
  induction vs generalizing addr s with
  | nil =>
    constructor
    · intro h
      exact ⟨s, .nil, by simpa using h⟩
    · rintro ⟨t, hv, hw⟩
      cases hv
      simpa using hw
  | cons v vs ih =>
    have haddr : addr + BitVec.ofNat 32 step + BitVec.ofNat 32 (step * vs.length) =
        addr + BitVec.ofNat 32 (step * (vs.length + 1)) := by
      rw [BitVec.add_assoc, BitVec.ofNat_add_ofNat, Nat.mul_succ, Nat.add_comm step]
    rw [List.length_cons, ← haddr]
    constructor
    · intro h
      cases h with
      | cons head tail =>
        obtain ⟨t, hv, hw⟩ := ih.mp tail
        exact ⟨t, .cons head hv, hw⟩
    · rintro ⟨t, hv, hw⟩
      cases hv with
      | cons head tail => exact .cons head (ih.mpr ⟨t, tail, hw⟩)

end

/-- The state with bytes of the host's memory replaced. -/
def put (s : Mem) (h : HVA) (bs : List (BitVec 8)) : Mem :=
  { s with sys := { s.sys with mem := ByteMem.writeBytes s.sys.mem h bs } }

/-- One byte is replaced, then the rest. -/
theorem put_cons (s : Mem) (h : HVA) (b : BitVec 8) {bs : List (BitVec 8)}
    (hlen : bs.length < 2 ^ 64) : put s h (b :: bs) = put (put s h [b]) (h + 1) bs := by
  rw [put, put, put, ByteMem.writeBytes_cons _ _ _ hlen, ByteMem.writeBytes_singleton]
  rfl

theorem put_covered (s : Mem) (h : HVA) {bs cs : List (BitVec 8)} (hlen : bs.length ≤ cs.length) :
    put (put s h bs) h cs = put s h cs := by
  rw [put, put, put, ByteMem.writeBytes_covered _ _ hlen]

/-- A byte that is widened, narrowed again. -/
theorem narrow_widen (b : BitVec 8) : (b.setWidth 32).setWidth 8 = b := by
  ext i hi
  simp

theorem store8_put (hg : Granted c s.mmu addr false false priv h) (hd : isDirect h = true)
    (b : BitVec 8) : store8 c addr (b.setWidth 32) priv s = .ok (.ok ()) (put s h [b]) := by
  rw [store8_granted hg hd, narrow_widen, put, ByteMem.writeBytes_singleton]

/-- Stores of bytes to a page that is granted. -/
theorem writesBytes_granted (bs : List (BitVec 8)) : ∀ {s : Mem} {addr : VA} {h : HVA},
    Granted c s.mmu addr false false priv h → isDirect h = true →
      addr.toNat % 4096 + bs.length ≤ 4096 → WritesBytes c priv addr bs s (put s h bs) := by
  induction bs with
  | nil => intro s addr h _ _ _; exact .nil
  | cons b bs ih =>
    intro s addr h hg hd hp
    rw [List.length_cons] at hp
    rw [put_cons _ _ _ (by omega)]
    refine .cons (store8_put hg hd b) ?_
    rcases Nat.eq_zero_or_pos bs.length with hz | hn
    · obtain rfl := List.length_eq_zero_iff.mp hz
      exact .nil
    · have hnext : addr.toNat % 4096 + 1 < 4096 := by omega
      have haddr : (addr + 1).toNat = addr.toNat + 1 :=
        Block.toNat_add_of_lt (k := 12) (by omega) hnext
      have hg' : Granted c (put s h [b]).mmu (addr + 1) false false priv (h + 1) := hg.add hnext
      refine ih hg' (isDirect_add hg hnext hd) ?_
      show (addr + 1).toNat % 4096 + bs.length ≤ 4096
      omega

/-- A store that is let through has been granted, and replaces bytes. -/
theorem store_ok {v : BitVec 32}
    (hram : ∀ h u, translateAddr c addr false false priv s = .ok (.ok h) u → isDirect h = true)
    (hs : store c .word addr v priv s = .ok (.ok ()) t) :
    ∃ h u, translateAddr c addr false false priv s = .ok (.ok h) u ∧
      Granted c u.mmu addr false false priv h ∧ isDirect h = true ∧
      alignFault c.build .word h = false ∧ t = put u h (ByteMem.ofWord v) := by
  obtain ⟨res, u, ht, hl⟩ := Prog.bind_eq_ok hs
  cases res with
  | error f => cases hl
  | ok h =>
    have hd := hram h u ht
    simp only at hl
    rw [Prog.bind_of_ok (writePA_direct hd), Prog.pure_apply] at hl
    split_ifs at hl with ha
    · cases hl
    cases hl
    refine ⟨h, u, ht, translateAddr_hit ht, hd, by simpa using ha, ?_⟩
    have hput : memWrite .word u.sys.mem h v = ByteMem.writeBytes u.sys.mem h (ByteMem.ofWord v) :=
      ByteMem.write32_eq_writeBytes _ _ _ (by decide)
    rw [put, hput]

/-- A store makes its translation once. -/
theorem store_after (v : BitVec 32)
    (ht : translateAddr c addr false false priv s = .ok (.ok h) t) :
    store c size addr v priv s = store c size addr v priv t := by
  rw [store, Prog.bind_of_ok ht, Prog.bind_of_ok (Granted.translateAddr (translateAddr_hit ht))]

/-- The first store makes the translation. -/
theorem writes_after {step : ℕ} {v : BitVec 32} {vs : List (BitVec 32)}
    (ht : translateAddr c addr false false priv s = .ok (.ok h) t) :
    Writes c size step priv addr (v :: vs) s u ↔ Writes c size step priv addr (v :: vs) t u := by
  have hfirst : store c size addr v priv s = store c size addr v priv t := store_after v ht
  constructor
  · intro hw
    cases hw with
    | cons head tail => exact .cons (hfirst.symm.trans head) tail
  · intro hw
    cases hw with
    | cons head tail => exact .cons (hfirst.trans head) tail

theorem writesBytes_after {bs : List (BitVec 8)} (hbs : bs ≠ [])
    (ht : translateAddr c addr false false priv s = .ok (.ok h) t) :
    WritesBytes c priv addr bs s u ↔ WritesBytes c priv addr bs t u := by
  obtain ⟨b, bs, rfl⟩ := List.exists_cons_of_ne_nil hbs
  exact writes_after ht

/-- **A word's store is the stores of its bytes.** -/
theorem writesBytes_of_store {v : BitVec 32}
    (hram : ∀ h u, translateAddr c addr false false priv s = .ok (.ok h) u → isDirect h = true)
    (hp : addr.toNat % 4096 + 4 ≤ 4096) (hs : store c .word addr v priv s = .ok (.ok ()) t) :
    WritesBytes c priv addr (ByteMem.ofWord v) s t := by
  obtain ⟨h, u, ht, hg, hd, -, rfl⟩ := store_ok hram hs
  exact (writesBytes_after (by simp [ByteMem.ofWord]) ht).mpr (writesBytes_granted _ hg hd hp)

/-- Every byte of a string that is stored is in RAM: where translation lets
its store through, the host's memory is written. -/
def BytesInRam (c : Config) (priv : Bool) (addr : VA) (s : Mem) (bs : List (BitVec 8)) : Prop :=
  ∀ k < bs.length, ∀ m, WritesBytes c priv addr (bs.take k) s m →
    ∀ h u, translateAddr c (addr + BitVec.ofNat 32 k) false false priv m = .ok (.ok h) u →
      isDirect h = true

theorem WritesBytes.append {bs cs : List (BitVec 8)} (hb : WritesBytes c priv addr bs s t)
    (hc : WritesBytes c priv (addr + BitVec.ofNat 32 bs.length) cs t u) :
    WritesBytes c priv addr (bs ++ cs) s u := by
  rw [WritesBytes, List.map_append]
  refine writes_append.mpr ⟨t, hb, ?_⟩
  rw [List.length_map, Nat.one_mul]
  exact hc

/-- What follows some bytes that are stored. -/
theorem BytesInRam.rest {bs cs : List (BitVec 8)} (h : BytesInRam c priv addr s (bs ++ cs))
    (hb : WritesBytes c priv addr bs s t) :
    BytesInRam c priv (addr + BitVec.ofNat 32 bs.length) t cs := by
  intro k hk m hm g u hg
  rw [BitVec.add_assoc, BitVec.ofNat_add_ofNat] at hg
  refine h (bs.length + k) (by rw [List.length_append]; omega) m ?_ g u hg
  rw [List.take_length_add_append]
  exact hb.append hm

theorem BytesInRam.front {bs cs : List (BitVec 8)} (h : BytesInRam c priv addr s (bs ++ cs)) :
    BytesInRam c priv addr s bs := by
  intro k hk m hm
  refine h k (by rw [List.length_append]; omega) m ?_
  rw [List.take_append_of_le_length hk.le]
  exact hm

/-- What is left to store, once some bytes are. -/
theorem writesBytes_append_iff {bs cs : List (BitVec 8)} (hb : WritesBytes c priv addr bs s t) :
    WritesBytes c priv addr (bs ++ cs) s u ↔
      WritesBytes c priv (addr + BitVec.ofNat 32 bs.length) cs t u := by
  constructor
  · intro h
    rw [WritesBytes, List.map_append] at h
    obtain ⟨t', ht', hc⟩ := writes_append.mp h
    rw [List.length_map, Nat.one_mul] at hc
    rw [hb.unique ht']
    exact hc
  · exact hb.append

/-- The store of a word stays in its page, but in the build that takes any
alignment. -/
theorem inPage_of_store {v : BitVec 32} (hb : c.build.alignment ≠ .any)
    (hs : store c .word addr v priv s = .ok (.ok ()) t) : addr.toNat % 4096 + 4 ≤ 4096 := by
  have hrun : (Access.store .word addr v priv).run c s = .ok (.ok none) t := by
    rw [Access.run, Prog.bind_of_ok hs]
    rfl
  exact Access.inPage hb hrun

/-- **A string's words are its bytes,** for stores. -/
theorem Writes.bytes {ws : List (BitVec 32)} (hw : Writes c .word 4 priv addr ws s t)
    (hram : BytesInRam c priv addr s (stringOf ws))
    (hpage : c.build.alignment = .any → StringInPages addr ws.length) :
    WritesBytes c priv addr (stringOf ws) s t := by
  induction hw with
  | nil => exact .nil
  | @cons addr s t u v vs head tail ih =>
    have hin : addr.toNat % 4096 + 4 ≤ 4096 := by
      by_cases hb : c.build.alignment = .any
      · simpa using hpage hb 0 (by simp)
      · exact inPage_of_store hb head
    have hhead : WritesBytes c priv addr (ByteMem.ofWord v) s t :=
      writesBytes_of_store (fun h u hu => hram 0 (by simp) s .nil h u (by simpa using hu)) hin head
    rw [stringOf_cons] at hram ⊢
    refine hhead.append (ih (hram.rest hhead) fun hb j hj => ?_)
    rw [BitVec.add_assoc, BitVec.ofNat_add_ofNat, Nat.add_comm 4, ← Nat.mul_succ]
    exact hpage hb (j + 1) (by simpa using hj)

/-! ## Words stored byte after byte -/

/-- **Stores of one word at successive bytes** leave its first byte at each
of them, and the other three behind the last. -/
theorem writes_word_each {v : BitVec 32} (r : ℕ) : ∀ {s t : Mem} {addr : VA} {h : HVA},
    Granted c s.mmu addr false false priv h → isDirect h = true →
      addr.toNat % 4096 + r + 4 ≤ 4096 →
      Writes c .word 1 priv addr (List.replicate (r + 1) v) s t →
      t = put s h (List.replicate r (v.extractLsb' 24 8) ++ ByteMem.ofWord v) := by
  induction r with
  | zero =>
    intro s t addr h hg hd hp hw
    cases hw with
    | cons head tail =>
      cases tail
      obtain ⟨g, u, hu, -, -, -, ht⟩ := store_ok (fun g u hu => by
        cases hg.translateAddr.symm.trans hu
        exact hd) head
      cases hg.translateAddr.symm.trans hu
      exact ht
  | succ r ih =>
    intro s t addr h hg hd hp hw
    have hnext : addr.toNat % 4096 + 1 < 4096 := by omega
    have haddr : (addr + 1).toNat = addr.toNat + 1 :=
      Block.toNat_add_of_lt (k := 12) (by omega) hnext
    cases hw with
    | cons head tail =>
      obtain ⟨g, u, hu, -, -, -, ht⟩ := store_ok (fun g u hu => by
        cases hg.translateAddr.symm.trans hu
        exact hd) head
      cases hg.translateAddr.symm.trans hu
      subst ht
      have hg' : Granted c (put s h (ByteMem.ofWord v)).mmu (addr + 1) false false priv (h + 1) :=
        hg.add hnext
      have hin : (addr + 1).toNat % 4096 + r + 4 ≤ 4096 := by omega
      rw [ih hg' (isDirect_add hg hnext hd) hin tail]
      -- what the first word has behind its first byte is replaced
      have hlen : (List.replicate r (v.extractLsb' 24 8) ++ ByteMem.ofWord v).length = r + 4 := by
        simp
      rw [List.replicate_succ, List.cons_append, put_cons _ _ _ (by omega)]
      have hfirst : put s h (ByteMem.ofWord v) = put (put s h [v.extractLsb' 24 8]) (h + 1)
          [v.extractLsb' 16 8, v.extractLsb' 8 8, v.extractLsb' 0 8] := put_cons _ _ _ (by simp)
      rw [hfirst, put_covered _ _ (by simp)]

/-- Where a word stored at each of `r` successive bytes leaves what its
first `r` bytes would: those are one byte, and the three behind them are
there already. -/
def TailFits (mem : HostMem) (h : HVA) (v : BitVec 32) (r : ℕ) : Prop :=
  (∀ j < r, ByteMem.byteOf v j = ByteMem.byteOf v 0) ∧
    ∀ j < 3, mem (h + BitVec.ofNat 64 (r + j)) = ByteMem.byteOf v (j + 1)

theorem put_each_iff {v : BitVec 32} {r : ℕ} (hr : r < 4) :
    put s h (List.replicate r (v.extractLsb' 24 8) ++ ByteMem.ofWord v) =
      put s h ((ByteMem.ofWord v).take (r + 1)) ↔ TailFits s.sys.mem h v (r + 1) := by
  have hlen : (List.replicate r (v.extractLsb' 24 8) ++ ByteMem.ofWord v).length = r + 4 := by
    simp
  have hmem : put s h (List.replicate r (v.extractLsb' 24 8) ++ ByteMem.ofWord v) =
      put s h ((ByteMem.ofWord v).take (r + 1)) ↔
      ByteMem.writeBytes s.sys.mem h (List.replicate r (v.extractLsb' 24 8) ++ ByteMem.ofWord v) =
        ByteMem.writeBytes s.sys.mem h ((ByteMem.ofWord v).take (r + 1)) :=
    ⟨fun heq => congrArg (·.sys.mem) heq, fun heq => by rw [put, put, heq]⟩
  rw [hmem, ByteMem.writeBytes_eq_iff (by simp) (by omega)]
  have hleft (j : ℕ) (hj : j < r + 4) :
      (List.replicate r (v.extractLsb' 24 8) ++ ByteMem.ofWord v)[j] =
        if j < r then ByteMem.byteOf v 0 else ByteMem.byteOf v (j - r) := by
    rw [List.getElem_append]
    split_ifs with h1 h2 h2
    · exact List.getElem_replicate ..
    · exact absurd (by simpa using h1) h2
    · exact absurd (by simpa using h2) h1
    · have hat := ByteMem.getElem?_ofWord v (j := j - r) (by omega)
      simp only [List.length_replicate]
      exact (List.getElem?_eq_some_iff.mp hat).2
  have hright (j : ℕ) (x : BitVec 8) : ((ByteMem.ofWord v).take (r + 1))[j]?.getD x =
      if j < r + 1 then ByteMem.byteOf v j else x := by
    rw [List.getElem?_take]
    split_ifs with h1
    · rw [ByteMem.getElem?_ofWord v (by omega)]
      rfl
    · rfl
  constructor
  · intro hall
    constructor
    · intro j hj
      have hat := hall j (by omega)
      rw [hleft j (by omega), hright, if_pos hj] at hat
      split_ifs at hat with h1
      · exact hat.symm
      · rw [show j - r = 0 by omega] at hat
        exact hat.symm
    · intro j hj
      have hat := hall (r + 1 + j) (by omega)
      rw [hleft _ (by omega), hright, if_neg (by omega), if_neg (by omega),
        show r + 1 + j - r = j + 1 by omega] at hat
      exact hat.symm
  · rintro ⟨hsame, hbehind⟩ j hj
    rw [hleft j (by omega), hright]
    split_ifs with h1 h2 h2
    · exact (hsame j h2).symm
    · omega
    · rw [show j - r = 0 by omega]
      exact (hsame j h2).symm
    · have hat := hbehind (j - (r + 1)) (by omega)
      rw [show r + 1 + (j - (r + 1)) = j by omega, show j - (r + 1) + 1 = j - r by omega] at hat
      exact hat.symm

/-- Stores of words at successive bytes stay in one page, but in the build
that takes any alignment. -/
theorem inPage_of_writes {v : BitVec 32} (hb : c.build.alignment ≠ .any) (r : ℕ) :
    ∀ {s t : Mem} {addr : VA}, Writes c .word 1 priv addr (List.replicate (r + 1) v) s t →
      addr.toNat % 4096 + r + 4 ≤ 4096 := by
  induction r with
  | zero =>
    intro s t addr hw
    cases hw with
    | cons head tail => exact inPage_of_store hb head
  | succ r ih =>
    intro s t addr hw
    cases hw with
    | cons head tail =>
      have hin := inPage_of_store hb head
      have hnext := ih tail
      have haddr : (addr + BitVec.ofNat 32 1).toNat = addr.toNat + 1 :=
        Block.toNat_add_of_lt (k := 12) (by omega) (by omega)
      omega

/-- **The tail of a string store.** A word stored at each of a few bytes in
RAM is as good as those bytes where it fits. -/
theorem writes_tail_iff {v : BitVec 32} {r : ℕ} (hr : r < 4)
    (hw : Writes c .word 1 priv addr (List.replicate (r + 1) v) s t)
    (hram : ∀ h u, translateAddr c addr false false priv s = .ok (.ok h) u → isDirect h = true)
    (hpage : addr.toNat % 4096 + r + 4 ≤ 4096) :
    WritesBytes c priv addr ((ByteMem.ofWord v).take (r + 1)) s t ↔
      ∃ h u, translateAddr c addr false false priv s = .ok (.ok h) u ∧
        TailFits u.sys.mem h v (r + 1) := by
  have hw' := hw
  rw [List.replicate_succ] at hw'
  cases hw' with
  | cons head _ =>
    obtain ⟨h, u, ht, hg, hd, -, -⟩ := store_ok hram head
    have hwords := writes_word_each r hg hd hpage ((writes_after ht).mp hw)
    have hbytes : WritesBytes c priv addr ((ByteMem.ofWord v).take (r + 1)) s
        (put u h ((ByteMem.ofWord v).take (r + 1))) :=
      (writesBytes_after (by simp [ByteMem.ofWord]) ht).mpr
        (writesBytes_granted _ hg hd (by rw [List.length_take]; omega))
    constructor
    · intro hb
      exact ⟨h, u, ht, (put_each_iff hr).mp (hwords.symm.trans (hb.unique hbytes))⟩
    · rintro ⟨g, w, hw, hfits⟩
      cases ht.symm.trans hw
      rw [hwords, (put_each_iff hr).mpr hfits]
      exact hbytes

/-! ## Reading back -/

/-- No translation that storing a string makes changes a byte of it that is
stored: no entry of the hash table whose R and C are set on the way lies
under the string. -/
def Undisturbed (c : Config) (priv : Bool) (addr : VA) (s : Mem) (bs : List (BitVec 8)) : Prop :=
  ∀ k < bs.length, ∀ m, WritesBytes c priv addr (bs.take k) s m →
    ∀ h u, translateAddr c (addr + BitVec.ofNat 32 k) false false priv m = .ok (.ok h) u →
      ∀ j < k, ∀ g, Granted c m.mmu (addr + BitVec.ofNat 32 j) false false priv g →
        u.sys.mem g = m.sys.mem g

/-- The state that stores to one page pass through. -/
theorem put_of_writes {bs : List (BitVec 8)} {u m : Mem} {k : ℕ}
    (ht : translateAddr c addr false false priv s = .ok (.ok h) u) (hd : isDirect h = true)
    (hp : addr.toNat % 4096 + bs.length ≤ 4096) (hk : k < bs.length)
    (hm : WritesBytes c priv addr (bs.take k) s m) :
    k = 0 ∧ m = s ∨ m = put u h (bs.take k) := by
  rcases Nat.eq_zero_or_pos k with hz | hpos
  · subst hz
    cases hm
    exact .inl ⟨rfl, rfl⟩
  · have hne : bs.take k ≠ [] := by
      intro hnil
      have := congrArg List.length hnil
      rw [List.length_take, List.length_nil] at this
      omega
    have hput := writesBytes_granted (bs.take k) (translateAddr_hit ht) hd
      (by rw [List.length_take]; omega)
    exact .inr (((writesBytes_after hne ht).mp hm).unique hput)

/-- A page that is granted stays granted when bytes are put. -/
theorem granted_put {u : Mem} {bs : List (BitVec 8)} {k : ℕ}
    (hg : Granted c u.mmu addr false false priv h) (hk : addr.toNat % 4096 + k < 4096) :
    translateAddr c (addr + BitVec.ofNat 32 k) false false priv (put u h bs) =
      .ok (.ok (h + BitVec.ofNat 64 k)) (put u h bs) :=
  Granted.translateAddr (hg.add hk)

/-- **A string in one page is in RAM** where its first byte is. -/
theorem bytesInRam_of_page {bs : List (BitVec 8)} {u : Mem}
    (ht : translateAddr c addr false false priv s = .ok (.ok h) u) (hd : isDirect h = true)
    (hp : addr.toNat % 4096 + bs.length ≤ 4096) : BytesInRam c priv addr s bs := by
  intro k hk m hm g w hw
  rcases put_of_writes ht hd hp hk hm with ⟨rfl, rfl⟩ | rfl
  · rw [BitVec.add_zero] at hw
    cases ht.symm.trans hw
    exact hd
  · have hg : Granted c u.mmu addr false false priv h := translateAddr_hit ht
    cases (granted_put hg (by omega)).symm.trans hw
    exact isDirect_add hg (by omega) hd

/-- **A string in one page is not disturbed.** -/
theorem undisturbed_of_page {bs : List (BitVec 8)} {u : Mem}
    (ht : translateAddr c addr false false priv s = .ok (.ok h) u) (hd : isDirect h = true)
    (hp : addr.toNat % 4096 + bs.length ≤ 4096) : Undisturbed c priv addr s bs := by
  intro k hk m hm g w hw j hj x hx
  rcases put_of_writes ht hd hp hk hm with ⟨rfl, -⟩ | rfl
  · omega
  · have hg : Granted c u.mmu addr false false priv h := translateAddr_hit ht
    cases (granted_put hg (by omega)).symm.trans hw
    rfl

/-- The bytes of a string are in RAM, in pages that are granted. -/
def Holds (c : Config) (priv : Bool) (addr : VA) (m : Mem) (bs : List (BitVec 8)) : Prop :=
  ∀ k (hk : k < bs.length), ∃ h,
    Granted c m.mmu (addr + BitVec.ofNat 32 k) false false priv h ∧ isDirect h = true ∧
      m.sys.mem h = bs[k]

/-- Addresses less than a page apart. -/
theorem offset_ne {a : VA} {j k : ℕ} (hjk : j < k) (hk : k < 4096) :
    (a + BitVec.ofNat 32 j).toNat % 4096 ≠ (a + BitVec.ofNat 32 k).toNat % 4096 := by
  rw [BitVec.toNat_add, BitVec.toNat_add, BitVec.toNat_ofNat, BitVec.toNat_ofNat]
  omega

theorem toNat_addrToIdx (a : VA) : (addrToIdx a).toNat = a.toNat / 4096 % 128 := by
  rw [addrToIdx, BitVec.toNat_setWidth, BitVec.toNat_ushiftRight, Nat.shiftRight_eq_div_pow]

/-- Nearby pages have different places in the uTLB. -/
theorem page_of_addrToIdx {a : VA} {j k : ℕ} (hjk : j < k) (hk : k < 4096)
    (h : addrToIdx (a + BitVec.ofNat 32 j) = addrToIdx (a + BitVec.ofNat 32 k)) :
    Block.base 12 (a + BitVec.ofNat 32 j) = Block.base 12 (a + BitVec.ofNat 32 k) := by
  have hidx := congrArg BitVec.toNat h
  rw [toNat_addrToIdx, toNat_addrToIdx] at hidx
  rw [Block.base_eq_iff]
  rw [BitVec.toNat_add, BitVec.toNat_add, BitVec.toNat_ofNat, BitVec.toNat_ofNat] at hidx ⊢
  have := a.isLt
  omega

/-- A page that is granted for one address is granted for all. -/
theorem Granted.page {m : Mmu} {a b : VA} (hg : Granted c m a false false priv h)
    (hab : Block.base 12 b = Block.base 12 a) : ∃ g, Granted c m b false false priv g := by
  obtain ⟨p, hl, hc⟩ := hg
  exact ⟨_, p, utlbLookup_page hl hab, hc⟩

/-- **One more byte is stored.** The pages of those before it stay granted;
nothing of them changes, for they have other places in their pages. -/
theorem Holds.snoc {bs : List (BitVec 8)} {b : BitVec 8} (hm : Holds c priv addr s bs)
    (hlen : bs.length < 4096)
    (hs : store8 c (addr + BitVec.ofNat 32 bs.length) (b.setWidth 32) priv s = .ok (.ok ()) t)
    (hram : ∀ h u, translateAddr c (addr + BitVec.ofNat 32 bs.length) false false priv s =
      .ok (.ok h) u → isDirect h = true)
    (hkeep : ∀ h u, translateAddr c (addr + BitVec.ofNat 32 bs.length) false false priv s =
      .ok (.ok h) u → ∀ j < bs.length, ∀ g,
        Granted c s.mmu (addr + BitVec.ofNat 32 j) false false priv g → u.sys.mem g = s.sys.mem g) :
    Holds c priv addr t (bs ++ [b]) := by
  obtain ⟨h, u, ht, rfl⟩ : ∃ h u, translateAddr c (addr + BitVec.ofNat 32 bs.length) false false
      priv s = .ok (.ok h) u ∧ t = put u h [b] := by
    obtain ⟨res, u, ht, hl⟩ := Prog.bind_eq_ok hs
    cases res with
    | error f => cases hl
    | ok h =>
      have hput := store8_put (translateAddr_hit ht) (hram h u ht) b
      rw [store8, store, Prog.bind_of_ok (Granted.translateAddr (translateAddr_hit ht))] at hput
      cases hl.symm.trans hput
      exact ⟨h, u, ht, rfl⟩
  have hg : Granted c u.mmu (addr + BitVec.ofNat 32 bs.length) false false priv h :=
    translateAddr_hit ht
  have hhost : (put u h [b]).sys.mem = ByteMem.write8 u.sys.mem h b :=
    ByteMem.writeBytes_singleton ..
  intro j hj
  rw [List.length_append, List.length_singleton] at hj
  rcases Nat.lt_or_ge j bs.length with hlt | hge
  · obtain ⟨g, hgj, hdj, hmem⟩ := hm j hlt
    have hstill : Granted c u.mmu (addr + BitVec.ofNat 32 j) false false priv g := by
      by_cases hidx : addrToIdx (addr + BitVec.ofNat 32 j) =
          addrToIdx (addr + BitVec.ofNat 32 bs.length)
      · -- in one page, which is granted already, nothing is translated
        obtain ⟨k, hk⟩ := hgj.page (page_of_addrToIdx hlt hlen hidx).symm
        cases hk.translateAddr.symm.trans ht
        exact hgj
      · obtain ⟨p, hl, hc⟩ := hgj
        exact ⟨p, (utlbLookup_translateAddr ht hidx).trans hl, hc⟩
    have hne : g ≠ h := by
      intro heq
      have hoff := hstill.offset.symm.trans ((congrArg (Block.offset 12) heq).trans hg.offset)
      have hnat := congrArg BitVec.toNat hoff
      rw [Block.toNat_offset, Block.toNat_offset, BitVec.toNat_setWidth, BitVec.toNat_setWidth]
        at hnat
      have := (addr + BitVec.ofNat 32 j).isLt
      have := (addr + BitVec.ofNat 32 bs.length).isLt
      have hneq := offset_ne (a := addr) hlt hlen
      omega
    refine ⟨g, hstill, hdj, ?_⟩
    rw [hhost, ByteMem.write8_of_ne hne, hkeep h u ht j hlt g hgj, hmem,
      List.getElem_append_left hlt]
  · obtain rfl : j = bs.length := by omega
    refine ⟨h, hg, hram h u ht, ?_⟩
    rw [hhost, ByteMem.write8_same, List.getElem_concat_length rfl]

/-- **A string that is stored is there.** -/
theorem holds_of_writes {bs : List (BitVec 8)} (hlen : bs.length ≤ 4096)
    (hw : WritesBytes c priv addr bs s t) (hram : BytesInRam c priv addr s bs)
    (hkeep : Undisturbed c priv addr s bs) : Holds c priv addr t bs := by
  induction bs using List.reverseRecOn generalizing t with
  | nil => exact fun k hk => absurd hk (Nat.not_lt_zero k)
  | append_singleton bs b ih =>
    have hsnoc : (bs ++ [b]).length = bs.length + 1 := by simp
    have htake {k : ℕ} (hk : k ≤ bs.length) : (bs ++ [b]).take k = bs.take k :=
      List.take_append_of_le_length hk
    rw [WritesBytes, List.map_append] at hw
    obtain ⟨u, hu, hlast⟩ := writes_append.mp hw
    rw [List.length_map, Nat.one_mul] at hlast
    have hprefix : WritesBytes c priv addr ((bs ++ [b]).take bs.length) s u := by
      rw [htake le_rfl, List.take_length]
      exact hu
    have hheld : Holds c priv addr u bs := by
      refine ih (by omega) hu (fun k hk m hm => ?_) fun k hk m hm => ?_
      · exact hram k (by omega) m (by rwa [htake hk.le])
      · exact hkeep k (by omega) m (by rwa [htake hk.le])
    cases hlast with
    | cons head tail =>
      cases tail
      exact hheld.snoc (by omega) head (hram _ (by omega) u hprefix)
        (hkeep _ (by omega) u hprefix)

/-- A load of a byte that is there. -/
theorem Holds.load8 {b : BitVec 8} {bs : List (BitVec 8)} {v : BitVec 32}
    (hm : Holds c priv addr s (b :: bs)) (hl : load c .byte addr priv s = .ok (.ok v) t) :
    v = b.setWidth 32 ∧ t = s := by
  obtain ⟨h, hg, hd, hmem⟩ := hm 0 (Nat.succ_pos _)
  rw [BitVec.add_zero] at hg
  obtain ⟨p, hlook, hc⟩ := hg
  have hread : Granted c s.mmu addr false true priv h := by
    by_contra hno
    have hperms : checkPerms c.build p true false = false := by
      by_contra hp
      exact hno ⟨p, hlook, by simpa using hp⟩
    have hclean : checkFaultWasCleanliness c.build p true false = false := by
      simp [checkFaultWasCleanliness]
    rw [load, translateAddr, Prog.bind_assoc, Prog.gets_bind_apply, hlook] at hl
    simp only [hperms, hclean] at hl
    cases hl
  have hload := load8_granted hread hd
  rw [Mmu.load8, hl] at hload
  cases hload
  exact ⟨by rw [hmem]; rfl, rfl⟩

/-- **What is read back is what is there.** -/
theorem Holds.reads {bs bs' : List (BitVec 8)} (hm : Holds c priv addr s bs)
    (hr : ReadsBytes c priv addr s bs' t) (hlen : bs'.length = bs.length) : bs' = bs := by
  induction bs' generalizing addr bs with
  | nil => exact (List.length_eq_zero_iff.mp hlen.symm).symm
  | cons b' bs' ih =>
    cases bs with
    | nil => cases hlen
    | cons b bs =>
      cases hr with
      | cons head tail =>
        obtain ⟨hv, hs⟩ := hm.load8 head
        rw [hs] at tail
        have hb : b' = b :=
          (narrow_widen b').symm.trans ((congrArg (·.setWidth 8) hv).trans (narrow_widen b))
        have hrest : Holds c priv (addr + BitVec.ofNat 32 1) s bs := by
          intro k hk
          obtain ⟨h, hg, hd, hmem⟩ := hm (k + 1) (by simpa using hk)
          rw [BitVec.add_assoc, BitVec.ofNat_add_ofNat, Nat.add_comm 1]
          exact ⟨h, hg, hd, hmem⟩
        rw [hb, ih hrest tail (Nat.succ.inj hlen)]

end Mmu

end MrIss
