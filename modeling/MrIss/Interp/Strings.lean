import MrIss.Interp.Checked
import MrIss.Machine.Reservation
import MrIss.Mmu.Strings
/-!
# String instructions

A string is a count of bytes from an address on, and registers from one on,
four bytes to a register and register 31 followed by register 0. The
instructions move whole words. Loads clear the wrong end of the last word,
and stores write a word for each byte of it; `decoded_string_load` says
what remains true of a load.
-/

namespace MrIss

open EarlyReturn

/-- The two forms: the count in the instruction, or in XER. -/
inductive StringForm where
  | immediate
  | indexed
  deriving DecidableEq, Repr

namespace StringForm

/-- The address of the first byte. -/
def base (o : StringForm) (i : BitVec 32) (s : Machine) : VA :=
  let a := if xRA0 i = 0 then 0 else s.gpr (xRA0 i)
  match o with
  | immediate => a
  | indexed => a + s.gpr (xRB i)

/-- The count of bytes: NB, where 0 stands for 32, or XER[25:31]. -/
def count (o : StringForm) (i : BitVec 32) (s : Machine) : ℕ :=
  match o with
  | immediate => if xNB i = 0 then 32 else (xNB i).toNat
  | indexed => s.cpu.user.xer.toNat % 128

/-- The extended opcodes of `lswi` and `lswx`. -/
def loadXo : StringForm → ℕ
  | immediate => 597
  | indexed => 533

/-- Whether a word is one of the load's. -/
def encodesLoad (o : StringForm) (i : BitVec 32) : Bool :=
  (getOpcode i).toNat == 31 && (xXOPC i).toNat == o.loadXo

theorem count_le (o : StringForm) (i : BitVec 32) (s : Machine) : o.count i s ≤ 127 := by
  cases o with
  | immediate =>
    have hnb : (xNB i).toNat < 32 := BitVec.lt_def.mp (field_lt 11 i)
    rw [count]
    split_ifs <;> omega
  | indexed =>
    rw [count]
    omega

end StringForm

/-- A register of a string: `j` after the first. -/
def stringReg (r : Reg) (j : ℕ) : Fin 32 := Fin.ofNat 32 (r.toNat + j)

/-- **Where a string belongs.** Its bytes in order in successive registers,
what is left of the last one zero, and nothing else changed but PC. -/
structure Placed (rt : Reg) (bs : List (BitVec 8)) (s t : Machine) : Prop where
  bytes : ∀ k < 4 * wordsOf bs.length,
    ByteMem.byteOf (t.cpu.user.gprs (stringReg rt (k / 4))) (k % 4) = bs.getD k 0
  others : ∀ r, (∀ j < wordsOf bs.length, r ≠ stringReg rt j) →
    t.cpu.user.gprs r = s.cpu.user.gprs r
  rest : t.cpu = { s.cpu with
    user := { s.cpu.user with gprs := t.cpu.user.gprs, pc := s.cpu.user.pc + 4 } }

/-! ## The registers' numbers -/

theorem toNat_nextReg {r : Reg} (hr : r < 32) : ((r + 1) &&& 0x1f).toNat = (r.toNat + 1) % 32 := by
  have hand : ((r + 1) &&& 0x1f).toNat = (r + 1).toNat % 2 ^ 5 := Block.toNat_offset 5 _
  have hr' : r.toNat < 32 := BitVec.lt_def.mp hr
  rw [hand, BitVec.toNat_add]
  show (r.toNat + 1) % 2 ^ 32 % 2 ^ 5 = _
  omega

theorem nextReg_lt (r : Reg) : (r + 1) &&& 0x1f < 32 := field_lt 0 (r + 1)

/-- Register 31 is followed by register 0. -/
theorem stringReg_next {r : Reg} (hr : r < 32) (j : ℕ) :
    stringReg ((r + 1) &&& 0x1f) j = stringReg r (j + 1) := by
  apply Fin.ext
  show (((r + 1) &&& 0x1f).toNat + j) % 32 = (r.toNat + (j + 1)) % 32
  rw [toNat_nextReg hr]
  omega

/-- Up to 32 registers are apart. -/
theorem stringReg_inj {r : Reg} {j k : ℕ} (hj : j < 32) (hk : k < 32)
    (h : stringReg r j = stringReg r k) : j = k := by
  have hval : (r.toNat + j) % 32 = (r.toNat + k) % 32 := congrArg Fin.val h
  omega

/-! ## Loads -/

section

variable {c : Config} {base : VA} {numbytes : ℕ}

/-- What the loop makes of a word, `left` bytes before the end. -/
def kept (left : ℕ) (v : Reg) : Reg :=
  if left < 4 then v &&& (0xffffffff#32 >>> (8 * left)) else v

/-- **The loop of a string load** that goes on to its end. -/
theorem lswLoop_ok (words : ℕ) : ∀ {n : ℕ} {reg : Reg} {s t : Machine}, words ≤ 32 → reg < 32 →
    lswLoop c base numbytes words n reg s = .ok () t → ∃ ws : List (BitVec 32),
      ws.length = words ∧
      Mmu.Reads c .word s.cpu.isPrivileged (base + BitVec.ofNat 32 n) s.mem ws t.mem ∧
      (∀ j (hj : j < ws.length),
        t.cpu.user.gprs (stringReg reg j) = kept (numbytes - (n + 4 * j)) ws[j]) ∧
      (∀ r, (∀ j < words, r ≠ stringReg reg j) → t.cpu.user.gprs r = s.cpu.user.gprs r) ∧
      t.cpu = { s.cpu with user := { s.cpu.user with gprs := t.cpu.user.gprs } } := by
  induction words with
  | zero =>
    intro n reg s t _ _ h
    cases h
    exact ⟨[], rfl, .nil, fun j hj => absurd hj (Nat.not_lt_zero j), fun _ _ => rfl, rfl⟩
  | succ words ih =>
    intro n reg s t hw hreg h
    rw [lswLoop] at h
    obtain ⟨v, m, hload, h⟩ := of_load_checked c .word _ h
    rw [writeGPR, Prog.assert_of_true (decide_eq_true hreg)] at h
    let g : Fin 32 → Reg :=
      Function.update s.cpu.user.gprs (stringReg reg 0) (kept (numbytes - n) v)
    have hrest : lswLoop c base numbytes words (n + 4) ((reg + 1) &&& 0x1f)
        ((s.passed true (base + BitVec.ofNat 32 n) m).setUser { s.cpu.user with gprs := g }) =
          .ok () t := h
    obtain ⟨ws, hlen, hreads, hplaced, hothers, hcpu⟩ := ih (by omega) (nextReg_lt reg) hrest
    have haddr : base + BitVec.ofNat 32 n + BitVec.ofNat 32 4 = base + BitVec.ofNat 32 (n + 4) := by
      rw [BitVec.add_assoc, BitVec.ofNat_add_ofNat]
    refine ⟨v :: ws, by rw [List.length_cons, hlen], .cons hload (haddr ▸ hreads), ?_, ?_, ?_⟩
    · intro j hj
      rw [List.length_cons] at hj
      cases j with
      | zero =>
        -- the registers that follow are others
        rw [hothers _ fun k hk heq => ?_]
        · exact Function.update_self ..
        · rw [stringReg_next hreg] at heq
          have := stringReg_inj (by omega) (by omega) heq
          omega
      | succ j =>
        rw [← stringReg_next hreg, hplaced j (by omega), List.getElem_cons_succ,
          show n + 4 + 4 * j = n + 4 * (j + 1) by omega]
    · intro r hr
      rw [hothers r fun k hk heq => ?_]
      · exact Function.update_of_ne (hr 0 (by omega)) ..
      · exact hr (k + 1) (by omega) (heq.trans (stringReg_next hreg k))
    · rw [hcpu]
      rfl

end

/-! ### The last word -/

/-- A byte of what the loop makes of a word. -/
theorem byteOf_kept (left : ℕ) (v : Reg) {j : ℕ} (hj : j < 4) :
    ByteMem.byteOf (kept left v) j = if left < 4 ∧ j < left then 0 else ByteMem.byteOf v j := by
  unfold kept
  by_cases hl : left < 4
  · rw [if_pos hl]
    apply BitVec.eq_of_getLsbD_eq
    intro i hi
    have hones : (0xffffffff#32).getLsbD (8 * left + (24 - 8 * j + i)) =
        decide (8 * left + (24 - 8 * j + i) < 32) :=
      BitVec.getLsbD_allOnes (v := 32)
    rw [ByteMem.byteOf, BitVec.getLsbD_extractLsb', BitVec.getLsbD_and, BitVec.getLsbD_ushiftRight, hones]
    by_cases hjl : j < left
    · have hout : ¬ 8 * left + (24 - 8 * j + i) < 32 := by omega
      simp [hl, hjl, hout]
    · have hin : 8 * left + (24 - 8 * j + i) < 32 := by omega
      simp [hjl, hin, ByteMem.byteOf, hi]
  · rw [if_neg hl, if_neg fun h => hl h.1]

/-- A byte of a string. -/
theorem getElem?_stringOf (ws : List Reg) (k : ℕ) :
    (Mmu.stringOf ws)[k]? = ws[k / 4]?.map fun w => ByteMem.byteOf w (k % 4) := by
  induction ws generalizing k with
  | nil => simp
  | cons w ws ih =>
    rw [Mmu.stringOf_cons]
    rcases Nat.lt_or_ge k 4 with hk | hk
    · rw [List.getElem?_append_left (by simpa using hk), ByteMem.getElem?_ofWord w hk,
        Nat.div_eq_of_lt hk, Nat.mod_eq_of_lt hk]
      rfl
    · rw [List.getElem?_append_right (by simpa using hk), ih, ByteMem.length_ofWord,
        show k / 4 = (k - 4) / 4 + 1 by omega, List.getElem?_cons_succ,
        show (k - 4) % 4 = k % 4 by omega]

/-- A word all of whose bytes are zero. -/
theorem eq_zero_of_byteOf {v : Reg} (h : ∀ j < 4, ByteMem.byteOf v j = 0) : v = 0 := by
  apply BitVec.eq_of_getLsbD_eq
  intro i hi
  have hbit := congrArg (·.getLsbD (i % 8)) (h (3 - i / 8) (by omega))
  have hplace : 24 - 8 * (3 - i / 8) + i % 8 = i := by omega
  have hlow : i % 8 < 8 := Nat.mod_lt _ (by decide)
  simpa [ByteMem.byteOf, hlow, hplace] using hbit

/-- A byte of what was read, zero past the count. -/
theorem getD_take_stringOf (ws : List Reg) {n k : ℕ} (hk : k / 4 < ws.length) :
    ((Mmu.stringOf ws).take n).getD k 0 = if k < n then ByteMem.byteOf ws[k / 4] (k % 4) else 0 := by
  rw [List.getD_eq_getElem?_getD, List.getElem?_take]
  split_ifs
  · rw [getElem?_stringOf, List.getElem?_eq_getElem hk]
    rfl
  · rfl

/-- **The bytes are in their places** where the last word is whole, or zero. -/
theorem bytes_placed_iff {ws : List Reg} {n : ℕ} (hlen : ws.length = wordsOf n) :
    (∀ k (hk : k / 4 < ws.length), ByteMem.byteOf (kept (n - 4 * (k / 4)) ws[k / 4]) (k % 4) =
      ((Mmu.stringOf ws).take n).getD k 0) ↔ n % 4 = 0 ∨ ws.getLast? = some 0 := by
  have hword : ws.length = (n + 3) / 4 := hlen
  constructor
  · intro h
    by_contra hne
    obtain ⟨hmod, hlast⟩ := not_or.mp hne
    have hq : n / 4 < ws.length := by omega
    -- every byte of the last word is one that is cleared or one that is to be
    have hzero : ws[n / 4] = 0 := eq_zero_of_byteOf fun j hj => by
      have hdiv : (4 * (n / 4) + j) / 4 = n / 4 := by omega
      have hrem : (4 * (n / 4) + j) % 4 = j := by omega
      have hat := h (4 * (n / 4) + j) (by omega)
      rw [getD_take_stringOf _ (by omega)] at hat
      simp only [hdiv, hrem] at hat
      rw [byteOf_kept _ _ hj] at hat
      by_cases hjn : 4 * (n / 4) + j < n
      · rw [if_pos (by omega), if_pos hjn] at hat
        exact hat.symm
      · rw [if_neg (by omega), if_neg hjn] at hat
        exact hat
    refine hlast ?_
    rw [List.getLast?_eq_getElem?, show ws.length - 1 = n / 4 by omega,
      List.getElem?_eq_getElem hq, hzero]
  · intro h k hk
    rw [getD_take_stringOf _ hk, byteOf_kept _ _ (Nat.mod_lt _ (by decide))]
    rcases h with h | h
    · have hin : k < n := by omega
      have hwhole : ¬ n - 4 * (k / 4) < 4 := by omega
      rw [if_neg fun h => hwhole h.1, if_pos hin]
    · by_cases hwhole : n - 4 * (k / 4) < 4
      · -- the last word, which is zero
        have hlast : ws[k / 4] = 0 := by
          rw [List.getLast?_eq_getElem?, show ws.length - 1 = k / 4 by omega,
            List.getElem?_eq_getElem hk] at h
          exact Option.some.inj h
        have hzero : ByteMem.byteOf 0 (k % 4) = 0 := by
          rw [ByteMem.byteOf]
          exact BitVec.extractLsb'_zero ..
        rw [hlast, hzero]
        split_ifs <;> rfl
      · rw [if_neg fun h => hwhole h.1, if_pos (by omega)]

/-! ### The instructions -/

namespace StringForm

theorem xerSTR_eq (i : BitVec 32) (s : Machine) :
    (s.cpu.user.xer &&& xerSTR).toNat = indexed.count i s := Block.toNat_offset 7 _

/-- What a word of `lswi` or `lswx` runs. -/
theorem decode_load (c : Config) {o : StringForm} {i : BitVec 32} (h : o.encodesLoad i = true)
    (s : Machine) : decode c i s = (lswLoop c (o.base i s) (o.count i s) (wordsOf (o.count i s)) 0
      (xRT i) >>= fun _ => incPC) s := by
  have hra : xRA0 i < 32 := field_lt 16 i
  have hrb : xRB i < 32 := field_lt 11 i
  rw [encodesLoad, Bool.and_eq_true, beq_iff_eq, beq_iff_eq] at h
  cases o with
  | immediate =>
    have hrow : Row.xPriv 597 .hypervisor (fun i => opLswi c (xRT i) (xRA0 i) (xNB i)) ∈ table c := by
      simp [table, multipleRows]
    rw [decode_of_mem hrow (by simp [Row.accepts, Row.xos, Row.xPriv, Form.xopc, h, loadXo])]
    show opLswi c (xRT i) (xRA0 i) (xNB i) s = _
    rw [opLswi, readGPROZ_bind s hra]
    rfl
  | indexed =>
    have hrow : Row.xPriv 533 .hypervisor (fun i => opLswx c (xRT i) (xRA0 i) (xRB i)) ∈ table c := by
      simp [table, multipleRows]
    rw [decode_of_mem hrow (by simp [Row.accepts, Row.xos, Row.xPriv, Form.xopc, h, loadXo])]
    show opLswx c (xRT i) (xRA0 i) (xRB i) s = _
    rw [opLswx, readGPROZ_bind s hra, readGPR_bind s hrb, readXERSTR, Prog.gets_bind_apply,
      xerSTR_eq i]
    rfl

/-- What a string load that completes has done. -/
theorem load_ok {c : Config} {o : StringForm} {i : BitVec 32} (h : o.encodesLoad i = true)
    {s t : Machine} (hrun : decode c i s = .ok () t) : ∃ ws : List Reg,
      ws.length = wordsOf (o.count i s) ∧
      Mmu.Reads c .word s.cpu.isPrivileged (o.base i s) s.mem ws t.mem ∧
      (∀ j (hj : j < ws.length),
        t.cpu.user.gprs (stringReg (xRT i) j) = kept (o.count i s - 4 * j) ws[j]) ∧
      (∀ r, (∀ j < ws.length, r ≠ stringReg (xRT i) j) →
        t.cpu.user.gprs r = s.cpu.user.gprs r) ∧
      t.cpu = { s.cpu with
        user := { s.cpu.user with gprs := t.cpu.user.gprs, pc := s.cpu.user.pc + 4 } } := by
  have hrt : xRT i < 32 := field_lt 21 i
  have hwords : wordsOf (o.count i s) ≤ 32 := by
    have := o.count_le i s
    rw [wordsOf]
    omega
  rw [decode_load c h] at hrun
  obtain ⟨_, u, hloop, hinc⟩ := Prog.bind_eq_ok hrun
  cases hinc
  obtain ⟨ws, hlen, hreads, hplaced, hothers, hcpu⟩ := lswLoop_ok _ hwords hrt hloop
  rw [BitVec.add_zero] at hreads
  refine ⟨ws, hlen, hreads, fun j hj => ?_, ?_, ?_⟩
  · rw [← Nat.zero_add (4 * j)]
    exact hplaced j hj
  · rw [hlen]
    exact hothers
  · show { u.cpu with user := { u.cpu.user with pc := u.cpu.user.pc + 4 } } = _
    rw [hcpu]
    rfl

/-- The bytes that it has read, where the string is in RAM. -/
theorem load_bytes {c : Config} {priv : Bool} {base : VA} {s t : Mem} {ws : List Reg} {n : ℕ}
    (hlen : ws.length = wordsOf n) (hreads : Mmu.Reads c .word priv base s ws t)
    (hram : Mmu.StringInRam c priv base s ws)
    (hpage : c.build.alignment = .any → Mmu.StringInPages base ws.length) :
    Mmu.ReadsBytes c priv base s ((Mmu.stringOf ws).take n) t := by
  have hceil : wordsOf n = (n + 3) / 4 := rfl
  exact hreads.bytes hram hpage (by omega) (by omega)

/-- **A string load that completes** reads the words of the string, at
addresses in it alone; in RAM it makes the translations that loads of the
string's bytes make, and has those bytes. Each of them is in its place if
and only if the count is a multiple of 4 or the last word is zero. -/
theorem decoded_string_load (c : Config) (o : StringForm) (i : BitVec 32)
    (h : o.encodesLoad i = true) {s t : Machine} (hrun : decode c i s = .ok () t) :
    ∃ ws : List Reg, ws.length = wordsOf (o.count i s) ∧
      Mmu.Reads c .word s.cpu.isPrivileged (o.base i s) s.mem ws t.mem ∧
      (Mmu.StringInRam c s.cpu.isPrivileged (o.base i s) s.mem ws →
        (c.build.alignment = .any → Mmu.StringInPages (o.base i s) ws.length) →
        Mmu.ReadsBytes c s.cpu.isPrivileged (o.base i s) s.mem
          ((Mmu.stringOf ws).take (o.count i s)) t.mem) ∧
      (Placed (xRT i) ((Mmu.stringOf ws).take (o.count i s)) s t ↔
        o.count i s % 4 = 0 ∨ ws.getLast? = some 0) := by
  obtain ⟨ws, hlen, hreads, hreg, hothers, hcpu⟩ := load_ok h hrun
  refine ⟨ws, hlen, hreads, fun hram hpage => load_bytes hlen hreads hram hpage, ?_⟩
  generalize o.count i s = n at hlen hreg ⊢
  have hceil : wordsOf n = (n + 3) / 4 := rfl
  have htake : ((Mmu.stringOf ws).take n).length = n := by
    rw [List.length_take, Mmu.length_stringOf]
    omega
  rw [← bytes_placed_iff hlen]
  constructor
  · intro hp k hk
    rw [← hreg _ hk]
    exact hp.bytes k (by rw [htake]; omega)
  · intro hbytes
    refine
      { bytes := ?_
        others := ?_
        rest := hcpu }
    · intro k hk
      rw [htake] at hk
      rw [hreg _ (by omega)]
      exact hbytes k (by omega)
    · rw [htake, ← hlen]
      exact hothers

/-- A machine whose register 4 leads to four bytes of RAM. -/
def sample (bs : List (BitVec 8)) : Machine :=
  (Machine.holding 0x3000 0).devices false (.program 0x10003000 bs [])

/-- `lswi r5,r4,4`. -/
theorem decoded_string_load_four : ∃ t, decode (.quiet .default) 0x7ca424aa
    (sample [1, 2, 3, 4]) = .ok () t ∧ ∃ ws, Placed 5 ((Mmu.stringOf ws).take 4)
      (sample [1, 2, 3, 4]) t := by
  have hrun : (decode (.quiet .default) 0x7ca424aa (sample [1, 2, 3, 4])).test
      (fun _ _ => true) := by decide +kernel
  obtain ⟨_, t, ht, -⟩ := Out.of_test hrun
  obtain ⟨ws, -, -, -, hiff⟩ := decoded_string_load (.quiet .default) immediate 0x7ca424aa
    (by decide) ht
  exact ⟨t, ht, ws, hiff.mpr (.inl (by decide))⟩

/-- **The wrong end of the last word is cleared:** `lswi r5,r4,1` loses the
byte, and leaves the three behind it. -/
theorem string_load_one : ∃ t, decode (.quiet .default) 0x7ca40caa
    (sample [0xaa, 0xbb, 0xcc, 0xdd]) = .ok () t ∧
      Mmu.ReadsBytes (.quiet .default) true 0x3000 (sample [0xaa, 0xbb, 0xcc, 0xdd]).mem [0xaa]
        t.mem ∧
      t.gpr 5 = 0x00bbccdd ∧ ¬ Placed 5 [0xaa] (sample [0xaa, 0xbb, 0xcc, 0xdd]) t := by
  have hrun : (decode (.quiet .default) 0x7ca40caa (sample [0xaa, 0xbb, 0xcc, 0xdd])).test
      (fun _ t => t.gpr 5 == 0x00bbccdd) := by decide +kernel
  have hword : (Mmu.load (.quiet .default) .word 0x3000 true
      (sample [0xaa, 0xbb, 0xcc, 0xdd]).mem).test
        (fun res _ => decide (res = .ok 0xaabbccdd)) := by decide +kernel
  have hdirect : (Mmu.translateAddr (.quiet .default) 0x3000 false true true
      (sample [0xaa, 0xbb, 0xcc, 0xdd]).mem).test
        (fun res _ => res.toOption.all Mmu.isDirect) := by decide +kernel
  obtain ⟨_, t, ht, hgpr⟩ := Out.of_test hrun
  rw [beq_iff_eq] at hgpr
  refine ⟨t, ht, ?_, hgpr, fun hp => ?_⟩
  · obtain ⟨ws, hlen, hreads, -⟩ := load_ok (o := immediate) (by decide) ht
    have hone : ws.length = 1 := hlen.trans (by decide)
    obtain ⟨w, rfl⟩ := List.length_eq_one_iff.mp hone
    have hreads' : Mmu.Reads (.quiet .default) .word true 0x3000
        (sample [0xaa, 0xbb, 0xcc, 0xdd]).mem [w] t.mem := hreads
    have hw : w = 0xaabbccdd := by
      cases hreads' with
      | cons head tail =>
        rw [head, Out.test, decide_eq_true_eq] at hword
        exact Except.ok.inj hword
    have hbytes := load_bytes (n := 1) rfl hreads' ?_ (fun hb => by cases hb)
    · rw [hw] at hbytes
      exact hbytes
    · intro j hj u hu g m hg
      obtain rfl : j = 0 := by simpa using hj
      cases hu
      rw [show (0x3000 : VA) + BitVec.ofNat 32 (4 * 0) = 0x3000 by decide] at hg
      rw [hg] at hdirect
      exact hdirect
  · have hbyte := hp.bytes 0 (by decide)
    have hzero : ByteMem.byteOf (t.gpr 5) 0 = 0xaa := hbyte
    rw [hgpr] at hzero
    exact absurd hzero (by decide)

end StringForm

/-! ## Stores -/

section

variable {c : Config}

/-- The inner loop of a string store that goes on to its end. -/
theorem stswBytes_ok {addr : VA} {v : Reg} (bytes : ℕ) : ∀ {i : ℕ} {s t : Machine},
    stswBytes c addr v bytes i s = .ok () t →
      Mmu.Writes c .word 1 s.cpu.isPrivileged (addr + BitVec.ofNat 32 i) (List.replicate bytes v)
        s.mem t.mem ∧ t.cpu = s.cpu := by
  induction bytes with
  | zero =>
    intro i s t h
    cases h
    exact ⟨.nil, rfl⟩
  | succ bytes ih =>
    intro i s t h
    rw [stswBytes] at h
    obtain ⟨m, hstore, h⟩ := of_store_checked c .word _ h
    obtain ⟨hw, hcpu⟩ := ih h
    have haddr : addr + BitVec.ofNat 32 i + BitVec.ofNat 32 1 = addr + BitVec.ofNat 32 (i + 1) := by
      rw [BitVec.add_assoc, BitVec.ofNat_add_ofNat]
    exact ⟨.cons hstore (haddr ▸ hw), hcpu⟩

/-- A register that is written with what it holds. -/
theorem writeGPR_same {reg v : Reg} (hr : reg < 32) {s : Machine} (hv : v = s.gpr reg) :
    writeGPR reg v s = .ok () s := by
  rw [hv, writeGPR, Prog.assert_of_true (decide_eq_true hr)]
  have hsame : Function.update s.cpu.user.gprs (Fin.ofNat 32 reg.toNat) (s.gpr reg) =
      s.cpu.user.gprs := Function.update_eq_self _ _
  show Out.ok () (s.setUser { s.cpu.user with gprs := _ }) = _
  rw [hsame]
  rfl

/-- The words of the registers from one on. -/
def regWords (r : Reg) (n : ℕ) (s : Machine) : List Reg :=
  (List.range n).map fun j => s.cpu.user.gprs (stringReg r j)

theorem regWords_succ {r : Reg} (hr : r < 32) (n : ℕ) (s : Machine) :
    regWords r (n + 1) s = s.gpr r :: regWords ((r + 1) &&& 0x1f) n s := by
  rw [regWords, regWords, List.range_succ_eq_map, List.map_cons, List.map_map]
  refine congrArg₂ List.cons rfl (List.map_congr_left fun j _ => ?_)
  rw [stringReg_next hr]
  rfl

/-- **The loop of a string store** that goes on to its end, with `left` bytes
to go: it stores the whole words, then a word for each byte that is left. -/
theorem stswLoop_ok {base : VA} (words : ℕ) : ∀ {n left : ℕ} {reg : Reg} {s t : Machine},
    words = wordsOf left → reg < 32 → stswLoop c base (n + left) words n reg s = .ok () t →
      ∃ m, Mmu.Writes c .word 4 s.cpu.isPrivileged (base + BitVec.ofNat 32 n)
          (regWords reg (left / 4) s) s.mem m ∧
        Mmu.Writes c .word 1 s.cpu.isPrivileged (base + BitVec.ofNat 32 (n + 4 * (left / 4)))
          (List.replicate (left % 4) (s.cpu.user.gprs (stringReg reg (left / 4)))) m t.mem ∧
        t.cpu = s.cpu := by
  induction words with
  | zero =>
    intro n left reg s t hw _ h
    cases h
    have hleft : left = 0 := by
      rw [wordsOf] at hw
      omega
    subst hleft
    exact ⟨s.mem, .nil, .nil, rfl⟩
  | succ words ih =>
    intro n left reg s t hw hreg h
    rw [stswLoop, readGPR_bind s hreg, show n + left - n = left by omega] at h
    rw [wordsOf] at hw
    by_cases hl : left < 4
    · -- the bytes that are left
      rw [if_pos hl] at h
      obtain ⟨_, u, htail, h⟩ := Prog.bind_eq_ok h
      obtain ⟨hwrites, hcpu⟩ := stswBytes_ok left htail
      have hgpr : s.gpr reg = u.gpr reg := by rw [Machine.gpr, Machine.gpr, hcpu]
      dsimp only at h
      rw [Prog.bind_of_ok (writeGPR_same hreg hgpr)] at h
      obtain rfl : words = 0 := by omega
      cases h
      rw [BitVec.add_zero] at hwrites
      rw [Nat.div_eq_of_lt hl, Nat.mod_eq_of_lt hl, Nat.mul_zero, Nat.add_zero]
      exact ⟨s.mem, .nil, hwrites, hcpu⟩
    · -- a whole word
      rw [if_neg hl] at h
      obtain ⟨m, hstore, h⟩ := of_store_checked c .word _ h
      have hgpr : s.gpr reg = (s.passed false (base + BitVec.ofNat 32 n) m).gpr reg := rfl
      rw [Prog.bind_of_ok (writeGPR_same hreg hgpr),
        show n + left = n + 4 + (left - 4) by omega] at h
      have hwords : words = wordsOf (left - 4) := by
        rw [wordsOf]
        omega
      obtain ⟨m', hwhole, htail, hcpu⟩ := ih hwords (nextReg_lt reg) h
      have haddr : base + BitVec.ofNat 32 n + BitVec.ofNat 32 4 = base + BitVec.ofNat 32 (n + 4) := by
        rw [BitVec.add_assoc, BitVec.ofNat_add_ofNat]
      have hdiv : left / 4 = (left - 4) / 4 + 1 := by omega
      refine ⟨m', ?_, ?_, hcpu⟩
      · rw [hdiv, regWords_succ hreg]
        exact .cons hstore (haddr ▸ hwhole)
      · rw [show n + 4 * (left / 4) = n + 4 + 4 * ((left - 4) / 4) by omega,
          show left % 4 = (left - 4) % 4 by omega, hdiv, ← stringReg_next hreg]
        exact htail

end

/-! ### The instructions -/

/-- The bytes of the registers, as a string of `n`. -/
def regString (r : Reg) (n : ℕ) (s : Machine) : List (BitVec 8) :=
  (Mmu.stringOf (regWords r (wordsOf n) s)).take n

theorem length_regString (r : Reg) (n : ℕ) (s : Machine) : (regString r n s).length = n := by
  rw [regString, List.length_take, Mmu.length_stringOf, regWords, List.length_map, List.length_range,
    wordsOf]
  omega

/-- Whole registers, and the first bytes of one. -/
theorem regString_eq (r : Reg) (n : ℕ) (s : Machine) : regString r n s =
    Mmu.stringOf (regWords r (n / 4) s) ++
      (ByteMem.ofWord (s.cpu.user.gprs (stringReg r (n / 4)))).take (n % 4) := by
  have hwhole : (Mmu.stringOf (regWords r (n / 4) s)).length = 4 * (n / 4) := by
    rw [Mmu.length_stringOf, regWords, List.length_map, List.length_range]
  rcases Nat.eq_zero_or_pos (n % 4) with hz | hpos
  · rw [regString, wordsOf, show (n + 3) / 4 = n / 4 by omega, hz, List.take_zero, List.append_nil,
      List.take_of_length_le (by omega)]
  · have hlast : regWords r (n / 4 + 1) s =
        regWords r (n / 4) s ++ [s.cpu.user.gprs (stringReg r (n / 4))] := by
      rw [regWords, List.range_succ, List.map_append]
      rfl
    rw [regString, wordsOf, show (n + 3) / 4 = n / 4 + 1 by omega, hlast, Mmu.stringOf,
      List.flatMap_append, ← Mmu.stringOf, List.take_append, List.take_of_length_le (by omega), hwhole]
    simp [show n - 4 * (n / 4) = n % 4 by omega]

namespace StringForm

/-- The extended opcodes of `stswi` and `stswx`. -/
def storeXo : StringForm → ℕ
  | immediate => 725
  | indexed => 661

/-- Whether a word is one of the store's. -/
def encodesStore (o : StringForm) (i : BitVec 32) : Bool :=
  (getOpcode i).toNat == 31 && (xXOPC i).toNat == o.storeXo

/-- What a word of `stswi` or `stswx` runs. -/
theorem decode_store (c : Config) {o : StringForm} {i : BitVec 32} (h : o.encodesStore i = true)
    (s : Machine) : decode c i s = (stswLoop c (o.base i s) (o.count i s) (wordsOf (o.count i s)) 0
      (xRS i) >>= fun _ => incPC) s := by
  have hra : xRA0 i < 32 := field_lt 16 i
  have hrb : xRB i < 32 := field_lt 11 i
  rw [encodesStore, Bool.and_eq_true, beq_iff_eq, beq_iff_eq] at h
  cases o with
  | immediate =>
    have hrow : Row.xPriv 725 .hypervisor (fun i => opStswi c (xRS i) (xRA0 i) (xNB i)) ∈
        table c := by
      simp [table, multipleRows]
    rw [decode_of_mem hrow (by simp [Row.accepts, Row.xos, Row.xPriv, Form.xopc, h, storeXo])]
    show opStswi c (xRS i) (xRA0 i) (xNB i) s = _
    rw [opStswi, readGPROZ_bind s hra]
    rfl
  | indexed =>
    have hrow : Row.xPriv 661 .hypervisor (fun i => opStswx c (xRS i) (xRA0 i) (xRB i)) ∈
        table c := by
      simp [table, multipleRows]
    rw [decode_of_mem hrow (by simp [Row.accepts, Row.xos, Row.xPriv, Form.xopc, h, storeXo])]
    show opStswx c (xRS i) (xRA0 i) (xRB i) s = _
    rw [opStswx, readGPROZ_bind s hra, readGPR_bind s hrb, readXERSTR, Prog.gets_bind_apply,
      xerSTR_eq i]
    rfl

variable (c : Config) (o : StringForm) (i : BitVec 32)

/-- The string of a store. -/
def bytes (s : Machine) : List (BitVec 8) := regString (xRS i) (o.count i s) s

/-- **What a string store is to do:** store the bytes of the string, and
change no register but PC. -/
structure Stored (s t : Machine) : Prop where
  bytes : Mmu.WritesBytes c s.cpu.isPrivileged (o.base i s) (o.bytes i s) s.mem t.mem
  rest : t.cpu = { s.cpu with user := { s.cpu.user with pc := s.cpu.user.pc + 4 } }

/-- No word that a string store writes crosses the end of a page. -/
def StoresInPages (s : Machine) : Prop :=
  Mmu.StringInPages (o.base i s) (o.count i s / 4) ∧
    (o.count i s % 4 ≠ 0 → (o.base i s + BitVec.ofNat 32 (4 * (o.count i s / 4))).toNat % 4096 +
      o.count i s % 4 + 3 ≤ 4096)

/-- The last register's word, stored at each byte of the tail, fits what is
in memory: `m` is the state when the whole words are stored. -/
def Fits (s : Machine) (m : Mem) : Prop :=
  ∃ h u, Mmu.translateAddr c (o.base i s + BitVec.ofNat 32 (4 * (o.count i s / 4))) false false
      s.cpu.isPrivileged m = .ok (.ok h) u ∧
    Mmu.TailFits u.sys.mem h (s.cpu.user.gprs (stringReg (xRS i) (o.count i s / 4)))
      (o.count i s % 4)

variable {c o i}

/-- What a string store that completes has done. -/
theorem store_ok (h : o.encodesStore i = true) {s t : Machine} (hrun : decode c i s = .ok () t) :
    ∃ m, Mmu.Writes c .word 4 s.cpu.isPrivileged (o.base i s)
        (regWords (xRS i) (o.count i s / 4) s) s.mem m ∧
      Mmu.Writes c .word 1 s.cpu.isPrivileged
        (o.base i s + BitVec.ofNat 32 (4 * (o.count i s / 4)))
        (List.replicate (o.count i s % 4) (s.cpu.user.gprs (stringReg (xRS i) (o.count i s / 4))))
        m t.mem ∧
      t.cpu = { s.cpu with user := { s.cpu.user with pc := s.cpu.user.pc + 4 } } := by
  have hrs : xRS i < 32 := field_lt 21 i
  rw [decode_store c h] at hrun
  obtain ⟨_, u, hloop, hinc⟩ := Prog.bind_eq_ok hrun
  cases hinc
  have hloop' : stswLoop c (o.base i s) (0 + o.count i s) (wordsOf (o.count i s)) 0 (xRS i) s =
      .ok () u := by
    rw [Nat.zero_add]
    exact hloop
  obtain ⟨m, hwhole, htail, hcpu⟩ := stswLoop_ok _ rfl hrs hloop'
  rw [BitVec.add_zero] at hwhole
  rw [Nat.zero_add] at htail
  refine ⟨m, hwhole, htail, ?_⟩
  show { u.cpu with user := { u.cpu.user with pc := u.cpu.user.pc + 4 } } = _
  rw [hcpu]

/-- **A string store that completes,** in RAM, stores the whole words of the
string. It does what it is to do if and only if nothing is left, or what it
writes for what is left fits what is in memory; then loads of the bytes of
the string give them back. -/
theorem decoded_string_store (c : Config) (o : StringForm) (i : BitVec 32)
    (h : o.encodesStore i = true) {s t : Machine} (hrun : decode c i s = .ok () t)
    (hram : Mmu.BytesInRam c s.cpu.isPrivileged (o.base i s) s.mem (o.bytes i s))
    (hpage : c.build.alignment = .any → o.StoresInPages i s) :
    ∃ m, Mmu.WritesBytes c s.cpu.isPrivileged (o.base i s)
        ((o.bytes i s).take (4 * (o.count i s / 4))) s.mem m ∧
      (o.Stored c i s t ↔ o.count i s % 4 = 0 ∨ o.Fits c i s m) ∧
      (o.Stored c i s t →
        Mmu.Undisturbed c s.cpu.isPrivileged (o.base i s) s.mem (o.bytes i s) →
        ∀ bs u, bs.length = o.count i s →
          Mmu.ReadsBytes c s.cpu.isPrivileged (o.base i s) t.mem bs u → bs = o.bytes i s) := by
  obtain ⟨m, hwords, htail, hcpu⟩ := store_ok h hrun
  obtain ⟨n, hn⟩ : ∃ n, n = o.count i s := ⟨_, rfl⟩
  obtain ⟨whole, hwhole⟩ : ∃ whole, whole = Mmu.stringOf (regWords (xRS i) (n / 4) s) := ⟨_, rfl⟩
  obtain ⟨v, hv⟩ : ∃ v, v = s.cpu.user.gprs (stringReg (xRS i) (n / 4)) := ⟨_, rfl⟩
  have hlen : whole.length = 4 * (n / 4) := by
    rw [hwhole, Mmu.length_stringOf, regWords, List.length_map, List.length_range]
  have hbytes : o.bytes i s = whole ++ (ByteMem.ofWord v).take (n % 4) := by
    rw [bytes, ← hn, regString_eq, hwhole, hv]
  have hcount : (o.bytes i s).length = n := by rw [bytes, length_regString, hn]
  rw [← hn, ← hv] at htail
  rw [← hn] at hwords
  rw [hbytes] at hram
  have hstored : Mmu.WritesBytes c s.cpu.isPrivileged (o.base i s) whole s.mem m := by
    rw [hwhole]
    refine hwords.bytes (hwhole ▸ hram.front) fun hb => ?_
    rw [regWords, List.length_map, List.length_range, hn]
    exact (hpage hb).1
  have hiff : o.Stored c i s t ↔ Mmu.WritesBytes c s.cpu.isPrivileged
      (o.base i s + BitVec.ofNat 32 (4 * (n / 4))) ((ByteMem.ofWord v).take (n % 4)) m t.mem := by
    rw [← hlen, ← Mmu.writesBytes_append_iff hstored, ← hbytes]
    exact ⟨fun hs => hs.bytes, fun hb => ⟨hb, hcpu⟩⟩
  refine ⟨m, ?_, ?_, ?_⟩
  · rw [← hn, hbytes, ← hlen, List.take_left]
    exact hstored
  · rw [hiff, ← hn]
    rcases Nat.eq_zero_or_pos (n % 4) with hz | hpos
    · rw [hz, List.replicate_zero] at htail
      have hdone : m = t.mem := by
        cases htail
        rfl
      rw [hz, List.take_zero, hdone]
      exact ⟨fun _ => .inl rfl, fun _ => .nil⟩
    · obtain ⟨r, hr⟩ : ∃ r, n % 4 = r + 1 := ⟨n % 4 - 1, by omega⟩
      rw [hr] at htail ⊢
      have hfirst := hram.rest hstored
      have hin : (o.base i s + BitVec.ofNat 32 (4 * (n / 4))).toNat % 4096 + r + 4 ≤ 4096 := by
        by_cases hb : c.build.alignment = .any
        · have := (hpage hb).2
          rw [← hn] at this
          have := this (by omega)
          omega
        · exact Mmu.inPage_of_writes hb r htail
      rw [Mmu.writes_tail_iff (by omega) htail ?_ hin, Fits, ← hn, ← hv, hr]
      · constructor
        · exact .inr
        · rintro (hno | hfits)
          · omega
          · exact hfits
      · intro g u hg
        refine hfirst 0 ?_ m .nil g u ?_
        · rw [List.length_take, ByteMem.length_ofWord]
          omega
        · rw [hlen, BitVec.add_zero]
          exact hg
  · intro hs hkeep bs u hbs hr
    rw [← hbytes] at hram
    have hholds := Mmu.holds_of_writes (by rw [hcount, hn]; have := o.count_le i s; omega) hs.bytes
      hram hkeep
    exact hholds.reads hr (by rw [hbs, hcount, hn])

/-- A machine that stores register 5 at the address in register 4. -/
def storing (v : Reg) : Machine := .holding 0x3000 v

/-- `stswi r5,r4,4`, and the string read back. -/
theorem decoded_string_store_four : ∃ t bs u, decode (.quiet .default) 0x7ca425aa
    (storing 0xaabbccdd) = .ok () t ∧ immediate.Stored (.quiet .default) 0x7ca425aa
      (storing 0xaabbccdd) t ∧
    Mmu.ReadsBytes (.quiet .default) true 0x3000 t.mem bs u ∧
      bs = immediate.bytes 0x7ca425aa (storing 0xaabbccdd) := by
  have hrun : (decode (.quiet .default) 0x7ca425aa (storing 0xaabbccdd)).test
      (fun _ t => (Mmu.translateAddr (.quiet .default) 0x3000 false true true t.mem).test
        (fun res _ => decide (res = .ok 0x10003000)) &&
          (Mmu.load (.quiet .default) .word 0x3000 true t.mem).test fun res _ =>
            decide (res = .ok 0xaabbccdd)) := by decide +kernel
  have htr : (Mmu.translateAddr (.quiet .default) 0x3000 false false true
      (storing 0xaabbccdd).mem).test (fun res _ => decide (res = .ok 0x10003000)) := by
    decide +kernel
  obtain ⟨_, t, ht, hback⟩ := Out.of_test hrun
  obtain ⟨hlook, hload⟩ := Bool.and_eq_true_iff.mp hback
  obtain ⟨_, _, hlook, hat⟩ := Out.of_test hlook
  obtain ⟨_, v, hload, hword⟩ := Out.of_test hload
  obtain ⟨_, u, hu, hres⟩ := Out.of_test htr
  rw [decide_eq_true_eq] at hat hword hres
  subst hat hword hres
  obtain ⟨m, -, hiff, hagain⟩ := decoded_string_store (.quiet .default) immediate 0x7ca425aa
    (by decide) ht (Mmu.bytesInRam_of_page hu (by decide) (by decide)) nofun
  have hstored := hiff.mpr (.inl (by decide))
  have hreads := Mmu.readsBytes_of_load (r := 4) (fun h w hw => by
    cases hlook.symm.trans hw
    decide) (by decide) (by decide) le_rfl hload
  refine ⟨t, _, v, ht, hstored, hreads, hagain hstored ?_ _ v (by decide) hreads⟩
  exact Mmu.undisturbed_of_page hu (by decide) (by decide)

/-- **A word is stored for a byte:** `stswi r5,r4,1` writes the three bytes
behind the one that it is to write. -/
theorem string_store_one : ∃ t, decode (.quiet .default) 0x7ca40daa
    (storing 0xaabbccdd) = .ok () t ∧ t.mem.sys.mem 0x10003001 = 0xbb ∧
      ¬ immediate.Stored (.quiet .default) 0x7ca40daa (storing 0xaabbccdd) t := by
  have hrun : (decode (.quiet .default) 0x7ca40daa (storing 0xaabbccdd)).test
      (fun _ t => decide (t.mem.sys.mem 0x10003001 = 0xbb)) := by decide +kernel
  have hbyte : (Mmu.store (.quiet .default) .byte 0x3000 0xaa true (storing 0xaabbccdd).mem).test
      (fun _ t => decide (t.sys.mem 0x10003001 = 0)) := by decide +kernel
  obtain ⟨_, t, ht, hbb⟩ := Out.of_test hrun
  rw [decide_eq_true_eq] at hbb
  refine ⟨t, ht, hbb, fun hs => ?_⟩
  have hbytes : Mmu.Writes (.quiet .default) .byte 1 true 0x3000 [0xaa] (storing 0xaabbccdd).mem
      t.mem := hs.bytes
  cases hbytes with
  | cons head tail =>
    cases tail
    rw [head, Out.test, decide_eq_true_eq, hbb] at hbyte
    exact absurd hbyte (by decide)

end StringForm

end MrIss
