import MrIss.Interp.Integer
/-!
# Add and subtract

The instructions that add, with what each adds: two words, of which the
first may be complemented, and a carry. `AddOp.decoded` is what a word of
theirs does.
-/

namespace MrIss

open EarlyReturn

/-! ## The adder -/

section

variable (a b : Reg) (c : Bool)

/-- A carry as the macro is given it. -/
def carryWord : Reg := if c then 1 else 0

theorem toNat_carryWord : (carryWord c).toNat = c.toNat := by cases c <;> rfl

theorem addOvCoCi_val : (addOvCoCi a b (carryWord c)).val = Word.sum a b c := by
  apply BitVec.eq_of_toNat_eq
  have := a.isLt
  have := b.isLt
  have := c.toNat_le
  simp only [addOvCoCi, Word.sum, BitVec.toNat_setWidth, BitVec.toNat_add, BitVec.toNat_ofNat,
    toNat_carryWord]
  omega

/-- The carry is the bit above the word. -/
theorem addOvCoCi_co : (addOvCoCi a b (carryWord c)).co =
    decide (2 ^ 32 ≤ a.toNat + b.toNat + c.toNat) := by
  have := a.isLt
  have := b.isLt
  have := c.toNat_le
  rw [addOvCoCi, show (0x100000000#64 : BitVec 64) = BitVec.twoPow 64 32 from rfl]
  refine (Word.and_twoPow_bne _ (by decide : 32 < 64)).trans ?_
  rw [BitVec.getLsbD, ← Word.testBit_carry (Word.sum_lt a b c)]
  congr 1
  simp only [BitVec.toNat_setWidth, BitVec.toNat_add, toNat_carryWord]
  omega

/-- **The overflow is that of the three.** -/
theorem addOvCoCi_ov : (addOvCoCi a b (carryWord c)).ov =
    decide (¬ (-2 ^ 31 ≤ a.toInt + b.toInt + (c.toNat : ℤ) ∧
      a.toInt + b.toInt + c.toNat < 2 ^ 31)) := by
  have hsign : ∀ x : Reg, (x &&& 0x80000000#32 != 0) = x.msb := fun x => by
    rw [BitVec.msb_eq_getLsbD_last]
    exact Word.and_twoPow_bne x (by decide : 31 < 32)
  have hov : (addOvCoCi a b (carryWord c)).ov =
      ((!a.msb && !b.msb && (Word.sum a b c).msb) || (a.msb && b.msb && !(Word.sum a b c).msb)) := by
    rw [← addOvCoCi_val]
    simp only [addOvCoCi, hsign]
  rw [hov, Bool.eq_iff_iff, decide_eq_true_iff]
  refine Iff.trans ?_ (Word.overflow_iff (w := 31) a b c)
  cases a.msb <;> cases b.msb <;> cases (Word.sum a b c).msb <;> decide

/-- A carry may be added in the second word's place. -/
theorem addOvCoCi_swap : addOvCoCi a (carryWord c) 0 = addOvCoCi a 0 (carryWord c) := by
  have hsum : a.setWidth 64 + (carryWord c).setWidth 64 + (0 : Reg).setWidth 64 =
      a.setWidth 64 + (0 : Reg).setWidth 64 + (carryWord c).setWidth 64 := by
    rw [BitVec.add_assoc, BitVec.add_comm ((carryWord c).setWidth 64), ← BitVec.add_assoc]
  simp only [addOvCoCi, hsum]
  cases c <;> rfl

/-- What a sum gives: the word; the carry out of it; whether the number that
it stands for is out of range. -/
def summed (ca oe rc : Bool) (e : ℤ) : Given where
  val := BitVec.ofNat 32 (a.toNat + b.toNat + c.toNat)
  ca := if ca then some (decide (2 ^ 32 ≤ a.toNat + b.toNat + c.toNat)) else none
  ov := if oe then some (decide (¬ (-2 ^ 31 ≤ e ∧ e < 2 ^ 31))) else none
  rc := rc

/-- **The end of a function that adds,** of the numbers that are added. -/
theorem sumTo_addOvCoCi {rt : Reg} (hrt : rt < 32) (ca : Bool) (rc oe : Reg) (s : Machine) {e : ℤ}
    (he : e = a.toInt + b.toInt + c.toNat) :
    ∃ t, sumTo ca rt rc oe (addOvCoCi a b (carryWord c)) s = .ok () t ∧
      Leaves rt (summed a b c ca (oe != 0) (rc != 0) e) s t := by
  have h := sumTo_leaves hrt ca rc oe (addOvCoCi a b (carryWord c)) s
  rw [addOvCoCi_val, addOvCoCi_co, addOvCoCi_ov, ← he] at h
  exact h

/-- The end of a function that adds without a carry or an overflow. -/
theorem resultTo_add {rt : Reg} (hrt : rt < 32) (e : ℤ) (s : Machine) :
    ∃ t, resultTo rt 0 (a + b) s = .ok () t ∧ Leaves rt (summed a b false false false false e) s t := by
  have hval : BitVec.ofNat 32 (a.toNat + b.toNat + false.toNat) = a + b := by
    apply BitVec.eq_of_toNat_eq
    simp [BitVec.toNat_add]
  have h := resultTo_leaves hrt 0 (a + b) s
  rw [← hval] at h ⊢
  exact h

end

/-! ## The instructions -/

/-- The instructions that add. -/
inductive AddOp where
  | add
  | addc
  | adde
  | addi
  | addis
  | addic
  | addicRc
  | addme
  | addze
  | subf
  | subfc
  | subfe
  | subfic
  | subfme
  | subfze
  | neg
  deriving DecidableEq, Repr

namespace AddOp

/-- The opcode, and the extended opcode of an XO-form instruction. -/
def opcode : AddOp → ℕ × Option ℕ
  | add => (31, some 266)
  | addc => (31, some 10)
  | adde => (31, some 138)
  | addi => (14, none)
  | addis => (15, none)
  | addic => (12, none)
  | addicRc => (13, none)
  | addme => (31, some 234)
  | addze => (31, some 202)
  | subf => (31, some 40)
  | subfc => (31, some 8)
  | subfe => (31, some 136)
  | subfic => (8, none)
  | subfme => (31, some 232)
  | subfze => (31, some 200)
  | neg => (31, some 104)

/-- Whether a word is one of the instruction's: an XO-form instruction has
nine bits of extended opcode, above them OE. -/
def encodes (o : AddOp) (i : BitVec 32) : Bool :=
  (getOpcode i).toNat == o.opcode.1 && o.opcode.2.all fun x => (xXOPC i).toNat % 512 == x

/-- Whether the instruction has OE and Rc. -/
def isXO (o : AddOp) : Bool := o.opcode.2.isSome

/-- What is added: two words and a carry. -/
def addends (o : AddOp) (i : BitVec 32) (s : Machine) : Reg × Reg × Bool :=
  let a := s.gpr (xoRA i)
  let b := s.gpr (xoRB i)
  let a0 := if dRA0 i = 0 then 0 else s.gpr (dRA0 i)
  match o with
  | add | addc => (a, b, false)
  | adde => (a, b, s.ca)
  | addi => (a0, dSI i, false)
  | addis => (a0, dSI i <<< 16, false)
  | addic | addicRc => (a, dSI i, false)
  | addme => (a, -1, s.ca)
  | addze => (a, 0, s.ca)
  | subf | subfc => (~~~a, b, true)
  | subfe => (~~~a, b, s.ca)
  | subfic => (~~~a, dSI i, true)
  | subfme => (~~~a, -1, s.ca)
  | subfze => (~~~a, 0, s.ca)
  | neg => (~~~a, 0, true)

/-- The number that the result stands for, of signed operands. -/
def exact (o : AddOp) (i : BitVec 32) (s : Machine) : ℤ :=
  let a := (s.gpr (xoRA i)).toInt
  let b := (s.gpr (xoRB i)).toInt
  let a0 := if dRA0 i = 0 then 0 else (s.gpr (dRA0 i)).toInt
  let ca : ℤ := s.ca.toNat
  match o with
  | add | addc => a + b
  | adde => a + b + ca
  | addi => a0 + (dSI i).toInt
  | addis => a0 + (dSI i <<< 16).toInt
  | addic | addicRc => a + (dSI i).toInt
  | addme => a + ca - 1
  | addze => a + ca
  | subf | subfc => b - a
  | subfe => b - a - 1 + ca
  | subfic => (dSI i).toInt - a
  | subfme => -a - 2 + ca
  | subfze => -a - 1 + ca
  | neg => -a

/-- The instructions that write CA. -/
def carries : AddOp → Bool
  | add | addi | addis | subf | neg => false
  | _ => true

/-- Whether OE is set, and whether the result is compared: where Rc is set,
or always. -/
def oe (o : AddOp) (i : BitVec 32) : Bool := o.isXO && xoOE i != 0

def rc (o : AddOp) (i : BitVec 32) : Bool := o == addicRc || (o.isXO && xoRc i != 0)

/-- **What the instruction gives.** -/
def gives (o : AddOp) (i : BitVec 32) (s : Machine) : Given :=
  summed (o.addends i s).1 (o.addends i s).2.1 (o.addends i s).2.2 o.carries (o.oe i) (o.rc i)
    (o.exact i s)

/-- The number is the sum of the addends, signed. -/
theorem exact_eq (o : AddOp) (i : BitVec 32) (s : Machine) : o.exact i s =
    (o.addends i s).1.toInt + (o.addends i s).2.1.toInt + (o.addends i s).2.2.toNat := by
  have hnot : ∀ x : Reg, (~~~x).toInt = -x.toInt - 1 := fun x => Word.toInt_not x (by decide)
  have hone : (-1 : Reg).toInt = -1 := by decide
  have hzero : (0 : Reg).toInt = 0 := by decide
  cases o
  all_goals simp only [exact, addends, hnot, hone, hzero, Bool.toNat_false, Bool.toNat_true]
  case addi | addis =>
    by_cases h : dRA0 i = 0
    · rw [if_pos h, if_pos h, hzero]
      omega
    · rw [if_neg h, if_neg h]
      omega
  all_goals omega

/-! ### Their words -/

/-- The row of the table. -/
def row : AddOp → Row
  | add => .xo' 266 (argsABT opAdd)
  | addc => .xo' 10 (argsABT opAddc)
  | adde => .xo' 138 (argsABT opAdde)
  | addi => .d 14 (argsASI opAddi)
  | addis => .d 15 (argsASI opAddis)
  | addic => .d 12 (argsASI opAddic)
  | addicRc => .d 13 (argsASI opAddicRc)
  | addme => .xo' 234 (argsAT opAddme)
  | addze => .xo' 202 (argsAT opAddze)
  | subf => .xo' 40 (argsABT opSubf)
  | subfc => .xo' 8 (argsABT opSubfc)
  | subfe => .xo' 136 (argsABT opSubfe)
  | subfic => .d 8 (argsASI opSubfic)
  | subfme => .xo' 232 (argsAT opSubfme)
  | subfze => .xo' 200 (argsAT opSubfze)
  | neg => .xo' 104 (argsAT opNeg)

theorem row_mem (o : AddOp) : o.row ∈ arithmeticRows := by
  cases o <;> simp [row, arithmeticRows]

/-- A word of the instruction is decoded as the instruction. -/
theorem decode_eq (c : Config) {o : AddOp} {i : BitVec 32} (h : o.encodes i = true) :
    decode c i = o.row.call i := by
  have hrow : o.row ∈ table c := mem_table_of_arithmetic o.row_mem
  rw [encodes, Bool.and_eq_true, beq_iff_eq] at h
  obtain ⟨hop, hxo⟩ := h
  cases o <;> first
    | exact decode_d hrow hop
    | exact decode_xo hrow hop (by simpa [opcode] using hxo)

/-- **What the call does.** -/
theorem call_leaves (o : AddOp) (i : BitVec 32) (s : Machine) :
    ∃ t, o.row.call i s = .ok () t ∧ Leaves (xoRT i) (o.gives i s) s t := by
  have hrt : xoRT i < 32 := field_lt 21 i
  have hra : xoRA i < 32 := field_lt 16 i
  have hrb : xoRB i < 32 := field_lt 11 i
  have hs {ca : Bool} {rc oe : Reg} := sumTo_addOvCoCi (o.addends i s).1 (o.addends i s).2.1
    (o.addends i s).2.2 hrt ca rc oe s (o.exact_eq i s)
  cases o
  case add =>
    show ∃ t, opAdd (xoRA i) (xoRB i) (xoRT i) (xoRc i) (xoOE i) s = .ok () t ∧ _
    rw [opAdd, readGPR_bind s hra, readGPR_bind s hrb]
    exact hs
  case addc =>
    show ∃ t, opAddc (xoRA i) (xoRB i) (xoRT i) (xoRc i) (xoOE i) s = .ok () t ∧ _
    rw [opAddc, readGPR_bind s hra, readGPR_bind s hrb]
    exact hs
  case adde =>
    show ∃ t, opAdde (xoRA i) (xoRB i) (xoRT i) (xoRc i) (xoOE i) s = .ok () t ∧ _
    rw [opAdde, readGPR_bind s hra, readGPR_bind s hrb, readCA_bind s]
    exact hs
  case addi =>
    show ∃ t, opAddi (xoRA i) (dSI i) (xoRT i) s = .ok () t ∧ _
    rw [opAddi, readGPROZ_bind s hra]
    exact resultTo_add _ _ hrt _ s
  case addis =>
    show ∃ t, opAddis (xoRA i) (dSI i) (xoRT i) s = .ok () t ∧ _
    rw [opAddis, readGPROZ_bind s hra]
    exact resultTo_add _ _ hrt _ s
  case addic =>
    show ∃ t, opAddic (xoRA i) (dSI i) (xoRT i) s = .ok () t ∧ _
    rw [opAddic, readGPR_bind s hra]
    exact hs
  case addicRc =>
    show ∃ t, opAddicRc (xoRA i) (dSI i) (xoRT i) s = .ok () t ∧ _
    rw [opAddicRc, readGPR_bind s hra]
    exact hs
  case addme =>
    show ∃ t, opAddme (xoRA i) (xoRT i) (xoRc i) (xoOE i) s = .ok () t ∧ _
    rw [opAddme, readGPR_bind s hra, readCA_bind s]
    exact hs
  case addze =>
    show ∃ t, opAddze (xoRA i) (xoRT i) (xoRc i) (xoOE i) s = .ok () t ∧ _
    rw [opAddze, readGPR_bind s hra, readCA_bind s]
    exact (addOvCoCi_swap (s.gpr (xoRA i)) s.ca) ▸ hs
  case subf =>
    show ∃ t, opSubf (xoRA i) (xoRB i) (xoRT i) (xoRc i) (xoOE i) s = .ok () t ∧ _
    rw [opSubf, readGPR_bind s hra, readGPR_bind s hrb]
    exact hs
  case subfc =>
    show ∃ t, opSubfc (xoRA i) (xoRB i) (xoRT i) (xoRc i) (xoOE i) s = .ok () t ∧ _
    rw [opSubfc, readGPR_bind s hra, readGPR_bind s hrb]
    exact hs
  case subfe =>
    show ∃ t, opSubfe (xoRA i) (xoRB i) (xoRT i) (xoRc i) (xoOE i) s = .ok () t ∧ _
    rw [opSubfe, readGPR_bind s hra, readGPR_bind s hrb, readCA_bind s]
    exact hs
  case subfic =>
    show ∃ t, opSubfic (xoRA i) (dSI i) (xoRT i) s = .ok () t ∧ _
    rw [opSubfic, readGPR_bind s hra]
    exact hs
  case subfme =>
    show ∃ t, opSubfme (xoRA i) (xoRT i) (xoRc i) (xoOE i) s = .ok () t ∧ _
    rw [opSubfme, readGPR_bind s hra, readCA_bind s]
    exact hs
  case subfze =>
    show ∃ t, opSubfze (xoRA i) (xoRT i) (xoRc i) (xoOE i) s = .ok () t ∧ _
    rw [opSubfze, readGPR_bind s hra, readCA_bind s]
    exact hs
  case neg =>
    show ∃ t, opNeg (xoRA i) (xoRT i) (xoRc i) (xoOE i) s = .ok () t ∧ _
    rw [opNeg, readGPR_bind s hra]
    exact (addOvCoCi_swap (~~~(s.gpr (xoRA i))) true) ▸ hs

/-- **The family.** A word that is decoded as an instruction that adds does
what the instruction does, whatever OE, Rc and the registers' numbers are
and whatever the machine's state is; nothing else changes. -/
theorem decoded_sum (c : Config) (o : AddOp) (i : BitVec 32) (h : o.encodes i = true)
    (s : Machine) : ∃ t, decode c i s = .ok () t ∧ Leaves (xoRT i) (o.gives i s) s t := by
  rw [decode_eq c h]
  exact o.call_leaves i s

/-- `addo.` of the greatest number and 1. -/
theorem decoded_sum_addo : ∃ t, decode (.quiet .default) 0x7c642e15 (.holding 0x7fffffff 1) =
    .ok () t ∧ t.gpr 3 = 0x80000000 ∧ t.ov = true ∧ t.so = true ∧
      readCRField t.cpu.user.cr 0 = 9 := by
  obtain ⟨t, ht, hl⟩ := decoded_sum (.quiet .default) add 0x7c642e15 (by decide)
    (.holding 0x7fffffff 1)
  have hso : t.so = true := hl.so.trans (by decide)
  refine ⟨t, ht, hl.target.trans (by decide), hl.ov.trans (by decide), hso, hl.cr0.trans ?_⟩
  rw [hso]
  decide

end AddOp

end MrIss
