import MrIss.Interp.Integer
/-!
# Multiply and divide

The instructions that multiply and divide, by the products and quotients
of the numbers that their operands stand for. A quotient that the host's
division does not have is never asked of it.
-/

namespace MrIss

open EarlyReturn

/-! ## Multiplication -/

section

variable (a b : Reg)

/-- The product of signed operands. -/
theorem toInt_product : (a.signExtend 64 * b.signExtend 64).toInt = a.toInt * b.toInt :=
  Word.toInt_mul_signExtend a b

/-- Its bounds. -/
theorem product_bounds : -2 ^ 62 ≤ a.toInt * b.toInt ∧ a.toInt * b.toInt ≤ 2 ^ 62 :=
  ⟨BitVec.le_toInt_mul_toInt, BitVec.toInt_mul_toInt_le⟩

/-- `mulhw`: the high word. -/
theorem toInt_high : (((a.signExtend 64 * b.signExtend 64).sshiftRight 32).setWidth 32).toInt =
    a.toInt * b.toInt / 2 ^ 32 := by
  obtain ⟨hge, hle⟩ := product_bounds a b
  rw [Word.setWidth_eq_ofInt _ (by decide), Word.toInt_sshiftRight, toInt_product]
  exact BitVec.toInt_ofInt_eq_self (by decide) (by omega) (by omega)

/-- `mulhwu`: the high word. -/
theorem toNat_high : (((a.setWidth 64 * b.setWidth 64) >>> 32).setWidth 32).toNat =
    a.toNat * b.toNat / 2 ^ 32 := by
  have hprod : (a.setWidth 64 * b.setWidth 64).toNat = a.toNat * b.toNat :=
    Word.toNat_mul_setWidth a b
  have hlt : a.toNat * b.toNat < 2 ^ 32 * 2 ^ 32 := Nat.mul_lt_mul'' a.isLt b.isLt
  rw [BitVec.toNat_setWidth, BitVec.toNat_ushiftRight, hprod, Nat.shiftRight_eq_div_pow,
    Nat.mod_eq_of_lt (Nat.div_lt_of_lt_mul hlt)]

/-- The low word of the signed product. -/
theorem low_eq : (a.signExtend 64 * b.signExtend 64).setWidth 32 =
    BitVec.ofInt 32 (a.toInt * b.toInt) := by
  rw [Word.setWidth_eq_ofInt _ (by decide), toInt_product]

theorem mul_eq : a * b = BitVec.ofInt 32 (a.toInt * b.toInt) := by
  rw [BitVec.ofInt_mul, BitVec.ofInt_toInt, BitVec.ofInt_toInt]

/-- **The overflow that `mullw` reports** is that of the product. The second
test is about products with bit 31 set and high words of zeroes or ones. -/
theorem mullwOV_eq : mullwOV a b (a.signExtend 64 * b.signExtend 64) =
    decide (¬ (-2 ^ 31 ≤ a.toInt * b.toInt ∧ a.toInt * b.toInt < 2 ^ 31)) := by
  have hx := toInt_product a b
  have hbounds := product_bounds a b
  have hpos : a.msb = b.msb → 0 ≤ a.toInt * b.toInt := Word.mul_toInt_nonneg
  have hneg : a.msb ≠ b.msb → a.toInt * b.toInt ≤ 0 := Word.mul_toInt_nonpos
  generalize a.toInt * b.toInt = p at hx hbounds hpos hneg ⊢
  generalize a.signExtend 64 * b.signExtend 64 = x at hx ⊢
  have hxlt := x.isLt
  have hsigns : (((a >>> 31) ^^^ (b >>> 31)) != x.setWidth 32 >>> 31) =
      ((a.msb != b.msb) != (x.setWidth 32).msb) := by
    rw [show a >>> 31 = _ from Word.ushiftRight_sign a, show b >>> 31 = _ from
      Word.ushiftRight_sign b, show x.setWidth 32 >>> 31 = _ from Word.ushiftRight_sign _]
    cases a.msb <;> cases b.msb <;> cases (x.setWidth 32).msb <;> decide
  have hlow : (x.setWidth 32).msb = decide (2 ^ 31 ≤ x.toNat % 2 ^ 32) := by
    rw [BitVec.msb_eq_decide, BitVec.toNat_setWidth]
  have hzero : (x != 0) = decide (x.toNat ≠ 0) := by
    rw [Bool.eq_iff_iff, bne_iff_ne, decide_eq_true_iff, ne_eq, ne_eq, ← BitVec.toNat_inj]
    rfl
  rw [BitVec.toInt_eq_toNat_cond] at hx
  rw [mullwOV, hsigns, hlow, hzero, show (x >>> 32 != 0) = _ from Word.ushiftRight_bne x 0 32,
    Word.ushiftRight_bne, Bool.eq_iff_iff]
  rw [show (0x1ffffffff#64).toNat = 0x1ffffffff from rfl, show (0 : BitVec 64).toNat = 0 from rfl]
  by_cases hs : a.msb = b.msb
  · have hp := hpos hs
    simp only [hs, bne_self_eq_false, Bool.or_eq_true, Bool.and_eq_true, decide_eq_true_iff,
      Bool.false_bne]
    split_ifs at hx <;> omega
  · have hp := hneg hs
    have hne : (a.msb != b.msb) = true := bne_iff_ne.mpr hs
    simp only [hne, Bool.or_eq_true, Bool.and_eq_true, decide_eq_true_iff, Bool.true_bne,
      Bool.not_eq_true', decide_eq_false_iff_not]
    split_ifs at hx <;> omega

end

/-! ## Division -/

/-- A division that the host has a result for. -/
def hostSdiv (a b : Reg) : Option Reg :=
  if b = 0 ∨ (a = 0x80000000 ∧ b = 0xffffffff) then none else some (a.sdiv b)

def hostUdiv (a b : Reg) : Option Reg := if b = 0 then none else some (a / b)

/-- `divw`, with the divisions it asks of the host. -/
def divwHost (a b : Reg) : Option Sum :=
  if b = 0 then some ⟨if 0x80000000#32 ≤ a then 0x80000000 else 0x7fffffff, true, false⟩
  else if a = 0x80000000 ∧ b = 0xffffffff then some ⟨0x7fffffff, true, false⟩
  else (hostSdiv a b).map fun q => ⟨q, false, false⟩

def divwuHost (a b : Reg) : Option Sum :=
  if b = 0 then some ⟨0xffffffff, true, false⟩
  else (hostUdiv a b).map fun q => ⟨q, false, false⟩

/-- **The host has every quotient it is asked for.** -/
theorem divwHost_eq (a b : Reg) : divwHost a b = some (divw a b) := by
  unfold divwHost divw hostSdiv
  by_cases hb : b = 0
  · rw [if_pos hb, if_pos hb]
  · by_cases hmin : a = 0x80000000 ∧ b = 0xffffffff
    · rw [if_neg hb, if_neg hb, if_pos hmin, if_pos hmin]
    · rw [if_neg hb, if_neg hb, if_neg hmin, if_neg hmin, if_neg (not_or.mpr ⟨hb, hmin⟩)]
      rfl

theorem divwuHost_eq (a b : Reg) : divwuHost a b = some (divwu a b) := by
  unfold divwuHost divwu hostUdiv
  by_cases hb : b = 0
  · rw [if_pos hb, if_pos hb]
  · rw [if_neg hb, if_neg hb, if_neg hb]
    rfl

/-- Overflow is where there is no quotient. -/
theorem divw_ov (a b : Reg) :
    (divw a b).ov = true ↔ b = 0 ∨ (a = 0x80000000 ∧ b = 0xffffffff) := by
  unfold divw
  by_cases hb : b = 0
  · rw [if_pos hb]
    exact ⟨fun _ => .inl hb, fun _ => rfl⟩
  · rw [if_neg hb]
    by_cases hmin : a = 0x80000000 ∧ b = 0xffffffff
    · rw [if_pos hmin]
      exact ⟨fun _ => .inr hmin, fun _ => rfl⟩
    · rw [if_neg hmin]
      exact ⟨nofun, fun h => absurd h (not_or.mpr ⟨hb, hmin⟩)⟩

theorem divwu_ov (a b : Reg) : (divwu a b).ov = true ↔ b = 0 := by
  unfold divwu
  by_cases hb : b = 0
  · rw [if_pos hb]
    exact ⟨fun _ => hb, fun _ => rfl⟩
  · rw [if_neg hb]
    exact ⟨nofun, fun h => absurd h hb⟩

/-- A quotient that there is. -/
theorem divw_val {a b : Reg} (hb : b ≠ 0) (hmin : ¬ (a = 0x80000000 ∧ b = 0xffffffff)) :
    (divw a b).val = a.sdiv b := by
  rw [divw, if_neg hb, if_neg hmin]

theorem divwu_val {a b : Reg} (hb : b ≠ 0) : (divwu a b).val = a / b := by
  rw [divwu, if_neg hb]

/-! ## The instructions -/

/-- The instructions that multiply and divide. -/
inductive MulOp where
  | mulhw
  | mulhwu
  | mulli
  | mullw
  | divw
  | divwu
  deriving DecidableEq, Repr

namespace MulOp

/-- Whether a word is one of the instruction's. -/
def encodes : MulOp → BitVec 32 → Bool
  | mulhw, i => (getOpcode i).toNat == 31 && (xXOPC i).toNat == 75
  | mulhwu, i => (getOpcode i).toNat == 31 && (xXOPC i).toNat == 11
  | mulli, i => (getOpcode i).toNat == 7
  | mullw, i => (getOpcode i).toNat == 31 && (xXOPC i).toNat % 512 == 235
  | divw, i => (getOpcode i).toNat == 31 && (xXOPC i).toNat % 512 == 491
  | divwu, i => (getOpcode i).toNat == 31 && (xXOPC i).toNat % 512 == 459

/-- Whether the instruction has OE. -/
def hasOE : MulOp → Bool
  | mullw | divw | divwu => true
  | mulhw | mulhwu | mulli => false

def oe (o : MulOp) (i : BitVec 32) : Bool := o.hasOE && xoOE i != 0

def rc (o : MulOp) (i : BitVec 32) : Bool := o != mulli && xoRc i != 0

/-- The operands. -/
def left (i : BitVec 32) (s : Machine) : Reg := s.gpr (xoRA i)

def right (o : MulOp) (i : BitVec 32) (s : Machine) : Reg :=
  if o = mulli then dSI i else s.gpr (xoRB i)

/-- What a function computes of its operands; nothing where it asks the host
for a quotient that there is not. -/
def computes (o : MulOp) (a b : Reg) : Option Sum :=
  match o with
  | mulhw => some ⟨((a.signExtend 64 * b.signExtend 64).sshiftRight 32).setWidth 32, false, false⟩
  | mulhwu => some ⟨((a.setWidth 64 * b.setWidth 64) >>> 32).setWidth 32, false, false⟩
  | mulli => some ⟨a * b, false, false⟩
  | mullw =>
    let x := a.signExtend 64 * b.signExtend 64
    some ⟨x.setWidth 32, mullwOV a b x, false⟩
  | divw => divwHost a b
  | divwu => divwuHost a b

/-- The divisions that have no quotient of 32 bits. -/
def Excluded (o : MulOp) (a b : Reg) : Prop :=
  match o with
  | divw => b = 0 ∨ (a = 0x80000000 ∧ b = 0xffffffff)
  | divwu => b = 0
  | _ => False

/-- **What a result is of the operands:** a word of their product, or their
quotient, rounded towards zero. -/
def Right (o : MulOp) (a b val : Reg) : Prop :=
  match o with
  | mulhw => val.toInt = a.toInt * b.toInt / 2 ^ 32
  | mulhwu => val.toNat = a.toNat * b.toNat / 2 ^ 32
  | mulli | mullw => val = BitVec.ofInt 32 (a.toInt * b.toInt)
  | divw => ∃ r : ℤ, a.toInt = val.toInt * b.toInt + r ∧ r.natAbs < b.toInt.natAbs ∧
      (r = 0 ∨ (r < 0 ↔ a.toInt < 0))
  | divwu => val.toNat = a.toNat / b.toNat

/-- **When a result overflows:** the product is out of range, or there is no
quotient. -/
def Overflows (o : MulOp) (a b : Reg) : Prop :=
  match o with
  | mullw => ¬ (-2 ^ 31 ≤ a.toInt * b.toInt ∧ a.toInt * b.toInt < 2 ^ 31)
  | _ => o.Excluded a b

/-- **What is computed.** -/
theorem computes_eq (o : MulOp) (a b : Reg) : ∃ r, o.computes a b = some r ∧
    (r.ov = true ↔ o.Overflows a b) ∧ (¬ o.Excluded a b → o.Right a b r.val) := by
  cases o with
  | mulhw => exact ⟨_, rfl, by simp [Overflows, Excluded], fun _ => toInt_high a b⟩
  | mulhwu => exact ⟨_, rfl, by simp [Overflows, Excluded], fun _ => toNat_high a b⟩
  | mulli => exact ⟨_, rfl, by simp [Overflows, Excluded], fun _ => mul_eq a b⟩
  | mullw =>
    refine ⟨_, rfl, ?_, fun _ => low_eq a b⟩
    rw [mullwOV_eq, decide_eq_true_iff]
    rfl
  | divw =>
    refine ⟨_, divwHost_eq a b, divw_ov a b, fun hne => ?_⟩
    obtain ⟨hb, hmin⟩ := not_or.mp hne
    rw [divw_val hb hmin]
    refine Word.sdiv_trunc hb ?_
    rw [← not_and_or]
    exact hmin
  | divwu =>
    refine ⟨_, divwuHost_eq a b, divwu_ov a b, fun hb => ?_⟩
    rw [divwu_val hb]
    exact BitVec.toNat_udiv

/-! ### Their words -/

/-- The row of the table. -/
def row : MulOp → Row
  | mulhw => .x 75 fun i => opMulhw (xRA i) (xRB i) (xRT i) (xRc i)
  | mulhwu => .x 11 fun i => opMulhwu (xRA i) (xRB i) (xRT i) (xRc i)
  | mulli => .d 7 (argsASI opMulli)
  | mullw => .xo' 235 (argsABT opMullw)
  | divw => .xo' 491 (argsABT opDivw)
  | divwu => .xo' 459 (argsABT opDivwu)

theorem row_mem (o : MulOp) : o.row ∈ arithmeticRows := by
  cases o <;> simp [row, arithmeticRows]

/-- A word of the instruction is decoded as the instruction. -/
theorem decode_eq (c : Config) {o : MulOp} {i : BitVec 32} (h : o.encodes i = true) :
    decode c i = o.row.call i := by
  have hrow : o.row ∈ table c := mem_table_of_arithmetic o.row_mem
  cases o with
  | mulli => exact decode_d hrow (by simpa [encodes] using h)
  | mulhw | mulhwu =>
    obtain ⟨hop, hxo⟩ : _ ∧ _ := by simpa [encodes] using h
    exact decode_x hrow hop hxo
  | mullw | divw | divwu =>
    obtain ⟨hop, hxo⟩ : _ ∧ _ := by simpa [encodes] using h
    exact decode_xo hrow hop hxo

/-- **What the call does** with what it computes. -/
theorem call_leaves (o : MulOp) (i : BitVec 32) (s : Machine) {r : Sum}
    (hr : o.computes (left i s) (o.right i s) = some r) :
    ∃ t, o.row.call i s = .ok () t ∧
      Leaves (xoRT i) ⟨r.val, none, if o.oe i then some r.ov else none, o.rc i⟩ s t := by
  have hrt : xoRT i < 32 := field_lt 21 i
  have hra : xoRA i < 32 := field_lt 16 i
  have hrb : xoRB i < 32 := field_lt 11 i
  have hs {rc oe : Reg} := sumTo_leaves hrt false rc oe r s
  cases o
  case mulhw =>
    cases hr
    show ∃ t, opMulhw (xoRA i) (xoRB i) (xoRT i) (xoRc i) s = .ok () t ∧ _
    rw [opMulhw, readGPR_bind s hra, readGPR_bind s hrb]
    exact resultTo_leaves hrt _ _ s
  case mulhwu =>
    cases hr
    show ∃ t, opMulhwu (xoRA i) (xoRB i) (xoRT i) (xoRc i) s = .ok () t ∧ _
    rw [opMulhwu, readGPR_bind s hra, readGPR_bind s hrb]
    exact resultTo_leaves hrt _ _ s
  case mulli =>
    cases hr
    show ∃ t, opMulli (xoRA i) (dSI i) (xoRT i) s = .ok () t ∧ _
    rw [opMulli, readGPR_bind s hra]
    exact resultTo_leaves hrt _ _ s
  case mullw =>
    cases hr
    show ∃ t, opMullw (xoRA i) (xoRB i) (xoRT i) (xoRc i) (xoOE i) s = .ok () t ∧ _
    rw [opMullw, readGPR_bind s hra, readGPR_bind s hrb]
    exact hs
  case divw =>
    obtain rfl := Option.some.inj ((divwHost_eq _ _).symm.trans hr)
    show ∃ t, opDivw (xoRA i) (xoRB i) (xoRT i) (xoRc i) (xoOE i) s = .ok () t ∧ _
    rw [opDivw, readGPR_bind s hra, readGPR_bind s hrb]
    exact hs
  case divwu =>
    obtain rfl := Option.some.inj ((divwuHost_eq _ _).symm.trans hr)
    show ∃ t, opDivwu (xoRA i) (xoRB i) (xoRT i) (xoRc i) (xoOE i) s = .ok () t ∧ _
    rw [opDivwu, readGPR_bind s hra, readGPR_bind s hrb]
    exact hs

/-- **The family.** A word that is decoded as an instruction that multiplies
or divides asks no quotient of the host that there is not, leaves the right
result where there is one, and reports overflow where OE asks for it. -/
theorem decoded_product (c : Config) (o : MulOp) (i : BitVec 32) (h : o.encodes i = true)
    (s : Machine) : ∃ r t, o.computes (left i s) (o.right i s) = some r ∧
      decode c i s = .ok () t ∧
      Leaves (xoRT i) ⟨r.val, none, if o.oe i then some r.ov else none, o.rc i⟩ s t ∧
      (r.ov = true ↔ o.Overflows (left i s) (o.right i s)) ∧
      (¬ o.Excluded (left i s) (o.right i s) → o.Right (left i s) (o.right i s) r.val) := by
  obtain ⟨r, hr, hov, hval⟩ := o.computes_eq (left i s) (o.right i s)
  obtain ⟨t, ht, hl⟩ := o.call_leaves i s hr
  exact ⟨r, t, hr, (decode_eq c h).symm ▸ ht, hl, hov, hval⟩

/-- `divwo` of the least number by -1. -/
theorem decoded_product_divwo : ∃ t, decode (.quiet .default) 0x7c642fd6
    (.holding 0x80000000 0xffffffff) = .ok () t ∧ t.ov = true ∧ t.so = true := by
  obtain ⟨r, t, -, ht, hl, hov, -⟩ := decoded_product (.quiet .default) divw 0x7c642fd6 (by decide)
    (.holding 0x80000000 0xffffffff)
  have hr : r.ov = true := hov.mpr (.inr (by decide))
  have hoe : divw.oe 0x7c642fd6 = true := by decide
  rw [hr, hoe] at hl
  exact ⟨t, ht, hl.ov, hl.so.trans (Bool.or_true _)⟩

end MulOp

end MrIss
