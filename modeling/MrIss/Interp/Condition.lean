import MrIss.Interp.Integer
/-!
# What compares and the instructions of CR leave

Bits of CR are counted from the most significant, four to a field. Each
instruction gives every bit of CR, from the old bits and from what it
reads; `CondOp.decoded` is what a word of one does.
-/

namespace MrIss

open EarlyReturn

/-- A bit of CR. -/
def Machine.crBit (s : Machine) (k : ℕ) : Bool := s.cpu.user.cr.getMsbD k

/-! ## The macros -/

section

variable (x z : Reg) {y : Reg} {k : ℕ}

/-- The place of a bit. -/
theorem toNat_bitPlace (hy : y.toNat < 32) : (31 - y).toNat = 31 - y.toNat := by
  refine BitVec.toNat_sub_of_le ?_
  rw [BitVec.le_def]
  exact Nat.le_of_lt_succ hy

/-- The place of a field's last bit. -/
theorem toNat_fieldPlace (hy : y.toNat < 8) : ((7 - y) * 4).toNat = (7 - y.toNat) * 4 := by
  have hsub : (7 - y).toNat = 7 - y.toNat := by
    refine BitVec.toNat_sub_of_le ?_
    rw [BitVec.le_def]
    exact Nat.le_of_lt_succ hy
  have hfour : (4 : Reg).toNat = 4 := rfl
  rw [BitVec.toNat_mul, hsub, hfour, Nat.mod_eq_of_lt (by omega)]

theorem getLsbD_rbit (hy : y.toNat < 32) : (rbit x y).getLsbD 0 = x.getMsbD y.toNat := by
  rw [rbit, BitVec.getLsbD_and, BitVec.ushiftRight_eq', toNat_bitPlace hy,
    BitVec.getLsbD_ushiftRight, BitVec.getMsbD_eq_getLsbD]
  simp [hy]

/-- **`WBIT` writes one bit.** -/
theorem getMsbD_wbit (hy : y.toNat < 32) (hk : k < 32) : (wbit x y z).getMsbD k =
    if k = y.toNat then z.getLsbD 0 else x.getMsbD k := by
  have hz : (z &&& 1).toNat < 2 ^ 1 := by
    rw [BitVec.toNat_and]
    exact Nat.lt_of_le_of_lt Nat.and_le_right (by decide)
  have hins : wbit x y z = (x &&& ~~~(BitVec.ofNat 32 (2 ^ 1 - 1) <<< (31 - y).toNat)) |||
      ((z &&& 1) <<< (31 - y).toNat) := rfl
  rw [BitVec.getMsbD_eq_getLsbD, BitVec.getMsbD_eq_getLsbD, hins,
    Word.getLsbD_insert x hz (by omega), toNat_bitPlace hy]
  by_cases h : k = y.toNat
  · subst h
    simp [hk]
  · rw [if_neg h, if_neg (by omega)]

/-- **`WRITE_CR_FIELD` writes one field.** -/
theorem getMsbD_writeCRField (hz : z.toNat < 16) (hy : y.toNat < 8) (hk : k < 32) :
    (writeCRField x y z).getMsbD k =
      if k / 4 = y.toNat then z.getLsbD (3 - k % 4) else x.getMsbD k := by
  have hins : writeCRField x y z =
      (x &&& ~~~(BitVec.ofNat 32 (2 ^ 4 - 1) <<< ((7 - y) * 4).toNat)) |||
        (z <<< ((7 - y) * 4).toNat) := rfl
  have hz' : z.toNat < 2 ^ 4 := hz
  rw [BitVec.getMsbD_eq_getLsbD, BitVec.getMsbD_eq_getLsbD, hins,
    Word.getLsbD_insert x hz' (by omega), toNat_fieldPlace hy]
  by_cases h : k / 4 = y.toNat
  · rw [if_pos h, if_pos (by omega), show 32 - 1 - k - (7 - y.toNat) * 4 = 3 - k % 4 by omega,
      decide_eq_true hk, Bool.true_and]
  · rw [if_neg h, if_neg (by omega)]

theorem readCRField_lt (x y : Reg) : (readCRField x y).toNat < 16 := by
  rw [readCRField, BitVec.toNat_and]
  exact Nat.lt_of_le_of_lt Nat.and_le_right (by decide)

/-- A bit of a field that is read. -/
theorem getLsbD_readCRField {j : ℕ} (hy : y.toNat < 8) (hj : j < 4) :
    (readCRField x y).getLsbD (3 - j) = x.getMsbD (4 * y.toNat + j) := by
  have hmask : readCRField x y = (x >>> ((7 - y) * 4).toNat) &&& BitVec.ofNat 32 (2 ^ 4 - 1) := rfl
  have hplace : 32 - 1 - (4 * y.toNat + j) = (7 - y.toNat) * 4 + (3 - j) := by omega
  have hin : 3 - j < 32 ∧ 3 - j < 4 ∧ 4 * y.toNat + j < 32 := by omega
  rw [hmask, BitVec.getLsbD_and, BitVec.getLsbD_ofNat, Nat.testBit_two_pow_sub_one,
    toNat_fieldPlace hy, BitVec.getLsbD_ushiftRight, BitVec.getMsbD_eq_getLsbD, hplace]
  simp [hin]

/-- The number of a field of CR is below 8. -/
theorem toNat_field8_lt (sh : ℕ) (i : BitVec 32) : (field sh 7 i).toNat < 8 := by
  rw [field, BitVec.toNat_and]
  exact Nat.lt_of_le_of_lt Nat.and_le_right (by decide)

/-- The bits of a comparison. -/
theorem getLsbD_cmpWith (lt : Reg → Reg → Bool) (a b : Reg) (so : Bool) (j : ℕ) :
    (cmpWith lt a b (if so then 1 else 0)).getLsbD (3 - j) = match j with
      | 0 => lt a b
      | 1 => !lt a b && lt b a
      | 2 => !lt a b && !lt b a
      | _ => so := by
  unfold cmpWith
  generalize lt a b = p
  generalize lt b a = q
  match j with
  | 0 | 1 | 2 => cases p <;> cases q <;> cases so <;> rfl
  | _ + 3 =>
    rw [show 3 - (_ + 3) = 0 by omega]
    cases p <;> cases q <;> cases so <;> rfl

theorem cmpWith_lt (lt : Reg → Reg → Bool) (a b : Reg) (so : Bool) :
    (cmpWith lt a b (if so then 1 else 0)).toNat < 16 := by
  unfold cmpWith
  split_ifs <;> decide

/-- One field of the mask. -/
theorem getMsbD_maskField (b : Bool) (n : ℕ) (hk : k < 32) :
    (if b then 0xf#32 <<< (4 * n) else 0#32).getMsbD k = (b && decide (7 - k / 4 = n)) := by
  have hf : (0xf#32).getLsbD (31 - k - 4 * n) = decide (31 - k - 4 * n < 4) := by
    rw [show (0xf#32) = BitVec.ofNat 32 (2 ^ 4 - 1) from rfl, BitVec.getLsbD_ofNat,
      Nat.testBit_two_pow_sub_one]
    simp [show 31 - k - 4 * n < 32 by omega]
  rw [BitVec.getMsbD_eq_getLsbD, decide_eq_true hk, Bool.true_and]
  cases b with
  | false => simp
  | true =>
    rw [if_pos rfl, BitVec.getLsbD_shiftLeft, hf, Bool.true_and, Bool.eq_iff_iff]
    simp only [Bool.and_eq_true, Bool.not_eq_true', decide_eq_true_eq, decide_eq_false_iff_not]
    omega

/-- The mask of the fields that FXM selects. -/
theorem getMsbD_crMask (fxm : Reg) (hk : k < 32) :
    (crMask fxm).getMsbD k = fxm.getLsbD (7 - k / 4) := by
  have hsel : ∀ n < 8, (fxm &&& BitVec.twoPow 32 n != 0) = fxm.getLsbD n := fun n hn =>
    Word.and_twoPow_bne fxm (by omega)
  have hmask : crMask fxm =
      (if fxm.getLsbD 7 then 0xf#32 <<< (4 * 7) else 0#32) |||
      (if fxm.getLsbD 6 then 0xf#32 <<< (4 * 6) else 0#32) |||
      (if fxm.getLsbD 5 then 0xf#32 <<< (4 * 5) else 0#32) |||
      (if fxm.getLsbD 4 then 0xf#32 <<< (4 * 4) else 0#32) |||
      (if fxm.getLsbD 3 then 0xf#32 <<< (4 * 3) else 0#32) |||
      (if fxm.getLsbD 2 then 0xf#32 <<< (4 * 2) else 0#32) |||
      (if fxm.getLsbD 1 then 0xf#32 <<< (4 * 1) else 0#32) |||
      (if fxm.getLsbD 0 then 0xf#32 <<< (4 * 0) else 0#32) := by
    rw [← hsel 7 (by decide), ← hsel 6 (by decide), ← hsel 5 (by decide), ← hsel 4 (by decide),
      ← hsel 3 (by decide), ← hsel 2 (by decide), ← hsel 1 (by decide), ← hsel 0 (by decide)]
    rfl
  simp only [hmask, BitVec.getMsbD_or, getMsbD_maskField _ _ hk]
  obtain ⟨m, hm⟩ : ∃ m, m = 7 - k / 4 := ⟨_, rfl⟩
  have hm8 : m < 8 := by omega
  rw [← hm]
  -- one of the eight is the bit's field
  match m, hm8 with
  | 0, _ | 1, _ | 2, _ | 3, _ | 4, _ | 5, _ | 6, _ | 7, _ => simp

end

/-! ## The instructions -/

/-- The compares and the instructions of CR. -/
inductive CondOp where
  | cmp
  | cmpi
  | cmpl
  | cmpli
  | crand
  | crandc
  | creqv
  | crnand
  | crnor
  | cror
  | crorc
  | crxor
  | mcrf
  | mcrxr
  | mfcr
  | mtcrf
  deriving DecidableEq, Repr

namespace CondOp

/-- The opcode, and the extended opcode. -/
def opcode : CondOp → ℕ × Option ℕ
  | cmp => (31, some 0)
  | cmpi => (11, none)
  | cmpl => (31, some 32)
  | cmpli => (10, none)
  | crand => (19, some 257)
  | crandc => (19, some 129)
  | creqv => (19, some 289)
  | crnand => (19, some 225)
  | crnor => (19, some 33)
  | cror => (19, some 449)
  | crorc => (19, some 417)
  | crxor => (19, some 193)
  | mcrf => (19, some 0)
  | mcrxr => (31, some 512)
  | mfcr => (31, some 19)
  | mtcrf => (31, some 144)

/-- Whether a word is one of the instruction's. -/
def encodes (o : CondOp) (i : BitVec 32) : Bool :=
  (getOpcode i).toNat == o.opcode.1 && o.opcode.2.all fun x => (xXOPC i).toNat == x

def isCompare : CondOp → Bool
  | cmp | cmpi | cmpl | cmpli => true
  | _ => false

/-- The number that a compare takes a word for. -/
def num : CondOp → Reg → ℤ
  | cmp, a | cmpi, a => a.toInt
  | _, a => a.toNat

/-- What RA is compared with. -/
def operand : CondOp → BitVec 32 → Machine → Reg
  | cmpi, i, _ => (i.setWidth 16).signExtend 32
  | cmpli, i, _ => (i.setWidth 16).setWidth 32
  | _, i, s => s.gpr (xRB i)

/-- The Boolean function of an instruction of two bits. -/
def logic : CondOp → Bool → Bool → Bool
  | crand, a, b => a && b
  | crandc, a, b => a && !b
  | creqv, a, b => a == b
  | crnand, a, b => !(a && b)
  | crnor, a, b => !(a || b)
  | cror, a, b => a || b
  | crorc, a, b => a || !b
  | _, a, b => a ^^ b

/-- **What an instruction gives** a bit of CR. -/
def bit (o : CondOp) (i : BitVec 32) (s : Machine) (k : ℕ) : Bool :=
  match o with
  | cmp | cmpi | cmpl | cmpli =>
    if k / 4 = (xBF i).toNat then
      match k % 4 with
      | 0 => decide (o.num (s.gpr (xRA i)) < o.num (o.operand i s))
      | 1 => decide (o.num (o.operand i s) < o.num (s.gpr (xRA i)))
      | 2 => decide (o.num (s.gpr (xRA i)) = o.num (o.operand i s))
      | _ => s.so
    else s.crBit k
  | crand | crandc | creqv | crnand | crnor | cror | crorc | crxor =>
    if k = (xlBT i).toNat then o.logic (s.crBit (xlBA i).toNat) (s.crBit (xlBB i).toNat)
    else s.crBit k
  | mcrf =>
    if k / 4 = (xlBF i).toNat then s.crBit (4 * (xlBFA i).toNat + k % 4) else s.crBit k
  | mcrxr => if k / 4 = (xBF i).toNat then s.cpu.user.xer.getMsbD (k % 4) else s.crBit k
  | mfcr => s.crBit k
  | mtcrf => if (xfxFXM i).getLsbD (7 - k / 4) then (s.gpr (xfxRS i)).getMsbD k else s.crBit k

/-- **What it leaves.** The bits of CR; CR in RT, by `mfcr` alone; XER, which
`mcrxr` clears; the next instruction in PC. Nothing else changes. -/
structure Leaves (o : CondOp) (i : BitVec 32) (s t : Machine) : Prop where
  bits : ∀ k < 32, t.crBit k = o.bit i s k
  rest : t = s.setUser { s.cpu.user with
    cr := t.cpu.user.cr
    gprs := if o = mfcr then
        Function.update s.cpu.user.gprs (Fin.ofNat 32 (xfxRT i).toNat) s.cpu.user.cr
      else s.cpu.user.gprs
    xer := if o = mcrxr then 0 else s.cpu.user.xer
    pc := s.cpu.user.pc + 4 }

/-! ### Their words -/

/-- The row of the table. -/
def row : CondOp → Row
  | cmp => .x 0 fun i => opCmp (xBF i) (xRA i) (xRB i)
  | cmpi => .d 11 fun i => opCmpi (dBF i) (dRA i) (dSI i)
  | cmpl => .x 32 fun i => opCmpl (xBF i) (xRA i) (xRB i)
  | cmpli => .d 10 fun i => opCmpli (dBF i) (dRA i) (dUI i)
  | crand => .xl 257 (argsBits opCrand)
  | crandc => .xl 129 (argsBits opCrandc)
  | creqv => .xl 289 (argsBits opCreqv)
  | crnand => .xl 225 (argsBits opCrnand)
  | crnor => .xl 33 (argsBits opCrnor)
  | cror => .xl 449 (argsBits opCror)
  | crorc => .xl 417 (argsBits opCrorc)
  | crxor => .xl 193 (argsBits opCrxor)
  | mcrf => .xl 0 fun i => opMcrf (xlBF i) (xlBFA i)
  | mcrxr => .x 512 fun i => opMcrxr (xBF i)
  | mfcr => .xfx 19 [] fun i => opMfcr (xfxRT i)
  | mtcrf => .xfx 144 [] fun i => opMtcrf (xfxFXM i) (xfxRS i)

theorem row_mem (o : CondOp) (c : Config) : o.row ∈ table c := by
  have h : o.row ∈ condRegRows := by cases o <;> simp [row, condRegRows]
  simp only [table, List.append_assoc]
  exact List.mem_append_right _ (List.mem_append_right _ (List.mem_append_left _ h))

/-- A word of the instruction is decoded as the instruction. -/
theorem decode_eq (c : Config) {o : CondOp} {i : BitVec 32} (h : o.encodes i = true) :
    decode c i = o.row.call i := by
  refine decode_of_mem (o.row_mem c) ?_
  rw [encodes, Bool.and_eq_true, beq_iff_eq] at h
  obtain ⟨hop, hxo⟩ := h
  have hxl : xlXOPC i = xXOPC i := rfl
  cases o with
  | cmpi | cmpli => simp [Row.accepts, Row.xos, row, Row.d, hop, opcode]
  | _ =>
    simpa [Row.accepts, Row.xos, row, Row.x, Row.xl, Row.xfx, Form.xopc, hop, hxl, opcode] using hxo

/-! ### What the calls do -/

section

variable {o : CondOp} {i : BitVec 32} {s : Machine}

theorem bit_compare (ho : o.isCompare = true) (k : ℕ) : o.bit i s k =
    if k / 4 = (xBF i).toNat then
      match k % 4 with
      | 0 => decide (o.num (s.gpr (xRA i)) < o.num (o.operand i s))
      | 1 => decide (o.num (o.operand i s) < o.num (s.gpr (xRA i)))
      | 2 => decide (o.num (s.gpr (xRA i)) = o.num (o.operand i s))
      | _ => s.so
    else s.crBit k := by
  cases o <;> first | rfl | cases ho

/-- **A compare.** -/
theorem compareTo_leaves (o : CondOp) (ho : o.isCompare = true) (lt : Reg → Reg → Bool)
    (hlt : ∀ a b, lt a b = decide (o.num a < o.num b)) :
    ∃ t, compareTo (cmpWith lt) (xBF i) (s.gpr (xRA i)) (o.operand i s) s = .ok () t ∧
      o.Leaves i s t := by
  refine ⟨_, rfl, ?_, ?_⟩
  · intro k hk
    have hbf : (xBF i).toNat < 8 := toNat_field8_lt 23 i
    have hso : s.cpu.user.getXERSO = if s.so then 1 else 0 := s.cpu.user.getXERSO_eq
    refine (congrArg (fun z => (writeCRField s.cpu.user.cr (xBF i) z).getMsbD k)
      (congrArg (cmpWith lt _ _) hso)).trans ?_
    rw [getMsbD_writeCRField _ _ (cmpWith_lt ..) hbf hk, getLsbD_cmpWith, hlt, hlt,
      bit_compare ho]
    generalize o.num (s.gpr (xRA i)) = a
    generalize o.num (o.operand i s) = b
    split_ifs with h
    · have hj : k % 4 < 4 := Nat.mod_lt _ (by decide)
      match k % 4, hj with
      | 0, _ | 3, _ => rfl
      | 1, _ | 2, _ =>
        rw [Bool.eq_iff_iff]
        simp only [Bool.and_eq_true, Bool.not_eq_true', decide_eq_false_iff_not,
          decide_eq_true_eq]
        omega
    · rfl
  · cases o <;> first | rfl | cases ho

/-- Exactly one of the three bits is set. -/
theorem one_of_compare (ho : o.isCompare = true) {t : Machine} (h : o.Leaves i s t) :
    ∃! j : Fin 3, t.crBit (4 * (xBF i).toNat + j) = true := by
  have hbf : (xBF i).toNat < 8 := toNat_field8_lt 23 i
  have hbit : ∀ j : Fin 3, t.crBit (4 * (xBF i).toNat + j) = match (j : ℕ) with
      | 0 => decide (o.num (s.gpr (xRA i)) < o.num (o.operand i s))
      | 1 => decide (o.num (o.operand i s) < o.num (s.gpr (xRA i)))
      | 2 => decide (o.num (s.gpr (xRA i)) = o.num (o.operand i s))
      | _ => s.so := fun j => by
    rw [h.bits _ (by omega), bit_compare ho, if_pos (by omega),
      show (4 * (xBF i).toNat + j) % 4 = (j : ℕ) by omega]
  generalize o.num (s.gpr (xRA i)) = a at hbit
  generalize o.num (o.operand i s) = b at hbit
  have h0 : t.crBit _ = decide (a < b) := hbit 0
  have h1 : t.crBit _ = decide (b < a) := hbit 1
  have h2 : t.crBit _ = decide (a = b) := hbit 2
  rcases lt_trichotomy a b with hab | hab | hab
  · refine ⟨0, h0.trans (decide_eq_true hab), fun j hj => ?_⟩
    match j with
    | 0 => rfl
    | 1 => exact absurd (of_decide_eq_true (h1.symm.trans hj)) (by omega)
    | 2 => exact absurd (of_decide_eq_true (h2.symm.trans hj)) (by omega)
  · refine ⟨2, h2.trans (decide_eq_true hab), fun j hj => ?_⟩
    match j with
    | 0 => exact absurd (of_decide_eq_true (h0.symm.trans hj)) (by omega)
    | 1 => exact absurd (of_decide_eq_true (h1.symm.trans hj)) (by omega)
    | 2 => rfl
  · refine ⟨1, h1.trans (decide_eq_true hab), fun j hj => ?_⟩
    match j with
    | 0 => exact absurd (of_decide_eq_true (h0.symm.trans hj)) (by omega)
    | 1 => rfl
    | 2 => exact absurd (of_decide_eq_true (h2.symm.trans hj)) (by omega)

/-- **An instruction of two bits.** -/
theorem crLogic_leaves (o : CondOp) (f : Reg → Reg → Reg)
    (hf : ∀ a b, (f a b).getLsbD 0 = o.logic (a.getLsbD 0) (b.getLsbD 0))
    (hne : o ≠ mfcr ∧ o ≠ mcrxr) (hbit : ∀ k, o.bit i s k = if k = (xlBT i).toNat then
      o.logic (s.crBit (xlBA i).toNat) (s.crBit (xlBB i).toNat) else s.crBit k) :
    ∃ t, crLogic f (xlBT i) (xlBA i) (xlBB i) s = .ok () t ∧ o.Leaves i s t := by
  have hbt : (xlBT i).toNat < 32 := BitVec.lt_def.mp (field_lt 21 i)
  have hba : (xlBA i).toNat < 32 := BitVec.lt_def.mp (field_lt 16 i)
  have hbb : (xlBB i).toNat < 32 := BitVec.lt_def.mp (field_lt 11 i)
  refine ⟨_, rfl, ?_, ?_⟩
  · intro k hk
    show (wbit s.cpu.user.cr (xlBT i) (f (rbit s.cpu.user.cr (xlBA i))
      (rbit s.cpu.user.cr (xlBB i)))).getMsbD k = _
    rw [getMsbD_wbit _ _ hbt hk, hf, getLsbD_rbit _ hba, getLsbD_rbit _ hbb, hbit]
    rfl
  · rw [if_neg hne.1, if_neg hne.2]
    rfl

/-- The comparisons that the macros make. -/
theorem slt_eq_num (a b : Reg) : a.slt b = decide (cmp.num a < cmp.num b) := rfl

theorem ult_eq_num (a b : Reg) : a.ult b = decide (cmpl.num a < cmpl.num b) := by
  rw [BitVec.ult_eq_decide, decide_eq_decide]
  exact Int.ofNat_lt.symm

/-- The unsigned immediate. -/
theorem dUI_eq (i : BitVec 32) : dUI i = (i.setWidth 16).setWidth 32 := by
  apply BitVec.eq_of_toNat_eq
  have hmask : dUI i = i &&& BitVec.ofNat 32 (2 ^ 16 - 1) := rfl
  rw [hmask, BitVec.toNat_and, BitVec.toNat_ofNat, Nat.mod_eq_of_lt (by decide),
    Nat.and_two_pow_sub_one_eq_mod, BitVec.toNat_setWidth, BitVec.toNat_setWidth]
  omega

/-- **What the call does.** -/
theorem call_leaves (o : CondOp) (i : BitVec 32) (s : Machine) :
    ∃ t, o.row.call i s = .ok () t ∧ o.Leaves i s t := by
  have hra : xRA i < 32 := field_lt 16 i
  have hrb : xRB i < 32 := field_lt 11 i
  have hrs : xfxRS i < 32 := field_lt 21 i
  cases o
  case cmp =>
    show ∃ t, opCmp (xBF i) (xRA i) (xRB i) s = .ok () t ∧ _
    rw [opCmp, readGPR_bind s hra, readGPR_bind s hrb]
    exact compareTo_leaves cmp rfl BitVec.slt slt_eq_num
  case cmpi =>
    show ∃ t, opCmpi (xBF i) (xRA i) (dSI i) s = .ok () t ∧ _
    rw [opCmpi, readGPR_bind s hra]
    exact compareTo_leaves cmpi rfl BitVec.slt slt_eq_num
  case cmpl =>
    show ∃ t, opCmpl (xBF i) (xRA i) (xRB i) s = .ok () t ∧ _
    rw [opCmpl, readGPR_bind s hra, readGPR_bind s hrb]
    exact compareTo_leaves cmpl rfl BitVec.ult ult_eq_num
  case cmpli =>
    show ∃ t, opCmpli (xBF i) (xRA i) (dUI i) s = .ok () t ∧ _
    rw [opCmpli, readGPR_bind s hra, dUI_eq]
    exact compareTo_leaves cmpli rfl BitVec.ult ult_eq_num
  case mcrf =>
    refine ⟨_, rfl, fun k hk => ?_, rfl⟩
    have hbf : (xlBF i).toNat < 8 := toNat_field8_lt 23 i
    have hbfa : (xlBFA i).toNat < 8 := toNat_field8_lt 18 i
    refine (getMsbD_writeCRField _ _ (readCRField_lt ..) hbf hk).trans ?_
    rw [getLsbD_readCRField _ hbfa (Nat.mod_lt _ (by decide))]
    rfl
  case mcrxr =>
    refine ⟨_, rfl, fun k hk => ?_, rfl⟩
    have hbf : (xBF i).toNat < 8 := toNat_field8_lt 23 i
    have hx : (s.cpu.user.xer >>> 28).toNat < 16 := by
      have := s.cpu.user.xer.isLt
      rw [BitVec.toNat_ushiftRight, Nat.shiftRight_eq_div_pow]
      omega
    refine (getMsbD_writeCRField _ _ hx hbf hk).trans ?_
    have hplace : (s.cpu.user.xer >>> 28).getLsbD (3 - k % 4) =
        s.cpu.user.xer.getMsbD (k % 4) := by
      rw [BitVec.getLsbD_ushiftRight, BitVec.getMsbD_eq_getLsbD,
        decide_eq_true (by omega : k % 4 < 32), Bool.true_and,
        show 28 + (3 - k % 4) = 32 - 1 - k % 4 by omega]
    rw [hplace]
    rfl
  case mfcr =>
    have hrt : xfxRT i < 32 := field_lt 21 i
    show ∃ t, opMfcr (xfxRT i) s = .ok () t ∧ _
    refine ⟨s.setUser { s.cpu.user with
      gprs := Function.update s.cpu.user.gprs (Fin.ofNat 32 (xfxRT i).toNat) s.cpu.user.cr
      pc := s.cpu.user.pc + 4 }, ?_, fun _ _ => rfl, rfl⟩
    have hread : readCR s = .ok s.cpu.user.cr s := rfl
    rw [opMfcr, Prog.bind_of_ok hread, writeGPR, Prog.assert_of_true (decide_eq_true hrt)]
    rfl
  case mtcrf =>
    show ∃ t, opMtcrf (xfxFXM i) (xfxRS i) s = .ok () t ∧ _
    rw [opMtcrf, readGPR_bind s hrs]
    refine ⟨_, rfl, fun k hk => ?_, rfl⟩
    show ((s.cpu.user.cr &&& ~~~crMask (xfxFXM i)) |||
      (s.gpr (xfxRS i) &&& crMask (xfxFXM i))).getMsbD k = _
    rw [BitVec.getMsbD_or, BitVec.getMsbD_and, BitVec.getMsbD_and, BitVec.getMsbD_not,
      getMsbD_crMask _ hk]
    show _ = if (xfxFXM i).getLsbD (7 - k / 4) then _ else _
    cases (xfxFXM i).getLsbD (7 - k / 4) <;> simp [hk, Machine.crBit]
  case crand =>
    exact crLogic_leaves crand (fun a b => a &&& b) (fun _ _ => by simp [logic])
      (by decide) fun _ => rfl
  case crandc =>
    exact crLogic_leaves crandc (fun a b => a &&& ~~~b) (fun _ _ => by simp [logic])
      (by decide) fun _ => rfl
  case creqv =>
    refine crLogic_leaves creqv (fun a b => ~~~(a ^^^ b)) (fun a b => ?_) (by decide) fun _ => rfl
    rw [BitVec.getLsbD_not, BitVec.getLsbD_xor, logic]
    cases a.getLsbD 0 <;> cases b.getLsbD 0 <;> rfl
  case crnand =>
    exact crLogic_leaves crnand (fun a b => ~~~(a &&& b)) (fun _ _ => by simp [logic])
      (by decide) fun _ => rfl
  case crnor =>
    exact crLogic_leaves crnor (fun a b => ~~~(a ||| b)) (fun _ _ => by simp [logic])
      (by decide) fun _ => rfl
  case cror =>
    exact crLogic_leaves cror (fun a b => a ||| b) (fun _ _ => by simp [logic])
      (by decide) fun _ => rfl
  case crorc =>
    exact crLogic_leaves crorc (fun a b => a ||| ~~~b) (fun _ _ => by simp [logic])
      (by decide) fun _ => rfl
  case crxor =>
    exact crLogic_leaves crxor (fun a b => a ^^^ b) (fun _ _ => by simp [logic])
      (by decide) fun _ => rfl

/-- `mtcrf`, then `mfcr`. -/
theorem mtcrf_mfcr (c : Config) {j : BitVec 32} (hi : mtcrf.encodes i = true)
    (hj : mfcr.encodes j = true) (s : Machine) :
    ∃ t, (decode c i >>= fun _ => decode c j) s = .ok () t ∧
      ∀ k < 32, (t.gpr (xfxRT j)).getMsbD k =
        if (xfxFXM i).getLsbD (7 - k / 4) then (s.gpr (xfxRS i)).getMsbD k else s.crBit k := by
  obtain ⟨u, hu, hlu⟩ := call_leaves mtcrf i s
  obtain ⟨t, ht, hlt⟩ := call_leaves mfcr j u
  rw [← decode_eq c hi] at hu
  rw [← decode_eq c hj] at ht
  refine ⟨t, (Prog.bind_of_ok hu).trans ht, fun k hk => ?_⟩
  have hgpr : t.gpr (xfxRT j) = u.cpu.user.cr := by
    rw [hlt.rest]
    exact Function.update_self ..
  rw [hgpr]
  exact hlu.bits k hk

end

/-- **The family.** A word that is decoded as a compare or as an instruction
of CR does what the instruction does, whatever the fields that it names and
whatever the machine's state is; a compare sets one of LT, GT and EQ; and
`mfcr` reads back what `mtcrf` wrote. -/
theorem decoded_cond (c : Config) :
    (∀ (o : CondOp) (i : BitVec 32), o.encodes i = true → ∀ s : Machine,
      ∃ t, decode c i s = .ok () t ∧ o.Leaves i s t ∧
        (o.isCompare = true → ∃! j : Fin 3, t.crBit (4 * (xBF i).toNat + j) = true)) ∧
    ∀ i j : BitVec 32, mtcrf.encodes i = true → mfcr.encodes j = true → ∀ s : Machine,
      ∃ t, (decode c i >>= fun _ => decode c j) s = .ok () t ∧
        ∀ k < 32, (t.gpr (xfxRT j)).getMsbD k =
          if (xfxFXM i).getLsbD (7 - k / 4) then (s.gpr (xfxRS i)).getMsbD k else s.crBit k := by
  refine ⟨fun o i h s => ?_, fun i j hi hj s => mtcrf_mfcr c hi hj s⟩
  obtain ⟨t, ht, hl⟩ := o.call_leaves i s
  exact ⟨t, (decode_eq c h).symm ▸ ht, hl, fun ho => one_of_compare ho hl⟩

/-- `cmpw cr7,r4,r5` of -1 and 1; `crnor 31,28,28`. -/
theorem decoded_cond_cmpw :
    (∃ t, decode (.quiet .default) 0x7f842800 (.holding 0xffffffff 1) = .ok () t ∧
      t.crBit 28 = true ∧ t.crBit 29 = false) ∧
    ∃ t, decode (.quiet .default) 0x4ffce042 (.holding 0 0) = .ok () t ∧ t.crBit 31 = true := by
  have hfam := (decoded_cond (.quiet .default)).1
  obtain ⟨t, ht, hl, -⟩ := hfam cmp 0x7f842800 (by decide) (.holding 0xffffffff 1)
  obtain ⟨u, hu, hm, -⟩ := hfam crnor 0x4ffce042 (by decide) (.holding 0 0)
  refine ⟨⟨t, ht, ?_, ?_⟩, u, hu, ?_⟩
  · exact (hl.bits 28 (by decide)).trans (by decide)
  · exact (hl.bits 29 (by decide)).trans (by decide)
  · exact (hm.bits 31 (by decide)).trans (by decide)

end CondOp

end MrIss
