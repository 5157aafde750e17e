import MrIss.Interp.Table
import MrIss.Lib.Word
import MrIss.Machine.Run
/-!
# What integer instructions leave

An instruction of integers gives a result and, as its kind, OE and Rc have
it, a carry, an overflow and a comparison with zero. `Leaves` says where
these go and that nothing else changes; the common endings of the
generated functions do that.
-/

namespace MrIss

open EarlyReturn

namespace Machine

/-- The bits of XER that instructions write. -/
def so (s : Machine) : Bool := s.cpu.user.xer.getLsbD 31

def ov (s : Machine) : Bool := s.cpu.user.xer.getLsbD 30

def ca (s : Machine) : Bool := s.cpu.user.xer.getLsbD 29

/-- A machine with two words in registers 4 and 5. -/
def holding (a b : Reg) : Machine :=
  (Machine.boot 0x1000 0 .zero .zero .fresh).setUser
    { CpuState.construct.user with gprs := fun r => if r = 4 then a else if r = 5 then b else 0 }

end Machine

/-- What an instruction gives: its result, a carry where it has one, an
overflow where it is asked for one, and whether the result is compared. -/
structure Given where
  val : Reg
  ca : Option Bool
  ov : Option Bool
  rc : Bool
  deriving DecidableEq, Repr

/-- The comparison of a result with zero: LT, GT or EQ, and SO. -/
def compared (val : Reg) (so : Bool) : Reg :=
  (if val.toInt < 0 then 8 else if 0 < val.toInt then 4 else 2) ||| (if so then 1 else 0)

/-- **What it leaves.** The result in its register; the carry in CA; the
overflow in OV, and in SO for good; the comparison, with the new SO, in
field 0 of CR; the next instruction in PC. Nothing else changes. -/
structure Leaves (rt : Reg) (g : Given) (s t : Machine) : Prop where
  target : t.gpr rt = g.val
  gprs : ∀ r : Fin 32, r ≠ Fin.ofNat 32 rt.toNat → t.cpu.user.gprs r = s.cpu.user.gprs r
  ca : t.ca = g.ca.getD s.ca
  ov : t.ov = g.ov.getD s.ov
  so : t.so = (s.so || g.ov.getD false)
  xer : ∀ i < 29, t.cpu.user.xer.getLsbD i = s.cpu.user.xer.getLsbD i
  cr0 : readCRField t.cpu.user.cr 0 =
    if g.rc then compared g.val t.so else readCRField s.cpu.user.cr 0
  cr : ∀ i < 28, t.cpu.user.cr.getLsbD i = s.cpu.user.cr.getLsbD i
  rest : t = s.setUser { s.cpu.user with
    gprs := t.cpu.user.gprs
    xer := t.cpu.user.xer
    cr := t.cpu.user.cr
    pc := s.cpu.user.pc + 4 }

namespace UserState

variable (u : UserState)

/-! ## XER -/

/-- A bit of XER that is set or cleared. -/
theorem xer_setXERbit (k : ℕ) (v : Bool) {i : ℕ} (hi : i < 32) :
    (u.setXERbit (BitVec.twoPow 32 k) v).xer.getLsbD i =
      if i = k then v else u.xer.getLsbD i := by
  rw [setXERbit]
  refine (Word.getLsbD_clear_or _ _ _ _ hi).trans ?_
  rw [BitVec.getLsbD_twoPow]
  by_cases h : i = k
  · subst h
    simp [hi]
  · simp [h, Ne.symm h]

theorem getXERSO_eq : u.getXERSO = if u.xer.getLsbD 31 then 1 else 0 := by
  rw [getXERSO, show xerSO = BitVec.twoPow 32 31 from rfl]
  exact congrArg (fun b : Bool => if b then (1 : Reg) else 0)
    (Word.and_twoPow_bne u.xer (by decide : 31 < 32))

theorem getXERCA_eq : u.getXERCA = if u.xer.getLsbD 29 then 1 else 0 := by
  rw [getXERCA, show xerCA = BitVec.twoPow 32 29 from rfl]
  exact congrArg (fun b : Bool => if b then (1 : Reg) else 0)
    (Word.and_twoPow_bne u.xer (by decide : 29 < 32))

/-! ## The ending -/

/-- `SET_SO_OV`. -/
def setSoOv (x : Bool) : UserState := (u.setXERSO (x || u.getXERSO != 0)).setXEROV x

/-- `SET_CR0`. -/
def setCR0 (x : Reg) : UserState := { u with cr := writeCRField u.cr 0 (cmp x 0 u.getXERSO) }

theorem xer_setXERCA (x : Bool) {i : ℕ} (hi : i < 32) :
    (u.setXERCA x).xer.getLsbD i = if i = 29 then x else u.xer.getLsbD i :=
  u.xer_setXERbit 29 x hi

theorem xer_setSoOv (x : Bool) {i : ℕ} (hi : i < 32) : (u.setSoOv x).xer.getLsbD i =
    if i = 30 then x else if i = 31 then x || u.xer.getLsbD 31 else u.xer.getLsbD i := by
  have hso : (u.getXERSO != 0) = u.xer.getLsbD 31 := by
    rw [getXERSO_eq]
    cases u.xer.getLsbD 31 <;> rfl
  rw [setSoOv, hso]
  exact (xer_setXERbit _ 30 x hi).trans (by rw [show (u.setXERSO _).xer.getLsbD i = _ from
    u.xer_setXERbit 31 _ hi])

/-- The registers at the end of a function that adds. -/
def ended (ca : Bool) (rt rc oe : Reg) (r : Sum) : UserState :=
  let u := { u with gprs := Function.update u.gprs (Fin.ofNat 32 rt.toNat) r.val }
  let u := if ca then u.setXERCA r.co else u
  let u := if oe != 0 then u.setSoOv r.ov else u
  let u := if rc != 0 then u.setCR0 r.val else u
  { u with pc := u.pc + 4 }

variable (ca : Bool) (rt rc oe : Reg) (r : Sum)

theorem ended_gprs : (u.ended ca rt rc oe r).gprs =
    Function.update u.gprs (Fin.ofNat 32 rt.toNat) r.val := by
  unfold ended
  generalize (rc != 0) = c
  generalize (oe != 0) = o
  cases ca <;> cases o <;> cases c <;> rfl

/-- What the ending leaves of XER. -/
theorem ended_xer {i : ℕ} (hi : i < 32) : (u.ended ca rt rc oe r).xer.getLsbD i =
    if i = 30 then if oe != 0 then r.ov else u.xer.getLsbD 30
    else if i = 31 then (oe != 0 && r.ov) || u.xer.getLsbD 31
    else if i = 29 then if ca then r.co else u.xer.getLsbD 29
    else u.xer.getLsbD i := by
  have hrc : (u.ended ca rt rc oe r).xer = (u.ended ca rt 0 oe r).xer := by
    unfold ended
    generalize (rc != 0) = c
    cases c <;> rfl
  rw [hrc]
  unfold ended
  generalize (oe != 0) = o
  cases ca <;> cases o <;>
    simp only [Bool.false_eq_true, if_true, if_false, bne_self_eq_false, xer_setSoOv _ _ hi,
      xer_setXERCA _ _ hi, xer_setXERCA _ _ (show 31 < 32 by decide)] <;>
    split_ifs <;> simp_all

/-! ### CR -/

/-- A comparison with zero. -/
theorem cmp_zero (x : Reg) : cmp x 0 u.getXERSO = compared x (u.xer.getLsbD 31) := by
  have hlt : x.slt 0 = decide (x.toInt < 0) := rfl
  have hgt : BitVec.slt 0 x = decide (0 < x.toInt) := rfl
  rw [cmp, cmpWith, compared, getXERSO_eq, hlt, hgt]
  simp only [decide_eq_true_eq]

/-- A comparison fits its field. -/
theorem compared_lt (x : Reg) (so : Bool) : compared x so < 16 := by
  unfold compared
  split_ifs <;> decide

/-- The other fields are below bit 28. -/
theorem getLsbD_writeCRField (x z : Reg) {i : ℕ} (hi : i < 28) :
    (writeCRField x 0 z).getLsbD i = x.getLsbD i := by
  have hsplit : writeCRField x 0 z = Block.offset 28 x ||| z <<< 28 := rfl
  rw [hsplit, BitVec.getLsbD_or, Block.getLsbD_offset, BitVec.getLsbD_shiftLeft]
  simp [hi]

/-- What the ending leaves of CR. -/
theorem ended_cr : (u.ended ca rt rc oe r).cr =
    if rc != 0 then writeCRField u.cr 0 (compared r.val ((u.ended ca rt rc oe r).xer.getLsbD 31))
    else u.cr := by
  unfold ended
  generalize (rc != 0) = c
  generalize (oe != 0) = o
  cases c with
  | false => cases ca <;> cases o <;> rfl
  | true =>
    cases ca <;> cases o <;> exact congrArg (writeCRField u.cr 0) (cmp_zero _ r.val)

/-- The ending changes no other register but the PC. -/
theorem ended_eq : u.ended ca rt rc oe r = { u with
    gprs := (u.ended ca rt rc oe r).gprs
    xer := (u.ended ca rt rc oe r).xer
    cr := (u.ended ca rt rc oe r).cr
    pc := u.pc + 4 } := by
  unfold ended
  generalize (rc != 0) = c
  generalize (oe != 0) = o
  cases ca <;> cases o <;> cases c <;> rfl

end UserState

/-! ## The functions' endings -/

/-- **The end of a function that adds.** -/
theorem sumTo_leaves {rt : Reg} (hrt : rt < 32) (ca : Bool) (rc oe : Reg) (r : Sum) (s : Machine) :
    ∃ t, sumTo ca rt rc oe r s = .ok () t ∧
      Leaves rt ⟨r.val, if ca then some r.co else none, if oe != 0 then some r.ov else none,
        rc != 0⟩ s t := by
  refine ⟨s.setUser (s.cpu.user.ended ca rt rc oe r), ?_, ?_⟩
  · rw [sumTo, writeGPR, Prog.assert_of_true (decide_eq_true hrt)]
    unfold UserState.ended
    generalize (rc != 0) = c
    generalize (oe != 0) = o
    cases ca <;> cases o <;> cases c <;> rfl
  · have hx {i : ℕ} (hi : i < 32) := s.cpu.user.ended_xer ca rt rc oe r hi
    refine
      { target := ?_
        gprs := ?_
        ca := ?_
        ov := ?_
        so := ?_
        xer := ?_
        cr0 := ?_
        cr := ?_
        rest := ?_ }
    · exact (congrFun (s.cpu.user.ended_gprs ca rt rc oe r) _).trans (Function.update_self ..)
    · intro k hk
      exact (congrFun (s.cpu.user.ended_gprs ca rt rc oe r) _).trans (Function.update_of_ne hk ..)
    · refine (hx (by decide)).trans ?_
      cases ca <;> rfl
    · refine (hx (by decide)).trans ?_
      by_cases ho : oe != 0 <;> simp only [ho] <;> rfl
    · refine (hx (by decide : 31 < 32)).trans ((Bool.or_comm _ _).trans ?_)
      generalize (oe != 0) = o
      cases o <;> rfl
    · intro i hi
      refine (hx (by omega)).trans ?_
      rw [if_neg (by omega), if_neg (by omega), if_neg (by omega)]
    · refine (congrArg (readCRField · 0) (s.cpu.user.ended_cr ca rt rc oe r)).trans ?_
      by_cases hc : rc != 0
      · simp only [hc, if_true]
        exact readCRField_writeCRField _ (UserState.compared_lt _ _)
      · simp only [hc]
        rfl
    · intro i hi
      refine (congrArg (·.getLsbD i) (s.cpu.user.ended_cr ca rt rc oe r)).trans ?_
      by_cases hc : rc != 0
      · simp only [hc, if_true]
        exact UserState.getLsbD_writeCRField _ _ hi
      · simp only [hc]
        rfl
    · exact congrArg s.setUser (s.cpu.user.ended_eq ca rt rc oe r)

/-- A function without a carry and an overflow ends so too. -/
theorem resultTo_eq (rt rc val : Reg) :
    resultTo rt rc val = sumTo false rt rc 0 ⟨val, false, false⟩ := rfl

/-- **The end of a function that has a result and no carry.** -/
theorem resultTo_leaves {rt : Reg} (hrt : rt < 32) (rc val : Reg) (s : Machine) :
    ∃ t, resultTo rt rc val s = .ok () t ∧ Leaves rt ⟨val, none, none, rc != 0⟩ s t := by
  rw [resultTo_eq]
  exact sumTo_leaves hrt false rc 0 ⟨val, false, false⟩ s

/-! ## Operands -/

section

variable {α : Type} {x y : Reg} (s : Machine)

theorem readGPR_bind (hx : x < 32) (f : Reg → InterpM α) :
    (readGPR x >>= f) s = f (s.gpr x) s :=
  Prog.bind_of_ok (readGPR_apply hx s)

theorem readGPROZ_bind (hx : x < 32) (f : Reg → InterpM α) :
    (readGPROZ x >>= f) s = f (if x = 0 then 0 else s.gpr x) s := by
  rw [Prog.bind_of_ok (readGPROZ_apply hx s)]
  by_cases h : x = 0
  · subst h
    rfl
  · rw [if_neg h, if_pos (by simpa using h)]
    rfl

theorem readCA_bind (f : Reg → InterpM α) :
    (readCA >>= f) s = f (if s.ca then 1 else 0) s :=
  congrArg (f · s) s.cpu.user.getXERCA_eq

end

/-! ## Words -/

theorem mem_table_of_arithmetic {c : Config} {r : Row} (h : r ∈ arithmeticRows) : r ∈ table c := by
  simp only [table, List.append_assoc]
  exact List.mem_append_left _ h

theorem mem_table_of_logical {c : Config} {r : Row} (h : r ∈ logicalRows) : r ∈ table c := by
  simp only [table, List.append_assoc]
  exact List.mem_append_right _ (List.mem_append_left _ h)

/-- A word that a row takes is decoded by the row's call. -/
theorem decode_d {c : Config} {op : ℕ} {call : BitVec 32 → InterpM Unit} {i : BitVec 32}
    (hr : Row.d op call ∈ table c) (h : (getOpcode i).toNat = op) : decode c i = call i :=
  decode_of_mem hr (by simp [Row.accepts, Row.xos, Row.d, h])

theorem decode_m {c : Config} {op : ℕ} {call : BitVec 32 → InterpM Unit} {i : BitVec 32}
    (hr : Row.m op call ∈ table c) (h : (getOpcode i).toNat = op) : decode c i = call i :=
  decode_of_mem hr (by simp [Row.accepts, Row.xos, Row.m, h])

theorem decode_x {c : Config} {xo : ℕ} {call : BitVec 32 → InterpM Unit} {i : BitVec 32}
    (hr : Row.x xo call ∈ table c) (h : (getOpcode i).toNat = 31) (hx : (xXOPC i).toNat = xo) :
    decode c i = call i :=
  decode_of_mem hr (by simp [Row.accepts, Row.xos, Row.x, Form.xopc, h, hx])

/-- The extended opcode of an XO-form row has OE as its highest bit. -/
theorem decode_xo {c : Config} {xo : ℕ} {call : BitVec 32 → InterpM Unit} {i : BitVec 32}
    (hr : Row.xo' xo call ∈ table c) (h : (getOpcode i).toNat = 31)
    (hx : (xXOPC i).toNat % 512 = xo) : decode c i = call i := by
  have hlt : (xXOPC i).toNat < 1024 := by
    rw [xXOPC, field, BitVec.toNat_and]
    exact Nat.lt_of_le_of_lt Nat.and_le_right (by decide)
  have hor : xo ||| 0x200 = 512 + xo := by
    rw [Nat.or_comm]
    exact (Nat.two_pow_add_eq_or_of_lt (i := 9) (by omega) 1).symm
  have hcase : (xXOPC i).toNat = xo ∨ (xXOPC i).toNat = xo ||| 0x200 := by omega
  refine decode_of_mem hr ?_
  rcases hcase with hx | hx <;> simp [Row.accepts, Row.xos, Row.xo', Form.xopc, h, hx]

end MrIss
