import MrIss.Interp.Decode
import MrIss.Mmu.Frame
/-!
# Frames of instructions

What every instruction does is done by a few statements. A frame that
those statements keep is kept by every instruction of the table: each
class below collects the statements of a group of instructions, and each
theorem goes through the group's rows.
-/

namespace MrIss

open EarlyReturn

/-- The statements of the instructions that compute. None of them writes
the byte count in XER. -/
class UserOps (F : Frame Machine) : Prop where
  onUser : ∀ f : UserState → UserState,
    (∀ u, (f u).xer &&& xerSTR = u.xer &&& xerSTR) → Keeps F (onUser f)

/-- The statement that writes XER as a whole. -/
class XerOps (F : Frame Machine) : Prop where
  setXER : ∀ v, Keeps F (setXER v)

/-- Those of the instructions that access memory. -/
class AccessOps (F : Frame Machine) : Prop extends UserOps F where
  leave_refl : ∀ s, F.leave s s
  simQuit : Keeps F simQuit
  translating : ∀ {α : Type} (inD : Bool) (x : Bool → MmuM α),
    (∀ priv, Keeps Mmu.accessFrame (x priv)) → Keeps F (translating inD x)
  accessed : ∀ rnW addr fault,
    Keeps F (Prog.modify (·.accessed rnW addr fault) : InterpM Unit)
  mfcheck : ∀ rnW, Keeps F (mfcheck rnW)
  icbiCheck : ∀ va res, Keeps F (icbiCheck va res)

/-- Those of branches and traps besides. -/
class ProgramOps (F : Frame Machine) : Prop extends AccessOps F where
  raisePROG : ∀ reason, Keeps F (do raisePROGException reason; Prog.ret : InterpM Unit)
  endsPROG : ∀ reason, Ends F (raisePROGException reason)
  endsSC : Ends F raiseSCException

/-- The statements that write system registers. -/
class SystemOps (F : Frame Machine) : Prop where
  onOs : ∀ f, (∀ o, (f o).msr = o.msr) → Keeps F (onOs f)
  remap : ∀ f : Mmu → Mmu, (∀ m, Mmu.Remaps m (f m)) → Keeps F (remap f)
  writeMSR : ∀ v, Keeps F (writeMSR v)

/-- The instructions that make, use and drop reservations. -/
class ReservationOps (F : Frame Machine) : Prop where
  opLwarx : ∀ c ra0 rb eh rt, Keeps F (opLwarx c ra0 rb eh rt)
  opStwcx : ∀ c rs ra0 rb, Keeps F (opStwcx c rs ra0 rb)
  opRfi : Keeps F opRfi

/-- The setters of one bit of XER leave the byte count alone. -/
theorem setXERbit_count (u : UserState) {bit : Reg} (h : bit &&& xerSTR = 0) (v : Bool) :
    (u.setXERbit bit v).xer &&& xerSTR = u.xer &&& xerSTR := by
  have hnot : ~~~bit &&& xerSTR = xerSTR := by
    rw [BitVec.and_comm]
    calc xerSTR &&& ~~~bit = xerSTR &&& ~~~bit ||| bit &&& xerSTR := by rw [h]; simp
      _ = xerSTR &&& (~~~bit ||| bit) := by
        rw [BitVec.and_comm bit, BitVec.and_or_distrib_left]
      _ = xerSTR := by rw [BitVec.or_comm, BitVec.or_not_self, BitVec.and_allOnes]
  change ((u.xer &&& ~~~bit) ||| if v then bit else 0) &&& xerSTR = _
  rw [BitVec.and_comm, BitVec.and_or_distrib_left, BitVec.and_comm xerSTR, BitVec.and_assoc, hnot]
  cases v
  · simp
  · simp [BitVec.and_comm xerSTR, h]

namespace Keeps

variable {F : Frame Machine}

/-! ## Reading -/

/-- A register is read. -/
instance readGPR (reg : Reg) : Keeps F (readGPR reg) := by
  unfold MrIss.readGPR
  infer_instance

/-- A register is read, or 0. -/
instance readGPROZ (reg : Reg) : Keeps F (readGPROZ reg) := by
  unfold MrIss.readGPROZ
  infer_instance

/-- CR is read. -/
instance readCR : Keeps F readCR := .gets _

/-- The carry is read. -/
instance readCA : Keeps F readCA := .gets _

/-- MSR is read. -/
instance readMSR : Keeps F readMSR := .gets _

/-- PC is read. -/
instance getPC : Keeps F getPC := .gets _

/-- A bit of CR is read. -/
instance getCRb (bit : Reg) : Keeps F (getCRb bit) := by
  unfold MrIss.getCRb
  infer_instance

/-- The byte count of a string is read. -/
instance readXERSTR : Keeps F readXERSTR := .gets _

/-- A segment register is read. -/
instance getSegmentReg (sr : Reg) : Keeps F (getSegmentReg sr) := by
  unfold MrIss.getSegmentReg
  infer_instance

/-- The check for privilege does nothing. -/
instance checkYourPrivilege : Keeps F checkYourPrivilege := .pure ()

/-- The check for the hypervisor does nothing. -/
instance checkYourHypPrivilege : Keeps F checkYourHypPrivilege := .pure ()

/-- The address of a D-form is read off the registers. -/
instance eaD (ra0 d : Reg) : Keeps F (eaD ra0 d) := by
  unfold MrIss.eaD
  infer_instance

/-- The address of a D-form with update is read off the registers. -/
instance eaDU (ra d : Reg) : Keeps F (eaDU ra d) := by
  unfold MrIss.eaDU
  infer_instance

/-- The address of an X-form is read off the registers. -/
instance eaX (ra0 rb : Reg) : Keeps F (eaX ra0 rb) := by
  unfold MrIss.eaX
  infer_instance

/-- The address of an X-form with update is read off the registers. -/
instance eaXU (ra rb : Reg) : Keeps F (eaXU ra rb) := by
  unfold MrIss.eaXU
  infer_instance

/-! ## User registers -/

section

variable [A : UserOps F]

/-- A register is written. -/
instance writeGPR (reg val : Reg) : Keeps F (writeGPR reg val) :=
  .seq inferInstance fun _ => A.onUser _ fun _ => rfl

/-- CR is written. -/
instance writeCR (val : Reg) : Keeps F (writeCR val) := A.onUser _ fun _ => rfl

/-- The carry is written. -/
instance writeCA (ca : Bool) : Keeps F (writeCA ca) :=
  A.onUser _ fun u => setXERbit_count u (by decide) ca

/-- PC is written. -/
instance setPC (v : Reg) : Keeps F (setPC v) := A.onUser _ fun _ => rfl

/-- LR is written. -/
instance setLR (v : Reg) : Keeps F (setLR v) := A.onUser _ fun _ => rfl

/-- CTR is written. -/
instance setCTR (v : Reg) : Keeps F (setCTR v) := A.onUser _ fun _ => rfl

/-- XER is written. -/
instance setXER [X : XerOps F] (v : Reg) : Keeps F (setXER v) := X.setXER v

/-- PC goes on to the next word. -/
instance incPC : Keeps F incPC := A.onUser _ fun _ => rfl

/-- CR0 is written, by a result. -/
instance setCR0 (x : Reg) : Keeps F (setCR0 x) := by
  unfold MrIss.setCR0
  infer_instance

/-- SO and OV are written. -/
instance setSoOv (x : Bool) : Keeps F (setSoOv x) :=
  .seq (A.onUser _ fun u => setXERbit_count u (by decide) _) fun _ =>
    A.onUser _ fun u => setXERbit_count u (by decide) x

/-- A sum is written, with its carry and flags. -/
instance sumTo (ca : Bool) (rt rc oe : Reg) (r : Sum) : Keeps F (sumTo ca rt rc oe r) := by
  unfold MrIss.sumTo
  infer_instance

/-- A result is written, with CR0. -/
instance resultTo (rt rc val : Reg) : Keeps F (resultTo rt rc val) := by
  unfold MrIss.resultTo
  infer_instance

/-- The field of CR that a comparison goes to is written. -/
instance compareTo (rel : Reg → Reg → Reg → Reg) (bf a b : Reg) :
    Keeps F (compareTo rel bf a b) := by
  unfold MrIss.compareTo
  infer_instance

end

/-! ## Memory -/

section

variable [A : AccessOps F] {c : Config}

/-- The request to break is written. -/
instance simQuit : Keeps F simQuit := A.simQuit

/-- The check of the fault that an access has left. -/
instance mfcheck (rnW : Bool) : Keeps F (mfcheck rnW) := A.mfcheck rnW

/-- A load, which leaves its fault. -/
instance loadX (size : Size) (addr : VA) : Keeps F (loadX c size addr) := by
  have := A.translating false (Mmu.load c size addr) fun _ => inferInstance
  have := A.accessed
  unfold MrIss.loadX
  infer_instance

/-- A store, which leaves its fault. -/
instance storeX (size : Size) (addr : VA) (val : Reg) : Keeps F (storeX c size addr val) := by
  have := A.translating false (Mmu.store c size addr val) fun _ => inferInstance
  have := A.accessed
  unfold MrIss.storeX
  infer_instance

/-- The words of `lmw`, by induction on how many are left. -/
instance lmwLoop (left : ℕ) (n : Reg) (base : VA) : Keeps F (lmwLoop c left n base) := by
  induction left generalizing n base with
  | zero => exact .pure ()
  | succ left ih => unfold MrIss.lmwLoop; infer_instance

/-- The words of `stmw`, by induction on how many are left. -/
instance stmwLoop (left : ℕ) (n : Reg) (base : VA) : Keeps F (stmwLoop c left n base) := by
  induction left generalizing n base with
  | zero => exact .pure ()
  | succ left ih => unfold MrIss.stmwLoop; infer_instance

/-- The words of a string load, by induction on how many are left. -/
instance lswLoop (base : VA) (numbytes words n : ℕ) (reg : Reg) :
    Keeps F (lswLoop c base numbytes words n reg) := by
  induction words generalizing n reg with
  | zero => exact .pure ()
  | succ words ih => unfold MrIss.lswLoop; infer_instance

/-- The bytes of a word of a string, by induction on how many are left. -/
instance stswBytes (addr : VA) (v : Reg) (bytes i : ℕ) : Keeps F (stswBytes c addr v bytes i) := by
  induction bytes generalizing i with
  | zero => exact .pure ()
  | succ bytes ih => unfold MrIss.stswBytes; infer_instance

/-- The words of a string store, by induction on how many are left. -/
instance stswLoop (base : VA) (numbytes words n : ℕ) (reg : Reg) :
    Keeps F (stswLoop c base numbytes words n reg) := by
  induction words generalizing n reg with
  | zero => exact .pure ()
  | succ words ih => unfold MrIss.stswLoop; infer_instance

/-- The words of a line, by induction on how many are left. -/
instance dcbzLoop (line : VA) (left i : ℕ) : Keeps F (dcbzLoop c line left i) := by
  induction left generalizing i with
  | zero => exact .pure ()
  | succ left ih => unfold MrIss.dcbzLoop; infer_instance

end

end Keeps

/-! ## The table -/

section

variable {F : Frame Machine} [UserOps F]

/-- Arithmetic: what every row keeps. -/
theorem keeps_arithmeticRows : ∀ r ∈ arithmeticRows, ∀ i, Keeps F (r.call i) := by
  simp only [arithmeticRows, List.forall_mem_cons, List.not_mem_nil, false_imp_iff,
    implies_true, and_true]
  and_intros
  all_goals
    intro i
    simp only [Row.xo', Row.x, Row.d, argsABT, argsAT, argsASI, opAdd, opAddc, opAdde, opAddi,
      opAddis, opAddic, opAddicRc, opAddme, opAddze, opDivw, opDivwu, opMulhw, opMulhwu, opMulli,
      opMullw, opNeg, opSubf, opSubfc, opSubfe, opSubfic, opSubfme, opSubfze]
    infer_instance

/-- Logic, shifts and rotates: what every row keeps. -/
theorem keeps_logicalRows : ∀ r ∈ logicalRows, ∀ i, Keeps F (r.call i) := by
  simp only [logicalRows, List.forall_mem_cons, List.not_mem_nil, false_imp_iff,
    implies_true, and_true]
  and_intros
  all_goals
    intro i
    simp only [Row.x, Row.d, Row.m, argsSBA, argsSA, argsSUI, opAnd, opAndc, opAndiRc, opAndisRc,
      opCntlzw, opEqv, opExtsb, opExtsh, opNand, opNor, opOr, opOrc, opOri, opOris, opRlwimi,
      opRlwinm, opRlwnm, opSlw, opSraw, opSrawi, opSrw, opXor, opXori, opXoris, logicX, logicD,
      logicRS]
    infer_instance

/-- The rows of CR, given what `mcrxr` keeps, which writes XER. -/
theorem keeps_condRegRows : ∀ r ∈ condRegRows, ∀ i,
    (r.xo = some 512 → Keeps F (opMcrxr (xBF i))) → Keeps F (r.call i) := by
  simp only [condRegRows, List.forall_mem_cons, List.not_mem_nil, false_imp_iff,
    implies_true, and_true]
  refine ⟨?_, ?_, ?_, ?_, ?_, ?_, ?_, ?_, ?_, ?_, ?_, ?_, ?_, fun _ hm => hm rfl, ?_, ?_⟩
  all_goals
    intro i _
    simp only [Row.x, Row.d, Row.xl, Row.xfx, argsBits, opCmp, opCmpi, opCmpl, opCmpli, opCrand,
      opCrandc, opCreqv, opCrnand, opCrnor, opCror, opCrorc, opCrxor, crLogic, opMcrf, opMfcr,
      opMtcrf]
    infer_instance

/-- `mcrxr`. -/
instance keeps_opMcrxr [XerOps F] (bf : Reg) : Keeps F (opMcrxr bf) := by
  unfold opMcrxr
  infer_instance

end

section

variable {F : Frame Machine} [A : AccessOps F] {c : Config}

/-- A load to a register. -/
theorem keeps_loadTo (size : Size) (ext : Reg → Reg) (rt : Reg) (upd : Option Reg)
    {ea : InterpM VA} [Keeps F ea] : Keeps F (loadTo c size ext rt upd ea) := by
  unfold loadTo
  infer_instance

/-- A store from a register. -/
theorem keeps_storeFrom (size : Size) (conv : Reg → Reg) (rs : Reg) (upd : Option Reg)
    {ea : InterpM VA} [Keeps F ea] : Keeps F (storeFrom c size conv rs upd ea) := by
  unfold storeFrom
  infer_instance

/-- Loads: what every row keeps. -/
theorem keeps_loadRows : ∀ r ∈ loadRows c, ∀ i, Keeps F (r.call i) := by
  simp only [loadRows, List.forall_mem_cons, List.not_mem_nil, false_imp_iff,
    implies_true, and_true]
  and_intros
  all_goals
    intro i
    exact keeps_loadTo _ _ _ _

/-- Stores: what every row keeps. -/
theorem keeps_storeRows : ∀ r ∈ storeRows c, ∀ i, Keeps F (r.call i) := by
  simp only [storeRows, List.forall_mem_cons, List.not_mem_nil, false_imp_iff,
    implies_true, and_true]
  and_intros
  all_goals
    intro i
    exact keeps_storeFrom _ _ _ _

/-- A block that is touched. -/
theorem keeps_touch (ra0 rb : Reg) : Keeps F (touch c ra0 rb) := by
  unfold touch
  infer_instance

/-- Cache blocks: what every row keeps. -/
theorem keeps_blockRows : ∀ r ∈ blockRows c, ∀ i, Keeps F (r.call i) := by
  have htouch := keeps_touch (F := F) (c := c)
  simp only [blockRows, List.forall_mem_cons, List.not_mem_nil, false_imp_iff, implies_true,
    and_true]
  and_intros
  all_goals
    intro i
    simp only [Row.x, Row.xPriv, argsBlock, opDcbi, opDcbf, opDcbst, opDcbz]
    infer_instance

section

variable (hmod : ∀ f : Machine → InterpState,
    Keeps F (Prog.modify fun s => { s with interp := f s } : InterpM Unit))
include hmod

/-- `lwarx`. -/
theorem keeps_opLwarx (hrec : ∀ addr, Keeps F (record (.lwarx addr))) (ra0 rb eh rt : Reg) :
    Keeps F (opLwarx c ra0 rb eh rt) :=
  .seq inferInstance fun _ => .seq inferInstance fun _ => .seq inferInstance fun _ =>
    .seq (hmod _) fun _ => .seq (hrec _) fun _ => inferInstance

/-- `stwcx.`. -/
theorem keeps_opStwcx (hrec : ∀ e : Event, e.ofReservation = true → Keeps F (record e))
    (rs ra0 rb : Reg) : Keeps F (opStwcx c rs ra0 rb) := by
  have hblow : Keeps F blowReservation := hmod _
  have hdone := hrec .stwcx rfl
  have hstore (base : VA) (v : Reg) : Keeps F (condStore c base v) :=
    .seq inferInstance fun _ => .seq inferInstance fun _ => .seq (hrec _ rfl) fun _ =>
      inferInstance
  refine .seq inferInstance fun a => .seq inferInstance fun b => .seq inferInstance fun v =>
    .seq inferInstance fun so => .seq inferInstance fun i => ?_
  infer_instance

end

/-- Caches: what every row keeps. -/
theorem keeps_cacheRows : ∀ r ∈ cacheRows c, ∀ i, Keeps F (r.call i) := by
  have htr (va : VA) := A.translating false (Mmu.translateAddr c va false true) fun _ =>
    inferInstance
  have hcheck := A.icbiCheck
  simp only [cacheRows, List.forall_mem_cons, List.not_mem_nil, false_imp_iff, implies_true,
    and_true]
  and_intros
  all_goals
    intro i
    simp only [Row.x, argsBlock, opDcba, opDcbt, opDcbtst, opIcbi, opIcbt, cacheNop]
    infer_instance

/-- Multiple words and strings: what every row keeps. -/
theorem keeps_multipleRows : ∀ r ∈ multipleRows c, ∀ i, Keeps F (r.call i) := by
  simp only [multipleRows, List.forall_mem_cons, List.not_mem_nil, false_imp_iff, implies_true,
    and_true]
  and_intros
  all_goals
    intro i
    simp only [Row.d, Row.xPriv, opLmw, opStmw, opLswi, opLswx, opStswi, opStswx]
    infer_instance

omit A in
/-- The case of a number is one of the cases. -/
theorem sprCase_mem {α : Type} {cases : List (ℕ × α)} {spr : Reg} {a : α}
    (h : sprCase cases spr = some a) : (spr.toNat, a) ∈ cases := by
  unfold sprCase at h
  obtain ⟨⟨n, b⟩, hk, rfl⟩ := Option.map_eq_some_iff.mp h
  have hn := List.find?_some hk
  rw [beq_iff_eq] at hn
  subst hn
  exact List.mem_of_find?_eq_some hk

omit A in
/-- A case of a number keeps what every case keeps. -/
theorem keeps_sprCase {α β : Type} {cases : List (ℕ × α)} {f : α → InterpM β}
    (h : ∀ k ∈ cases, Keeps F (f k.2)) (spr : Reg) :
    Keeps F ((sprCase cases spr).elim (Prog.abort (.spr spr.toNat)) f) := by
  cases hc : sprCase cases spr with
  | none => exact .abort _
  | some x => exact h _ (sprCase_mem hc)

/-- A special register, to a register. -/
theorem keeps_sprTo {cases : List (ℕ × InterpM Reg)} (h : ∀ k ∈ cases, Keeps F k.2)
    (rt spr : Reg) : Keeps F (sprTo rt spr cases) :=
  .seq (keeps_sprCase h spr) fun _ => inferInstance

omit A in
/-- The time base. -/
theorem keeps_tbCases : ∀ k ∈ tbCases, Keeps F k.2 := by
  simp only [tbCases, List.forall_mem_cons, List.not_mem_nil, false_imp_iff, implies_true,
    and_true]
  exact ⟨.gets _, .gets _⟩

omit A in
/-- The special registers that are read. -/
theorem keeps_mfsprCases : ∀ k ∈ mfsprCases, Keeps F k.2 := by
  have hpriv (f : OsState → Reg) : Keeps F (readOsPriv f) := .seq (.gets _) fun _ => inferInstance
  simp only [mfsprCases, List.forall_mem_append, List.forall_mem_cons, List.not_mem_nil,
    false_imp_iff, implies_true, and_true]
  refine ⟨⟨⟨.gets _, .gets _, .gets _, .pure _⟩, keeps_tbCases⟩, .gets _, ?_⟩
  and_intros
  all_goals exact hpriv _

/-- Reads of special registers: what every row keeps. -/
theorem keeps_specialRows : ∀ r ∈ specialRows, ∀ i, Keeps F (r.call i) := by
  have hspr := keeps_sprTo (keeps_mfsprCases (F := F))
  have htb := keeps_sprTo (keeps_tbCases (F := F))
  simp only [specialRows, List.forall_mem_cons, List.not_mem_nil, false_imp_iff, implies_true,
    and_true]
  and_intros
  all_goals
    intro i
    simp only [Row.x, Row.xl, Row.xfx, Row.xPriv, opEieio, opIsync, opSync, opMfmsr, opMfspr,
      opMftb, opDEBUG, opMfsr, opMfsrin, opTlbsync]
    infer_instance

end

section

variable {F : Frame Machine} [P : ProgramOps F]

/-- A trap. -/
theorem keeps_trapIf (trap : Bool) : Keeps F (trapIf trap) := by
  have := P.raisePROG 0x20000
  unfold trapIf
  infer_instance

/-- A branch that is taken or not. -/
theorem keeps_branchTo (branch : Bool) (dest : VA) : Keeps F (branchTo branch dest) := by
  unfold branchTo
  infer_instance

/-- The count of a branch. -/
theorem keeps_branchCTR (bo : Reg) (branch : Bool) : Keeps F (branchCTR bo branch) := by
  unfold branchCTR
  infer_instance

/-- Branches and traps: what every row keeps. -/
theorem ends_branchRows : ∀ r ∈ branchRows, ∀ i, Ends F (r.call i) := by
  have htrap := keeps_trapIf (F := F)
  have hto := keeps_branchTo (F := F)
  have hctr := keeps_branchCTR (F := F)
  have hunk : Keeps F (do opUnk; Prog.ret : InterpM Unit) := P.raisePROG _
  have hends {x : InterpM Unit} (hx : Keeps F x) : Ends F x := .of_keeps hx P.leave_refl
  simp only [branchRows, List.forall_mem_cons, List.not_mem_nil, false_imp_iff, implies_true,
    and_true]
  refine ⟨fun i => hends ?_, fun i => hends ?_, fun i => hends ?_, fun i => hends ?_, fun i => ?_,
    fun i => hends ?_, fun i => hends ?_⟩
  case refine_5 => exact .bind (Keeps.incPC) fun _ => P.endsSC
  all_goals
    simp only [Row.x, Row.xl, Row.d, opB, opBc, opBclr, opBcctr, opTw, opTwi]
    infer_instance

end

section

variable {F : Frame Machine} [A : AccessOps F] [S : SystemOps F]

omit A in
/-- A BAT register is written. -/
theorem keeps_setBAT {f : Mmu → Fin 4 → BitVec 32 → Mmu} (hf : ∀ m b v, Mmu.Remaps m (f m b v))
    (bat : ℕ) (v : Reg) : Keeps F (setBAT f bat v) := by
  unfold setBAT
  exact .seq inferInstance fun _ => S.remap _ fun m => hf m _ v

omit A in
/-- The BAT registers. -/
theorem keeps_batCases {f g : Mmu → Fin 4 → BitVec 32 → Mmu}
    (hf : ∀ m b v, Mmu.Remaps m (f m b v)) (hg : ∀ m b v, Mmu.Remaps m (g m b v))
    (upper : List ℕ) : ∀ k ∈ batCases upper f g, ∀ v, Keeps F (k.2 v) := by
  have hpriv {h : Mmu → Fin 4 → BitVec 32 → Mmu} (hh : ∀ m b v, Mmu.Remaps m (h m b v)) (n : ℕ)
      (v : Reg) : Keeps F (writePriv (setBAT h n) v) := .seq inferInstance fun _ =>
    keeps_setBAT hh n v
  simp only [batCases, List.mem_flatMap]
  rintro k ⟨x, -, hk⟩ v
  simp only [List.mem_cons, List.not_mem_nil, or_false] at hk
  rcases hk with rfl | rfl
  · exact hpriv hg _ v
  · exact hpriv hf _ v

omit S in
/-- The call for debugging. -/
theorem keeps_helperDEBUG (v : Reg) : Keeps F (helperDEBUG v) := by
  unfold helperDEBUG
  infer_instance

/-- **Every case of `mtspr`,** given what the case of XER keeps. -/
theorem keeps_mtsprCases : ∀ k ∈ mtsprCases, ∀ v,
    (k.1 = sprXER → Keeps F (setXER v)) → Keeps F (k.2 v) := by
  have hos {p : Reg → Prop} (f : Reg → OsState → OsState) (hf : ∀ v o, (f v o).msr = o.msr) (v : Reg)
      (_ : p v) : Keeps F (writePriv (fun v => onOs (f v)) v) :=
    .seq inferInstance fun _ => S.onOs _ (hf v)
  have hnop {p : Reg → Prop} (v : Reg) (_ : p v) : Keeps F (writePriv (fun _ => pure ()) v) :=
    .seq inferInstance fun _ => inferInstance
  have hsdr (v : Reg) : Keeps F (writePriv (fun v => do
      onOs fun o => { o with sdr1 := v }
      remap (·.setSDR1 v)) v) := .seq inferInstance fun _ => .seq (S.onOs _ fun _ => rfl) fun _ =>
    S.remap _ fun m => ⟨rfl, rfl, fun _ => Mmu.straight_flush _⟩
  have hdebug (v : Reg) : Keeps F (writePriv helperDEBUG v) := .seq inferInstance fun _ =>
    keeps_helperDEBUG v
  simp only [mtsprCases, List.forall_mem_append, List.forall_mem_cons, List.not_mem_nil,
    false_imp_iff, implies_true, and_true]
  refine ⟨⟨⟨⟨fun _ _ => inferInstance, fun _ _ => inferInstance, fun _ h => h trivial, ?_, ?_⟩,
    ?_⟩, ?_⟩, ?_⟩
  · exact hos _ fun _ _ => rfl
  · exact hos _ fun _ _ => rfl
  · exact fun k hk v _ => keeps_batCases (f := Mmu.setIBATupper) (g := Mmu.setIBATlower)
      (fun _ _ _ => ⟨rfl, rfl, (·.iutlbInv)⟩) (fun _ _ _ => ⟨rfl, rfl, (·.iutlbInv)⟩) _ k hk v
  · exact fun k hk v _ => keeps_batCases (f := Mmu.setDBATupper) (g := Mmu.setDBATlower)
      (fun _ _ _ => ⟨rfl, rfl, (·.dutlbInv)⟩) (fun _ _ _ => ⟨rfl, rfl, (·.dutlbInv)⟩) _ k hk v
  · refine ⟨?_, ?_, ?_, ?_, ?_, ?_, ?_, ?_, fun v _ => hsdr v, ?_, hnop, ?_, ?_,
      fun v _ => hdebug v, hnop, hnop⟩
    all_goals exact hos _ fun _ _ => rfl

/-- `mtspr`. -/
theorem keeps_opMtspr {spr : Reg} (h : spr.toNat = sprXER → ∀ v, Keeps F (setXER v)) (rs : Reg) :
    Keeps F (opMtspr spr rs) := by
  refine .seq inferInstance fun v => .seq ?_ fun _ => inferInstance
  cases hc : sprCase mtsprCases spr with
  | none => exact .abort _
  | some f => exact keeps_mtsprCases _ (sprCase_mem hc) v fun hk => h hk v

/-- The rows that write system registers, given what `mtspr` keeps. -/
theorem keeps_systemRows (hrfi : Keeps F opRfi) : ∀ r ∈ systemRows, ∀ i,
    (r.xo = some 467 → Keeps F (opMtspr (xfxSpr i) (xfxRS i))) → Keeps F (r.call i) := by
  have hmsr := S.writeMSR
  have hsr (sr v : Reg) : Keeps F (setSegmentReg sr v) := .seq inferInstance fun _ =>
    S.remap _ fun _ => ⟨rfl, rfl, fun _ => Mmu.straight_flush _⟩
  have htlbie : Keeps F (remap (·.tlbie)) :=
    S.remap _ fun m => ⟨rfl, rfl, fun _ => Mmu.straight_flush m⟩
  have htlbia : Keeps F (remap (·.tlbia)) :=
    S.remap _ fun m => ⟨rfl, rfl, fun _ => Mmu.straight_flush m⟩
  simp only [systemRows, List.forall_mem_cons, List.not_mem_nil, false_imp_iff, implies_true,
    and_true]
  refine ⟨fun i _ => ?_, fun i hm => hm rfl, fun _ _ => hrfi, fun i _ => ?_, fun i _ => ?_,
    fun i _ => ?_, fun i _ => ?_, fun i _ => ?_⟩
  all_goals
    simp only [Row.xPriv, opMtmsr, opMtsr, opMtsrin, opTlbie, opTlbiel, opTlbia]
    infer_instance

end

/-! ## The decoder -/

/-- **What the statements keep, every instruction keeps,** given what the
instructions that are about reservations keep, and the two that write XER
as a whole. -/
theorem ends_rows {F : Frame Machine} [P : ProgramOps F] [SystemOps F] (hrfi : Keeps F opRfi)
    {c : Config} {i : BitVec 32} : ∀ r ∈ table c, (r ∈ reservationRows c → Keeps F (r.call i)) →
      (r.xo = some 512 → Keeps F (opMcrxr (xBF i))) →
      (r.xo = some 467 → Keeps F (opMtspr (xfxSpr i) (xfxRS i))) → Ends F (r.call i) := by
  intro r hr hres hmcrxr hmtspr
  have hends {x : InterpM Unit} (hx : Keeps F x) : Ends F x := .of_keeps hx P.leave_refl
  simp only [table, List.mem_append] at hr
  rcases hr with ((((((((((hr | hr) | hr) | hr) | hr) | hr) | hr) | hr) | hr) | hr) | hr) | hr
  · exact hends (keeps_arithmeticRows r hr i)
  · exact hends (keeps_logicalRows r hr i)
  · exact hends (keeps_condRegRows r hr i hmcrxr)
  · exact ends_branchRows r hr i
  · exact hends (keeps_loadRows r hr i)
  · exact hends (keeps_storeRows r hr i)
  · exact hends (hres hr)
  · exact hends (keeps_blockRows r hr i)
  · exact hends (keeps_cacheRows r hr i)
  · exact hends (keeps_multipleRows r hr i)
  · exact hends (keeps_specialRows r hr i)
  · exact hends (keeps_systemRows hrfi r hr i hmtspr)

/-- **Every instruction of the table.** -/
theorem ends_table {F : Frame Machine} [P : ProgramOps F] [SystemOps F] [R : ReservationOps F]
    (c : Config) {i : BitVec 32} : ∀ r ∈ table c,
      (r.xo = some 512 → Keeps F (opMcrxr (xBF i))) →
      (r.xo = some 467 → Keeps F (opMtspr (xfxSpr i) (xfxRS i))) → Ends F (r.call i) := by
  refine fun r hr => ends_rows R.opRfi r hr fun hres => ?_
  simp only [reservationRows, List.mem_cons, List.not_mem_nil, or_false] at hres
  rcases hres with rfl | rfl
  · exact R.opLwarx c _ _ (xEH i) _
  · exact R.opStwcx c _ _ _

/-- The row of a word is a row of the table. -/
theorem rowOf_mem {c : Config} {i : BitVec 32} {r : Row} (h : rowOf c i = some r) :
    r ∈ table c ∧ r.accepts i = true :=
  ⟨List.mem_of_find?_eq_some h, List.find?_some (p := fun r => Row.accepts r i) h⟩

/-- So does the decoder, whatever the word. -/
theorem ends_decode {F : Frame Machine} [P : ProgramOps F] [X : XerOps F] [SystemOps F]
    [ReservationOps F] (c : Config) (i : BitVec 32) : Ends F (decode c i) := by
  unfold decode
  cases h : rowOf c i with
  | none => exact P.endsPROG _
  | some r =>
    exact ends_table c r (rowOf_mem h).1 (fun _ => inferInstance) fun _ =>
      keeps_opMtspr (fun _ => X.setXER) _

/-! ## Frames of one relation -/

/-- A relation that every statement is in, but for program exceptions and
writes of the MSR, the MMU and XER as a whole. -/
structure Allows (R : Machine → Machine → Prop) : Prop where
  refl : ∀ s, R s s
  trans : ∀ {s t u}, R s t → R t u → R s u
  user : ∀ s u, u.xer &&& xerSTR = s.cpu.user.xer &&& xerSTR → R s (s.setUser u)
  quit : ∀ s, R s { s with interp := { s.interp with wantBreak := true } }
  translated : ∀ s inD t, s.mem.mmu.Accessed t.mmu → R s (s.translated inD t)
  accessed : ∀ s rnW addr fault, R s (s.accessed rnW addr fault)
  os : ∀ s o, o.msr = s.cpu.os.msr → R s (s.setOs o)
  enter : ∀ s e v, e ≠ .prog → R s (s.enter e v)
  fetched : ∀ s pc inst, R s { s with interp := { s.interp with pc := pc, inst := inst } }
  tick : ∀ s t, R s { s with cpu := s.cpu.cpuTick t }

namespace Allows

variable {R : Machine → Machine → Prop} (h : Allows R)

/-- Its frame. -/
abbrev frame : Frame Machine := .always R h.refl h.trans

/-- What follows a statement is in the relation to where it leads. -/
theorem state_bind {α β : Type} {x : InterpM α} {f : α → InterpM β}
    (hf : ∀ a, Keeps h.frame (f a)) (s : Machine) : R (x s).state ((x >>= f) s).state :=
  Keeps.state_bind hf s

/-- An exception other than a program exception. -/
theorem raise {e : Exception} (he : e ≠ .prog) (f : Reg → Reg) :
    Keeps h.frame (do let srr1 ← Prog.gets (·.cpu.os.msr); takeException e (f srr1)) :=
  .seq inferInstance fun _ => .modify fun s => h.enter s e _ he

/-- The exception for a fault of the MMU. -/
theorem raiseMem (rnW inD : Bool) (addr : VA) (fault : Fault) (inst : BitVec 32) :
    Keeps h.frame (raiseMemException rnW inD addr fault inst) := by
  have hisi (cause : Reg) : Keeps h.frame (raiseISI cause) := h.raise (by decide) _
  have hdar (dsisr : Reg) : Keeps h.frame
      (MrIss.onOs fun o => { o with dar := addr, dsisr := dsisr }) :=
    .modify fun s => h.os s _ rfl
  have henter (e : Exception) (he : e ≠ .prog) (v : Reg) : Keeps h.frame (takeException e v) :=
    .modify fun s => h.enter s e v he
  have hdsi (cause : Reg) : Keeps h.frame (raiseDSI rnW addr cause) :=
    .seq inferInstance fun _ => .seq (hdar _) fun _ => henter .dsi (by decide) _
  unfold raiseMemException
  split
  · infer_instance
  · infer_instance
  · infer_instance
  · exact .seq inferInstance fun _ => .seq (hdar _) fun _ => henter .align (by decide) _
  · infer_instance

/-- What accesses do. -/
theorem accessOps : AccessOps h.frame where
  leave_refl := h.refl
  onUser _ hf := .modify fun s => h.user s _ (hf _)
  simQuit := .modify h.quit
  translating inD x hx := .seq inferInstance fun priv =>
    .zoom (hx priv) (fun s t => h.translated s inD t) (fun s t => h.translated s inD t)
      fun s t => h.translated s inD t
  accessed rnW addr fault := .modify fun s => h.accessed s rnW addr fault
  mfcheck rnW := by
    have hraise := h.raiseMem
    refine .seq inferInstance fun i => ?_
    split
    · infer_instance
    · exact .seq inferInstance fun _ => .ret h.refl
  icbiCheck va res := by
    have hraise := h.raiseMem
    have hret : Keeps h.frame (Prog.ret : InterpM Unit) := .ret h.refl
    unfold MrIss.icbiCheck
    infer_instance

/-- XER, where the relation allows it. -/
theorem xerOps (hxer : ∀ s v, R s (s.setUser (s.cpu.user.setXER v))) : XerOps h.frame where
  setXER v := .modify fun s => hxer s v

/-- Program exceptions, where the relation allows them. -/
theorem programOps (hprog : ∀ s v, R s (s.enter .prog v)) : ProgramOps h.frame :=
  have hraise (reason : Reg) : Keeps h.frame (raisePROGException reason) :=
    .seq inferInstance fun _ => .modify fun s => hprog s _
  { h.accessOps with
    raisePROG := fun reason => .seq (hraise reason) fun _ => .ret h.refl
    endsPROG := fun reason => .of_keeps (hraise reason) h.refl
    endsSC := .of_keeps (h.raise (by decide) id) h.refl }

/-- Mappings and MSR, where the relation allows them. -/
theorem systemOps (hmmu : ∀ s (m : Mmu), s.mem.mmu.Remaps m → R s (s.remapped m))
    (hmsr : ∀ s v, R s ((s.setOs { s.cpu.os with msr := v }).setMmu
      (s.mem.mmu.setIRDR (v &&& msrIR != 0) (v &&& msrDR != 0)))) : SystemOps h.frame where
  onOs _ hf := .modify fun s => h.os s _ (hf _)
  remap _ hf := .modify fun s => hmmu s _ (hf _)
  writeMSR v := ⟨fun s => hmsr s v⟩

/-- Reservations, where the relation allows them. -/
theorem reservationOps (hsys : SystemOps h.frame) (hinterp : ∀ s i, R s { s with interp := i })
    (hrecord : ∀ s e, e.ofReservation = true → R s { s with trace := e :: s.trace }) :
    ReservationOps h.frame := by
  have hops := h.accessOps
  have hmod (f : Machine → InterpState) : Keeps h.frame
      (Prog.modify fun s => { s with interp := f s } : InterpM Unit) := .modify fun s => hinterp s _
  have hrec (e : Event) (he : e.ofReservation = true) : Keeps h.frame (record e) :=
    .modify fun s => hrecord s e he
  refine ⟨fun _ _ _ _ _ => keeps_opLwarx hmod (fun _ => hrec _ rfl) .., fun _ _ _ _ => keeps_opStwcx hmod hrec ..,
    ?_⟩
  have hblow : Keeps h.frame blowReservation := hmod _
  have hdone := hrec .rfi rfl
  have hmsr := hsys.writeMSR
  unfold opRfi
  infer_instance

end Allows

end MrIss
