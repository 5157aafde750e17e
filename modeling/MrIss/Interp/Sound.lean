import MrIss.Interp.Frame
import MrIss.Interp.Table
import MrIss.Mmu.Sound
/-!
# Checks that do not fail in the interpreter

A register's number comes from a field of five bits or is wrapped to five,
a segment's has four, a fault that is raised is one of the access just
made. What is left are the numbers of the BAT registers: `mtspr` has cases
for eight of each kind, and the MMU has four.
-/

namespace MrIss

open EarlyReturn

/-! ## Numbers -/

/-- The number of a register. -/
class IsReg (r : Reg) : Prop where
  lt : r < 32

/-- The number of a segment. -/
class IsSegment (r : Reg) : Prop where
  lt : r < 16

/-- A masked field is the index of a register. -/
instance isReg_mask (x : Reg) : IsReg (x &&& 0x1f) := ⟨field_lt 0 x⟩

/-- So is 0. -/
instance isReg_zero : IsReg 0 := ⟨by decide⟩

/-- A masked field is the index of a segment register. -/
instance isSegment_mask (x : Reg) : IsSegment (x &&& 0xf) where
  lt := by
    rw [BitVec.lt_def, BitVec.toNat_and]
    exact Nat.lt_of_le_of_lt Nat.and_le_right (by decide)

namespace Sound

/-! ## Registers -/

section

variable {reg : Reg} [h : IsReg reg]

/-- A register is read: the index is checked, and is one of 32. -/
instance readGPR : Sound (readGPR reg) :=
  .seq (.assert (decide_eq_true h.lt)) fun _ => inferInstance

/-- A register is read, or 0. -/
instance readGPROZ : Sound (readGPROZ reg) := by
  unfold MrIss.readGPROZ
  infer_instance

/-- A register is written: the index is checked, and is one of 32. -/
instance writeGPR (val : Reg) : Sound (writeGPR reg val) :=
  .seq (.assert (decide_eq_true h.lt)) fun _ => .modify _

end

/-- A register of the user is written without a check. -/
instance onUser (f : UserState → UserState) : Sound (onUser f) := .modify _

/-- A register of the system is written without a check. -/
instance onOs (f : OsState → OsState) : Sound (onOs f) := .modify _

/-- A part of the MMU is written without a check. -/
instance onMmu (f : Mmu → Mmu) : Sound (onMmu f) := .modify _

/-- A mapping is written without a check. -/
instance remap (f : Mmu → Mmu) : Sound (remap f) := .modify _

/-- The trace is written without a check. -/
instance record (e : Event) : Sound (record e) := .modify _

/-- The generation count is written without a check. -/
instance blowReservation : Sound blowReservation := .modify _

/-- The request to break is written without a check. -/
instance simQuit : Sound simQuit := .modify _

/-- CR is read without a check. -/
instance readCR : Sound readCR := .gets _

/-- The carry is read without a check. -/
instance readCA : Sound readCA := .gets _

/-- MSR is read without a check. -/
instance readMSR : Sound readMSR := .gets _

/-- PC is read without a check. -/
instance getPC : Sound getPC := .gets _

/-- The byte count of a string is read without a check. -/
instance readXERSTR : Sound readXERSTR := .gets _

/-- A bit of CR is read without a check. -/
instance getCRb (bit : Reg) : Sound (getCRb bit) := .seq (.gets _) fun _ => .pure _

/-- CR is written without a check. -/
instance writeCR (val : Reg) : Sound (writeCR val) := .modify _

/-- The carry is written without a check. -/
instance writeCA (ca : Bool) : Sound (writeCA ca) := .modify _

/-- PC is written without a check. -/
instance setPC (v : Reg) : Sound (setPC v) := .modify _

/-- LR is written without a check. -/
instance setLR (v : Reg) : Sound (setLR v) := .modify _

/-- CTR is written without a check. -/
instance setCTR (v : Reg) : Sound (setCTR v) := .modify _

/-- XER is written without a check. -/
instance setXER (v : Reg) : Sound (setXER v) := .modify _

/-- PC goes on to the next word. -/
instance incPC : Sound incPC := .modify _

/-- MSR is written, with the IR and DR of the MMU. -/
instance writeMSR (v : Reg) : Sound (writeMSR v) := .seq (.modify _) fun _ => .modify _

/-- The check for privilege does nothing. -/
instance checkYourPrivilege : Sound checkYourPrivilege := .pure ()

/-- The check for the hypervisor does nothing. -/
instance checkYourHypPrivilege : Sound checkYourHypPrivilege := .pure ()

/-- CR0 is written, by a result. -/
instance setCR0 (x : Reg) : Sound (setCR0 x) := .seq (.gets _) fun _ => .modify _

/-- SO and OV are written without a check. -/
instance setSoOv (x : Bool) : Sound (setSoOv x) := .seq (.modify _) fun _ => .modify _

section

variable {rt : Reg} [IsReg rt]

/-- A sum is written, with its carry and flags. -/
instance sumTo (ca : Bool) (rc oe : Reg) (r : Sum) : Sound (sumTo ca rt rc oe r) := by
  unfold MrIss.sumTo
  infer_instance

/-- A result is written, with CR0. -/
instance resultTo (rc val : Reg) : Sound (resultTo rt rc val) := by
  unfold MrIss.resultTo
  infer_instance

/-- A segment register is read: the index is checked, and is one of 16. -/
instance getSegmentReg {sr : Reg} [h : IsSegment sr] : Sound (getSegmentReg sr) :=
  .seq (.assert (decide_eq_true h.lt)) fun _ => .gets _

/-- A segment register is written: the index is checked, and is one of 16. -/
instance setSegmentReg {sr : Reg} [h : IsSegment sr] (v : Reg) : Sound (setSegmentReg sr v) :=
  .seq (.assert (decide_eq_true h.lt)) fun _ => .modify _

end

/-- The field of CR that a comparison goes to is written without a check. -/
instance compareTo (rel : Reg → Reg → Reg → Reg) (bf a b : Reg) :
    Sound (compareTo rel bf a b) := by
  unfold MrIss.compareTo
  infer_instance

section

variable {ra rb : Reg} [IsReg ra] [IsReg rb]

/-- The address of a D-form is by registers that exist. -/
instance eaD (d : Reg) : Sound (eaD ra d) := .seq inferInstance fun _ => .pure _

/-- The address of a D-form with update is by registers that exist. -/
instance eaDU (d : Reg) : Sound (eaDU ra d) := .seq inferInstance fun _ => .pure _

/-- The address of an X-form is by registers that exist. -/
instance eaX : Sound (eaX ra rb) := by
  unfold MrIss.eaX
  infer_instance

/-- The address of an X-form with update is by registers that exist. -/
instance eaXU : Sound (eaXU ra rb) := by
  unfold MrIss.eaXU
  infer_instance

end

/-! ## Exceptions -/

/-- An exception asserts nothing. -/
instance takeException (e : Exception) (v : Reg) : Sound (takeException e v) := .modify _

/-- A program exception asserts nothing. -/
instance raisePROG (reason : Reg) : Sound (raisePROGException reason) :=
  .seq (.gets _) fun _ => .modify _

/-- A system call asserts nothing. -/
instance raiseSC : Sound raiseSCException := .seq (.gets _) fun _ => .modify _

/-- An instruction storage interrupt asserts nothing. -/
instance raiseISI (cause : Reg) : Sound (raiseISI cause) := .seq (.gets _) fun _ => .modify _

/-- A data storage interrupt asserts nothing. -/
instance raiseDSI (rnW : Bool) (addr : VA) (cause : Reg) : Sound (raiseDSI rnW addr cause) :=
  .seq (.gets _) fun _ => .seq (.modify _) fun _ => .modify _

/-- The faults of translations and of accesses are all handled. -/
theorem raiseMem {rnW inD : Bool} {addr : VA} {f : Fault} {inst : BitVec 32}
    (h : Mmu.TranslationFault inD f ∨ Mmu.DataFault f) :
    Sound (raiseMemException rnW inD addr f inst) := by
  cases f with
  | noPage | perms => exact .ite
  | permsNX =>
    obtain (h | h | ⟨-, h⟩) | (h | h | h) := h
    case inl.inr.inr => exact .seq (.assert h) fun _ => inferInstance
    all_goals cases h
  | align => exact .seq (.gets _) fun _ => .seq (.modify _) fun _ => .modify _
  | noSegment => obtain (h | h | ⟨h, -⟩) | (h | h | h) := h <;> cases h

end Sound

/-! ## Accesses -/

/-- What `LOADx` and `STOREx` leave is no fault, or one of a data access. -/
def Machine.DataFaulted (s : Machine) : Prop :=
  ∀ f, s.interp.memAccessFault = some f → Mmu.DataFault f

section

variable {c : Config} {size : Size} {addr : VA} {rnW : Bool} {s t : Machine}

/-- What a call of the MMU returns. -/
theorem translating_returns {α : Type} {P : α → Prop} {inD : Bool} {x : Bool → MmuM α}
    (h : ∀ priv, Returns P (x priv)) : Returns P (translating inD x) := by
  refine .bind fun priv => ?_
  intro s a t hs
  unfold Prog.zoom at hs
  cases hx : x priv s.mem with
  | ok b u =>
    rw [hx] at hs
    cases hs
    exact h priv _ _ _ hx
  | ret u => rw [hx] at hs; cases hs
  | abort e u => rw [hx] at hs; cases hs

/-- A run of the MMU. -/
instance sound_translating {α : Type} {inD : Bool} {x : Bool → MmuM α} [∀ priv, Sound (x priv)] :
    Sound (translating inD x) := .seq (.gets _) fun _ => .zoom

/-- A load, which leaves its fault. -/
instance sound_loadX : Sound (loadX c size addr) := by
  unfold loadX
  infer_instance

/-- A store, which leaves its fault. -/
instance sound_storeX (v : Reg) : Sound (storeX c size addr v) := by
  unfold storeX
  infer_instance

/-- What an access on the data side leaves is a fault of that side. -/
theorem faultOf_dataFault {α : Type} {res : Except Fault α} (h : Mmu.FaultsIn Mmu.DataFault res)
    {f : Fault} (hf : faultOf res = some f) : Mmu.DataFault f := by
  cases res with
  | ok _ => cases hf
  | error g =>
    cases hf
    exact h _ rfl

/-- After a load the fault is one of the data side. -/
theorem loadX_faulted {v : Reg} (h : loadX c size addr s = .ok v t) : t.DataFaulted := by
  obtain ⟨res, u, hu, hlast⟩ := Prog.bind_eq_ok h
  cases hlast
  have hres := translating_returns (P := Mmu.FaultsIn Mmu.DataFault) (fun _ => Mmu.load_faults) _ _ _ hu
  exact fun f => faultOf_dataFault hres

/-- So it is after a store. -/
theorem storeX_faulted {v : Reg} {a : Unit} (h : storeX c size addr v s = .ok a t) :
    t.DataFaulted := by
  obtain ⟨res, u, hu, hlast⟩ := Prog.bind_eq_ok h
  cases hlast
  have hres := translating_returns (P := Mmu.FaultsIn Mmu.DataFault) (fun _ => Mmu.store_faults v) _ _ _ hu
  exact fun f => faultOf_dataFault hres

/-- The check after an access raises what the access left. -/
theorem mfcheck_abort {e : Abort} (hs : s.DataFaulted) (h : mfcheck rnW s = .abort e t) :
    e.isAssertion = false := by
  unfold mfcheck at h
  rw [Prog.gets_bind_apply] at h
  cases hf : s.interp.memAccessFault with
  | none => rw [hf] at h; cases h
  | some f =>
    simp only [hf] at h
    have hraise : Sound (raiseMemException rnW false s.interp.memAccessAddr f s.interp.inst) :=
      .raiseMem (.inr (hs f hf))
    have hseq : Sound (do
        raiseMemException rnW false s.interp.memAccessAddr f s.interp.inst
        Prog.ret : InterpM Unit) := inferInstance
    exact hseq.out _ _ _ h

/-- The check ends no simulator after such a fault. -/
theorem mfcheck_bind_abort {β : Type} {f : Unit → InterpM β} [hf : ∀ u, Sound (f u)] {e : Abort}
    (hs : s.DataFaulted) (h : (mfcheck rnW >>= f) s = .abort e t) : e.isAssertion = false := by
  rw [Prog.bind_apply] at h
  cases hx : mfcheck rnW s with
  | ok a u => rw [hx] at h; exact (hf a).out _ _ _ h
  | ret u => rw [hx] at h; cases h
  | abort e' u =>
    rw [hx] at h
    cases h
    exact mfcheck_abort hs hx

/-- **An access and its check.** -/
instance sound_load_check {β : Type} {f : Reg → Unit → InterpM β} [∀ v u, Sound (f v u)] :
    Sound (loadX c size addr >>= fun v => mfcheck rnW >>= f v) :=
  .seq_of (Q := fun _ t => t.DataFaulted) inferInstance (fun _ _ _ h => loadX_faulted h)
    fun _ _ _ _ ht h => mfcheck_bind_abort ht h

/-- A store, its check and what follows. -/
instance sound_store_check {β : Type} {f : Unit → InterpM β} [∀ u, Sound (f u)] (v : Reg) :
    Sound (storeX c size addr v >>= fun _ => mfcheck rnW >>= f) :=
  .seq_of (Q := fun _ t => t.DataFaulted) inferInstance (fun _ _ _ h => storeX_faulted h)
    fun _ _ _ _ ht h => mfcheck_bind_abort ht h

/-- A store and its check. -/
instance sound_store_last (v : Reg) :
    Sound (storeX c size addr v >>= fun _ => mfcheck rnW) :=
  .seq_of (Q := fun _ t => t.DataFaulted) inferInstance (fun _ _ _ h => storeX_faulted h)
    fun _ _ _ _ ht h => mfcheck_abort ht h

/-- A load to a register. -/
instance sound_loadTo (ext : Reg → Reg) {rt : Reg} [IsReg rt] {ea : InterpM VA} [Sound ea] :
    Sound (loadTo c size ext rt none ea) := by
  simp only [loadTo, Option.elim_none]
  infer_instance

/-- A load to a register, with update. -/
instance sound_loadTo_update (ext : Reg → Reg) {rt ra : Reg} [IsReg rt] [IsReg ra]
    {ea : InterpM VA} [Sound ea] : Sound (loadTo c size ext rt (some ra) ea) := by
  simp only [loadTo, Option.elim_some]
  infer_instance

/-- A store from a register. -/
instance sound_storeFrom (conv : Reg → Reg) {rs : Reg} [IsReg rs] {ea : InterpM VA} [Sound ea] :
    Sound (storeFrom c size conv rs none ea) := by
  simp only [storeFrom, Option.elim_none]
  infer_instance

/-- A store from a register, with update. -/
instance sound_storeFrom_update (conv : Reg → Reg) {rs ra : Reg} [IsReg rs] [IsReg ra]
    {ea : InterpM VA} [Sound ea] : Sound (storeFrom c size conv rs (some ra) ea) := by
  simp only [storeFrom, Option.elim_some]
  infer_instance

/-! ## Reservations -/

/-- The store of `stwcx.`. -/
instance sound_condStore (base : VA) (v : Reg) : Sound (condStore c base v) :=
  .seq_of (Q := fun _ t => t.DataFaulted) inferInstance (fun _ _ _ h => storeX_faulted h)
    fun _ s _ _ hs h => mfcheck_abort
      (s := { s with trace := .stwcxStore base s.interp.memAccessFault :: s.trace }) hs h

/-- `lwarx`. -/
instance sound_opLwarx {ra0 rb eh rt : Reg} [IsReg ra0] [IsReg rb] [IsReg rt] :
    Sound (opLwarx c ra0 rb eh rt) := by
  refine .seq inferInstance fun a => .seq inferInstance fun b => ?_
  refine .seq_of (Q := fun _ t => t.DataFaulted) inferInstance
    (fun _ _ _ h => loadX_faulted h) fun v s e t hs h => ?_
  -- the reservation is made between the access and its check
  exact mfcheck_bind_abort (f := fun _ => do writeGPR rt v; incPC)
    (s := { s with
      interp := { s.interp with
        reservationAddress := a + b
        reservationGencount := s.interp.excGenerationCount }
      trace := .lwarx (a + b) :: s.trace }) hs h

/-- `stwcx.`. -/
instance sound_opStwcx {rs ra0 rb : Reg} [IsReg rs] [IsReg ra0] [IsReg rb] :
    Sound (opStwcx c rs ra0 rb) := by
  unfold opStwcx
  infer_instance

/-! ## Loops -/

/-- The registers of a loop go up to the last. -/
theorem sound_lmwLoop {left : ℕ} {n : Reg} (h : n.toNat + left ≤ 32) (base : VA) :
    Sound (lmwLoop c left n base) := by
  induction left generalizing n base with
  | zero => exact .pure ()
  | succ left ih =>
    have hn : IsReg n := ⟨by rw [BitVec.lt_def]; simp; omega⟩
    have hnext (base : VA) : Sound (lmwLoop c left (n + 1) base) := ih (by
      rw [BitVec.toNat_add_of_lt] <;> simp <;> omega) base
    unfold lmwLoop
    infer_instance

/-- The words of `stmw`: every register that they are of exists. -/
theorem sound_stmwLoop {left : ℕ} {n : Reg} (h : n.toNat + left ≤ 32) (base : VA) :
    Sound (stmwLoop c left n base) := by
  induction left generalizing n base with
  | zero => exact .pure ()
  | succ left ih =>
    have hn : IsReg n := ⟨by rw [BitVec.lt_def]; simp; omega⟩
    have hnext (base : VA) : Sound (stmwLoop c left (n + 1) base) := ih (by
      rw [BitVec.toNat_add_of_lt] <;> simp <;> omega) base
    unfold stmwLoop
    infer_instance

/-- The words of a string load: every register that they are of exists. -/
instance sound_lswLoop (base : VA) (numbytes words n : ℕ) (reg : Reg) [IsReg reg] :
    Sound (lswLoop c base numbytes words n reg) := by
  induction words generalizing n reg with
  | zero => exact .pure ()
  | succ words ih => unfold lswLoop; infer_instance

/-- The bytes of a word of a string: every register that they are of exists. -/
instance sound_stswBytes (v : Reg) (bytes i : ℕ) : Sound (stswBytes c addr v bytes i) := by
  induction bytes generalizing i with
  | zero => exact .pure ()
  | succ bytes ih => unfold stswBytes; infer_instance

/-- The words of a string store: every register that they are of exists. -/
instance sound_stswLoop (base : VA) (numbytes words n : ℕ) (reg : Reg) [IsReg reg] :
    Sound (stswLoop c base numbytes words n reg) := by
  induction words generalizing n reg with
  | zero => exact .pure ()
  | succ words ih => unfold stswLoop; infer_instance

/-- The words of a line: every register that they are of exists. -/
instance sound_dcbzLoop (line : VA) (left i : ℕ) : Sound (dcbzLoop c line left i) := by
  induction left generalizing i with
  | zero => exact .pure ()
  | succ left ih => unfold dcbzLoop; infer_instance

end

/-! ## Special registers -/

/-- The numbers of the BAT registers that the MMU does not have. -/
def isHighBat (spr : Reg) : Bool := decide (560 ≤ spr.toNat ∧ spr.toNat < 576)

/-- A word of `mtspr` to one of them. -/
def isMtsprHighBat (i : BitVec 32) : Bool := isMtspr i && isHighBat (xfxSpr i)

/-- A case of a number is sound if every case but those is. -/
theorem sound_sprCase {α β : Type} {cases : List (ℕ × α)} {f : α → InterpM β} {spr : Reg}
    (h : ∀ k ∈ cases, k.1 = spr.toNat → Sound (f k.2)) :
    Sound ((sprCase cases spr).elim (Prog.abort (.spr spr.toNat)) f) := by
  cases hc : sprCase cases spr with
  | none => exact .abort rfl
  | some x => exact h _ (sprCase_mem hc) rfl

/-- A special register, to a register. -/
theorem sound_sprTo {cases : List (ℕ × InterpM Reg)} (h : ∀ k ∈ cases, Sound k.2) {rt : Reg}
    [IsReg rt] (spr : Reg) : Sound (sprTo rt spr cases) :=
  .seq (sound_sprCase fun k hk _ => h k hk) fun _ => inferInstance

/-- The time base. -/
theorem sound_tbCases : ∀ k ∈ tbCases, Sound k.2 := by
  simp only [tbCases, List.forall_mem_cons, List.not_mem_nil, false_imp_iff, implies_true,
    and_true]
  exact ⟨.gets _, .gets _⟩

/-- The special registers that are read. -/
theorem sound_mfsprCases : ∀ k ∈ mfsprCases, Sound k.2 := by
  have hpriv (f : OsState → Reg) : Sound (readOsPriv f) := .seq (.gets _) fun _ => inferInstance
  simp only [mfsprCases, List.forall_mem_append, List.forall_mem_cons, List.not_mem_nil,
    false_imp_iff, implies_true, and_true]
  refine ⟨⟨⟨.gets _, .gets _, .gets _, .pure _⟩, sound_tbCases⟩, .gets _, ?_⟩
  and_intros
  all_goals exact hpriv _

/-- A BAT register is written: the index is checked, and is one of four. -/
theorem sound_setBAT (f : Mmu → Fin 4 → BitVec 32 → Mmu) {bat : ℕ} (h : bat < 4) (v : Reg) :
    Sound (setBAT f bat v) :=
  .seq (.assert (decide_eq_true h)) fun _ => inferInstance

/-- The cases of one side: the first four registers of eight are there. -/
theorem sound_batCases (f g : Mmu → Fin 4 → BitVec 32 → Mmu) {upper : List ℕ} {n : ℕ}
    (h : ∀ k ∈ upper.zipIdx, n = k.1 ∨ n = k.1 + 1 → k.2 < 4) (v : Reg) :
    ∀ k ∈ batCases upper f g, k.1 = n → Sound (k.2 v) := by
  simp only [batCases, List.mem_flatMap]
  rintro k ⟨x, hx, hk⟩ rfl
  simp only [List.mem_cons, List.not_mem_nil, or_false] at hk
  rcases hk with rfl | rfl
  · exact .seq inferInstance fun _ => sound_setBAT g (h x hx (.inr rfl)) v
  · exact .seq inferInstance fun _ => sound_setBAT f (h x hx (.inl rfl)) v

/-- The call for debugging. -/
theorem sound_helperDEBUG (v : Reg) : Sound (helperDEBUG v) := by
  have : Sound (Prog.abort .debug : InterpM Unit) := .abort rfl
  unfold helperDEBUG
  infer_instance

/-- **Every case of `mtspr`** but those of the BAT registers that the MMU
does not have. -/
theorem sound_mtsprCases {spr : Reg} (h : isHighBat spr = false) (v : Reg) :
    ∀ k ∈ mtsprCases, k.1 = spr.toNat → Sound (k.2 v) := by
  have hpriv {f : Reg → InterpM Unit} (hf : Sound (f v)) : Sound (writePriv f v) :=
    .seq inferInstance fun _ => hf
  have hlow : ¬ (560 ≤ spr.toNat ∧ spr.toNat < 576) := of_decide_eq_false h
  simp only [mtsprCases, List.forall_mem_append]
  refine ⟨⟨⟨?_, ?_⟩, ?_⟩, ?_⟩
  case refine_2 =>
    refine sound_batCases _ _ ?_ v
    simp only [sprIBATU, List.zipIdx_cons, List.zipIdx_nil, List.forall_mem_cons,
      List.not_mem_nil, false_imp_iff, implies_true, and_true]
    omega
  case refine_3 =>
    refine sound_batCases _ _ ?_ v
    simp only [sprDBATU, List.zipIdx_cons, List.zipIdx_nil, List.forall_mem_cons,
      List.not_mem_nil, false_imp_iff, implies_true, and_true]
    omega
  all_goals
    simp only [List.forall_mem_cons, List.not_mem_nil, false_imp_iff, implies_true, and_true]
    and_intros
    all_goals
      intro _
      first
        | infer_instance
        | exact hpriv (sound_helperDEBUG v)
        | exact hpriv inferInstance

/-- `mtspr`. -/
theorem sound_opMtspr {spr rs : Reg} [IsReg rs] (h : isHighBat spr = false) :
    Sound (opMtspr spr rs) :=
  .seq inferInstance fun v => .seq (sound_sprCase (sound_mtsprCases h v)) fun _ => inferInstance

/-! ## The table -/

section

variable {c : Config}

/-- Arithmetic: no row fails an assertion. -/
theorem sound_arithmeticRows : ∀ r ∈ arithmeticRows, ∀ i, Sound (r.call i) := by
  simp only [arithmeticRows, List.forall_mem_cons, List.not_mem_nil, false_imp_iff,
    implies_true, and_true]
  and_intros
  all_goals
    intro i
    simp only [Row.xo', Row.x, Row.d, argsABT, argsAT, argsASI, opAdd, opAddc, opAdde, opAddi,
      opAddis, opAddic, opAddicRc, opAddme, opAddze, opDivw, opDivwu, opMulhw, opMulhwu, opMulli,
      opMullw, opNeg, opSubf, opSubfc, opSubfe, opSubfic, opSubfme, opSubfze, xoRA, xoRB, xoRT,
      xRA, xRB, xRT, dRA, dRT, field]
    infer_instance

/-- Logic, shifts and rotates: no row fails an assertion. -/
theorem sound_logicalRows : ∀ r ∈ logicalRows, ∀ i, Sound (r.call i) := by
  simp only [logicalRows, List.forall_mem_cons, List.not_mem_nil, false_imp_iff,
    implies_true, and_true]
  and_intros
  all_goals
    intro i
    simp only [Row.x, Row.d, Row.m, argsSBA, argsSA, argsSUI, opAnd, opAndc, opAndiRc, opAndisRc,
      opCntlzw, opEqv, opExtsb, opExtsh, opNand, opNor, opOr, opOrc, opOri, opOris, opRlwimi,
      opRlwinm, opRlwnm, opSlw, opSraw, opSrawi, opSrw, opXor, opXori, opXoris, logicX, logicD,
      logicRS, xRS, xRB, xRA, dRS, dRA, mRA, mRB, mRS, field]
    infer_instance

/-- The condition register: no row fails an assertion. -/
theorem sound_condRegRows : ∀ r ∈ condRegRows, ∀ i, Sound (r.call i) := by
  simp only [condRegRows, List.forall_mem_cons, List.not_mem_nil, false_imp_iff,
    implies_true, and_true]
  and_intros
  all_goals
    intro i
    simp only [Row.x, Row.d, Row.xl, Row.xfx, argsBits, opCmp, opCmpi, opCmpl, opCmpli, opCrand,
      opCrandc, opCreqv, opCrnand, opCrnor, opCror, opCrorc, opCrxor, crLogic, opMcrf, opMcrxr,
      opMfcr, opMtcrf, xRA, xRB, dRA, xfxRT, xfxRS, field]
    infer_instance

/-- Branches and traps: no row fails an assertion. -/
theorem sound_branchRows : ∀ r ∈ branchRows, ∀ i, Sound (r.call i) := by
  simp only [branchRows, List.forall_mem_cons, List.not_mem_nil, false_imp_iff, implies_true,
    and_true]
  and_intros
  all_goals
    intro i
    simp only [Row.x, Row.xl, Row.d, opB, opBc, opBclr, opBcctr, opSc, opTw, opTwi, trapIf,
      branchTo, branchCTR, opUnk, xRA, xRB, dRA, field]
    infer_instance

/-- Loads: no row fails an assertion. -/
theorem sound_loadRows : ∀ r ∈ loadRows c, ∀ i, Sound (r.call i) := by
  simp only [loadRows, List.forall_mem_cons, List.not_mem_nil, false_imp_iff,
    implies_true, and_true]
  and_intros
  all_goals
    intro i
    simp only [Row.x, Row.d, argsLoadD, argsLoadX, opLbz, opLbzu, opLbzx, opLbzux, opLha, opLhau,
      opLhax, opLhaux, opLhbrx, opLhz, opLhzu, opLhzx, opLhzux, opLwbrx, opLwz, opLwzu, opLwzx,
      opLwzux, dRA, dRT, xRA, xRB, xRT, field]
    infer_instance

/-- Stores: no row fails an assertion. -/
theorem sound_storeRows : ∀ r ∈ storeRows c, ∀ i, Sound (r.call i) := by
  simp only [storeRows, List.forall_mem_cons, List.not_mem_nil, false_imp_iff,
    implies_true, and_true]
  and_intros
  all_goals
    intro i
    simp only [Row.x, Row.d, argsStoreD, argsStoreX, opStb, opStbu, opStbx, opStbux, opSth,
      opSthbrx, opSthu, opSthx, opSthux, opStw, opStwbrx, opStwu, opStwx, opStwux, dRA, dRS, xRA,
      xRB, xRS, field]
    infer_instance

/-- `lwarx` and `stwcx.`: no row fails an assertion. -/
theorem sound_reservationRows : ∀ r ∈ reservationRows c, ∀ i, Sound (r.call i) := by
  simp only [reservationRows, List.forall_mem_cons, List.not_mem_nil, false_imp_iff,
    implies_true, and_true]
  and_intros
  all_goals
    intro i
    simp only [Row.x, xRA0, xRB, xRT, xRS, field]
    infer_instance

/-- The fault of `icbi` is one of a translation. -/
instance sound_opIcbi {ra0 rb : Reg} [IsReg ra0] [IsReg rb] : Sound (opIcbi c ra0 rb) := by
  refine .seq inferInstance fun va => ?_
  refine .seq_of (Q := fun res _ => Mmu.FaultsIn (Mmu.TranslationFault false) res) inferInstance
    (translating_returns fun priv => Mmu.translateAddr_faults) fun res s e t hres h => ?_
  have hcheck : Sound (icbiCheck va res) := by
    unfold icbiCheck
    cases res with
    | ok _ => exact .pure ()
    | error f => exact .seq (Sound.raiseMem (.inl (hres _ rfl))) fun _ => inferInstance
  have hseq : Sound (icbiCheck va res >>= fun _ => incPC) := inferInstance
  exact hseq.out _ _ _ h

/-- Caches: no row fails an assertion. -/
theorem sound_cacheRows : ∀ r ∈ blockRows c ++ cacheRows c, ∀ i, Sound (r.call i) := by
  simp only [blockRows, cacheRows, List.forall_mem_append, List.forall_mem_cons, List.not_mem_nil,
    false_imp_iff, implies_true, and_true]
  and_intros
  all_goals
    intro i
    simp only [Row.x, Row.xPriv, argsBlock, opDcba, opDcbf, opDcbi, opDcbst, opDcbt, opDcbtst,
      opDcbz, opIcbt, cacheNop, touch, xRA0, xRB, field]
    infer_instance

/-- Multiple words and strings: no row fails an assertion. -/
theorem sound_multipleRows : ∀ r ∈ multipleRows c, ∀ i, Sound (r.call i) := by
  have hlmw {n : Reg} (h : IsReg n) (base : VA) : Sound (lmwLoop c (32 - n.toNat) n base) :=
    sound_lmwLoop (by have := BitVec.lt_def.mp h.lt; simp at this; omega) base
  have hstmw {n : Reg} (h : IsReg n) (base : VA) : Sound (stmwLoop c (32 - n.toNat) n base) :=
    sound_stmwLoop (by have := BitVec.lt_def.mp h.lt; simp at this; omega) base
  simp only [multipleRows, List.forall_mem_cons, List.not_mem_nil, false_imp_iff, implies_true,
    and_true]
  and_intros
  all_goals
    intro i
    simp only [Row.d, Row.xPriv, opLmw, opStmw, opLswi, opLswx, opStswi, opStswx, dRT, dRS, dRA0,
      xRT, xRS, xRA0, xRB, field]
  · exact .seq inferInstance fun _ => .seq (hlmw inferInstance _) fun _ => inferInstance
  · exact .seq inferInstance fun _ => .seq (hstmw inferInstance _) fun _ => inferInstance
  all_goals infer_instance

/-- Reads of special registers: no row fails an assertion. -/
theorem sound_specialRows : ∀ r ∈ specialRows, ∀ i, Sound (r.call i) := by
  have hspr {rt : Reg} (_ : IsReg rt) (spr : Reg) : Sound (sprTo rt spr mfsprCases) :=
    sound_sprTo sound_mfsprCases spr
  have htb {rt : Reg} (_ : IsReg rt) (spr : Reg) : Sound (sprTo rt spr tbCases) :=
    sound_sprTo sound_tbCases spr
  simp only [specialRows, List.forall_mem_cons, List.not_mem_nil, false_imp_iff, implies_true,
    and_true]
  and_intros
  all_goals
    intro i
    simp only [Row.x, Row.xl, Row.xfx, Row.xPriv, opEieio, opIsync, opSync, opMfmsr, opMfspr,
      opMftb, opDEBUG, opMfsr, opMfsrin, opTlbsync, xRT, xRA, xRB, xfxRT, xSR, field]
    first
      | infer_instance
      | exact hspr inferInstance _
      | exact htb inferInstance _

/-- The system's registers: no row fails an assertion. -/
theorem sound_systemRows : ∀ r ∈ systemRows, ∀ i,
    (r.xo = some 467 → isHighBat (xfxSpr i) = false) → Sound (r.call i) := by
  simp only [systemRows, List.forall_mem_cons, List.not_mem_nil, false_imp_iff, implies_true,
    and_true]
  refine ⟨?_, fun i h => ?_, ?_, ?_, ?_, ?_, ?_, ?_⟩
  case refine_2 =>
    simp only [Row.xfx, xfxRS, field]
    exact sound_opMtspr (h rfl)
  all_goals
    intro i _
    simp only [Row.xPriv, opMtmsr, opRfi, opMtsr, opMtsrin, opTlbie, opTlbiel, opTlbia, xRS, xRB,
      xSR, field]
    infer_instance

/-- **A word trips no check,** but for `mtspr` to a BAT register that the
MMU does not have. -/
theorem sound_decode {i : BitVec 32} (h : isMtsprHighBat i = false) : Sound (decode c i) := by
  unfold decode
  cases hrow : rowOf c i with
  | none => exact Sound.raisePROG _
  | some r =>
    obtain ⟨hr, hi⟩ := rowOf_mem hrow
    have hspr (hxo : r.xo = some 467) : isHighBat (xfxSpr i) = false := by
      have hword := isMtspr_of_accepts hr hi hxo
      rwa [isMtsprHighBat, hword, Bool.true_and] at h
    simp only [table, List.mem_append] at hr
    rcases hr with ((((((((((hr | hr) | hr) | hr) | hr) | hr) | hr) | hr) | hr) | hr) | hr) | hr
    · exact sound_arithmeticRows r hr i
    · exact sound_logicalRows r hr i
    · exact sound_condRegRows r hr i
    · exact sound_branchRows r hr i
    · exact sound_loadRows r hr i
    · exact sound_storeRows r hr i
    · exact sound_reservationRows r hr i
    · exact sound_cacheRows r (List.mem_append_left _ hr) i
    · exact sound_cacheRows r (List.mem_append_right _ hr) i
    · exact sound_multipleRows r hr i
    · exact sound_specialRows r hr i
    · exact sound_systemRows r hr i hspr

end

end MrIss
