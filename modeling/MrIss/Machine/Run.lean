import MrIss.Interp.Frame
import MrIss.Lib.Run
/-!
# The machine that `main` runs

The set-up, the loop that fetches and executes, and the runs of it. Between
two passes devices may raise or lower the interrupt line and use memory.
-/

namespace MrIss

open EarlyReturn Run

/-! ## Set-up -/

/-- `PPCCPUState::PPCCPUState`. The object is global, so that what it does
not set is zero. -/
def CpuState.construct : CpuState where
  user := ⟨fun _ => 0, 0, 0, 0, 0, 0⟩
  os :=
    { msr := 0, sprg0 := 0, sprg1 := 0, sprg2 := 0, sprg3 := 0, srr0 := 0, srr1 := 0, dar := 0
      dsisr := 0, dec := 0xffffffff, sdr1 := 0, hid0 := 0, hid1 := 0, pir := 0, tb := 0 }
  irqFlag := false
  cpuInstCount := 0

/-- `PPCInterpreter::PPCInterpreter`; `i` is what the memory held before. -/
def InterpState.construct (i : InterpState) : InterpState :=
  { i with wantBreak := false, memAccessFault := none, excGenerationCount := 0 }

/-- Memory that held zeroes. -/
def InterpState.zero : InterpState where
  pc := 0
  inst := 0
  wantBreak := false
  memAccessFault := none
  memAccessAddr := 0
  excGenerationCount := 0
  reservationAddress := 0
  reservationGencount := 0

/-- `set_initial_cpu_context`. -/
def setInitialCpuContext (startAddr startMsr : Reg) (p : CpuState) : CpuState :=
  { p with
    user := { p.user with pc := startAddr }
    os := { p.os with msr := startMsr, pir := 0 } }

/-- The machine before the first pass. -/
def Machine.boot (startAddr startMsr : Reg) (i : InterpState) (m : Mmu) (sys : Sys) : Machine where
  cpu := setInitialCpuContext startAddr startMsr .construct
  interp := i.construct
  mem := ⟨m.construct, sys⟩
  trace := []

/-! ## The loop -/

section

variable (c : Config)

/-- The end of a round of `execute`: the instruction, whose word is
returned, or the exception after which it fetches again. -/
def dispatch (pc : VA) : Except Fault (BitVec 32) → InterpM (Option (BitVec 32))
  | .error f => do
    raiseMemException true true pc f 0
    pure none
  | .ok inst => do
    Prog.modify fun s => { s with interp := { s.interp with inst := inst } }
    Prog.call (decode c inst)
    pure (some inst)

/-- A round of `execute`. -/
def execute : InterpM (Option (BitVec 32)) := do
  let pc ← getPC
  Prog.modify fun s => { s with interp := { s.interp with pc := pc } }
  let res ← translating true (Mmu.loadInst32 c pc)
  dispatch c pc res

/-- What follows an instruction in the loop of `main`. -/
def afterExecute : InterpM Unit := do
  Prog.modify fun s => { s with cpu := s.cpu.cpuTick 1 }
  let p ← Prog.gets Machine.cpu
  if p.isIRQPending then raiseIRQException
  else Prog.when p.isDecrementerPending raiseDECException

/-- A round, with what follows an instruction. -/
def pass : InterpM (Option (BitVec 32)) := do
  let inst ← execute c
  Prog.when inst.isSome afterExecute
  pure inst

/-! ## Runs -/

/-- What a step of a run does. -/
inductive Label where
  /-- A pass, with the word it executed. -/
  | pass (inst : Option (BitVec 32))
  | devices
  deriving DecidableEq, Repr

/-- The pass from a state decodes a word, in another state. -/
def Decodes (s : Machine) (inst : BitVec 32) (u : Machine) : Prop :=
  ∃ v, translating true (Mmu.loadInst32 c s.cpu.user.pc)
      { s with interp := { s.interp with pc := s.cpu.user.pc } } = .ok (.ok inst) v ∧
    u = { v with interp := { v.interp with inst := inst } }

/-- The word that the pass from a state decodes, and the state where it does. -/
def decoded (s : Machine) : Option (BitVec 32 × Machine) :=
  match translating true (Mmu.loadInst32 c s.cpu.user.pc)
      { s with interp := { s.interp with pc := s.cpu.user.pc } } with
  | .ok (.ok inst) v => some (inst, { v with interp := { v.interp with inst := inst } })
  | _ => none

variable {c} in
theorem Decodes.decoded_eq {s u : Machine} {inst : BitVec 32} (h : Decodes c s inst u) :
    decoded c s = some (inst, u) := by
  obtain ⟨v, hv, rfl⟩ := h
  rw [decoded, hv]

/-- The interrupt line and the system are as devices leave them. -/
def Machine.devices (s : Machine) (irq : Bool) (sys : Sys) : Machine :=
  { s with cpu := { s.cpu with irqFlag := irq }, mem := { s.mem with sys := sys } }

/-- The steps of a run; no pass follows a request to break. -/
inductive Step : Machine → Label → Machine → Prop where
  | pass {s t : Machine} {inst : Option (BitVec 32)} (hbreak : s.interp.wantBreak = false)
      (hpass : pass c s = .ok inst t) : Step s (.pass inst) t
  | devices {s : Machine} (irq : Bool) (sys : Sys) : Step s .devices (s.devices irq sys)

/-- A number of passes, with no device between them, from states that meet
a test. -/
def passesWhere (test : Machine → Bool) : ℕ → Machine → Option (List Label × Machine)
  | 0, s => some ([], s)
  | n + 1, s => do
    let (ls, t) ← passesWhere test n s
    match t.interp.wantBreak, test t, pass c t with
    | false, true, .ok inst u => some (ls ++ [.pass inst], u)
    | _, _, _ => none

/-- A number of passes. -/
def passes : ℕ → Machine → Option (List Label × Machine) := passesWhere c fun _ => true

variable {n : ℕ} {s t : Machine} {ls : List Label}

/-- Passes in a row are a run whose passes start where the test is met. -/
theorem steps_of_passesWhere {test : Machine → Bool} (h : passesWhere c test n s = some (ls, t)) :
    Steps (fun s l t => Step c s l t ∧ test s = true) s ls t := by
  induction n generalizing ls t with
  | zero =>
    cases h
    exact .nil
  | succ n ih =>
    obtain ⟨⟨ls', u⟩, hu, hlast⟩ := Option.bind_eq_some_iff.mp h
    dsimp only at hlast
    split at hlast
    case h_1 inst v hbreak htest hpass =>
      cases hlast
      exact .snoc (ih hu) ⟨.pass hbreak hpass, htest⟩
    case h_2 => cases hlast

/-- Passes in a row are a run. -/
theorem steps_of_passes (h : passes c n s = some (ls, t)) : Steps (Step c) s ls t :=
  (steps_of_passesWhere c h).imp fun _ _ _ h => h.1

end

/-! ## Frames of a pass -/

namespace Allows

variable {R : Machine → Machine → Prop} (h : Allows R) {c : Config}

theorem keeps_afterExecute : Keeps h.frame afterExecute := by
  have hirq : Keeps h.frame raiseIRQException := h.raise (by decide) id
  have hdec : Keeps h.frame raiseDECException := h.raise (by decide) id
  exact .seq (.modify fun s => h.tick s _) fun _ => inferInstance

include h in
/-- **A pass from a state** is in a relation if the word is that it decodes,
executed where it is decoded. -/
theorem pass_state (s : Machine)
    (hdec : ∀ inst u, Decodes c s inst u → R u (decode c inst u).state) :
    R s (pass c s).state := by
  have hops := h.accessOps
  have hraise := h.raiseMem
  have hafter := h.keeps_afterExecute
  suffices hexec : R s (execute c s).state from
    h.trans hexec (h.state_bind (fun inst => inferInstance) s)
  let pc := s.cpu.user.pc
  let s₁ : Machine := { s with interp := { s.interp with pc := pc } }
  have hs₁ : R s s₁ := h.fetched s pc s.interp.inst
  have htr : Keeps h.frame (translating true (Mmu.loadInst32 c pc)) :=
    hops.translating true (Mmu.loadInst32 c pc) fun _ => inferInstance
  change R s ((translating true (Mmu.loadInst32 c pc) >>= dispatch c pc) s₁).state
  rw [Prog.bind_apply]
  cases hx : translating true (Mmu.loadInst32 c pc) s₁ with
  | ret v => exact h.trans hs₁ (htr.of_ret hx)
  | abort e v => exact h.trans hs₁ (htr.of_abort hx)
  | ok res v =>
    refine h.trans hs₁ (h.trans (htr.of_ok hx) ?_)
    cases res with
    | error f =>
      have hraised : Keeps h.frame (dispatch c pc (.error f)) := .seq (hraise ..) fun _ => .pure _
      exact hraised.state v
    | ok inst =>
      let u : Machine := { v with interp := { v.interp with inst := inst } }
      have hu : R u (Prog.call (decode c inst) u).state := by
        rw [Prog.call_state]
        exact hdec inst u ⟨v, hx, rfl⟩
      refine h.trans (h.fetched v v.interp.pc inst) (h.trans hu ?_)
      exact h.state_bind (f := fun _ => pure (some inst)) (fun _ => .pure _) u

variable (hprog : ∀ s v, R s (s.enter .prog v)) [XerOps h.frame] [SystemOps h.frame]
  [ReservationOps h.frame]
include hprog

theorem keeps_dispatch (pc : VA) (res : Except Fault (BitVec 32)) :
    Keeps h.frame (dispatch c pc res) := by
  have hops := h.programOps hprog
  have hraise := h.raiseMem
  have hdecode (inst : BitVec 32) : Keeps h.frame (Prog.call (decode c inst)) :=
    (ends_decode c inst).call fun hr => hr
  unfold dispatch
  split
  · infer_instance
  · exact .seq (.modify fun s => h.fetched s _ _) fun _ => inferInstance

/-- **What every instruction keeps, every pass keeps.** -/
theorem keeps_pass : Keeps h.frame (pass c) := by
  have hops := h.programOps hprog
  have hdispatch := h.keeps_dispatch (c := c) hprog
  have hafter := h.keeps_afterExecute
  have hexec : Keeps h.frame (execute c) := .seq inferInstance fun pc =>
    .seq (.modify fun s => h.fetched s _ _) fun _ =>
    .seq (hops.translating true (Mmu.loadInst32 c pc) fun _ => inferInstance) fun _ =>
    inferInstance
  unfold pass
  infer_instance

end Allows

/-! ## The trace -/

/-- The trace only grows. -/
theorem grows_allows : Allows fun s t => s.trace <:+ t.trace where
  refl _ := List.suffix_rfl
  trans := List.IsSuffix.trans
  user _ _ _ := List.suffix_rfl
  quit _ := List.suffix_rfl
  translated _ _ _ _ := List.suffix_cons _ _
  accessed _ _ _ _ := List.suffix_cons _ _
  os _ _ _ := List.suffix_rfl
  enter _ _ _ _ := List.suffix_cons _ _
  fetched _ _ _ := List.suffix_rfl
  tick _ _ := List.suffix_rfl

instance grows_xerOps : XerOps grows_allows.frame :=
  grows_allows.xerOps fun _ _ => List.suffix_rfl

instance grows_systemOps : SystemOps grows_allows.frame :=
  grows_allows.systemOps (fun _ _ _ => List.suffix_cons _ _) fun _ _ => List.suffix_rfl

instance grows_reservationOps : ReservationOps grows_allows.frame :=
  grows_allows.reservationOps grows_systemOps (fun _ _ => List.suffix_rfl)
    fun _ _ _ => List.suffix_cons _ _

theorem grows_prog (s : Machine) (v : Reg) : s.trace <:+ (s.enter .prog v).trace :=
  List.suffix_cons _ _

/-- What has been added to the trace is of a kind. -/
def Machine.Adds (P : Event → Prop) (s t : Machine) : Prop :=
  ∃ evs, t.trace = evs ++ s.trace ∧ ∀ e ∈ evs, P e

namespace Machine.Adds

variable {P : Event → Prop}

theorem of_eq {s t : Machine} (h : t.trace = s.trace) : s.Adds P t :=
  ⟨[], h, List.forall_mem_nil _⟩

theorem cons {s t : Machine} {e : Event} (h : t.trace = e :: s.trace) (he : P e) : s.Adds P t :=
  ⟨[e], h, List.forall_mem_singleton.mpr he⟩

theorem trans {s t u : Machine} (h : s.Adds P t) (h' : t.Adds P u) : s.Adds P u := by
  obtain ⟨evs, ht, hP⟩ := h
  obtain ⟨evs', hu, hP'⟩ := h'
  refine ⟨evs' ++ evs, by rw [hu, ht, List.append_assoc], fun e he => ?_⟩
  rcases List.mem_append.mp he with he | he
  · exact hP' e he
  · exact hP e he

/-- Every statement adds translations, accesses and exceptions. -/
theorem allows (htr : ∀ inD i d msr, P (.translate inD i d msr))
    (hacc : ∀ rnW addr fault, P (.access rnW addr fault)) (hexc : ∀ e ≠ .prog, P (.exception e)) :
    Allows (Machine.Adds P) where
  refl _ := of_eq rfl
  trans := trans
  user _ _ _ := of_eq rfl
  quit _ := of_eq rfl
  translated _ _ _ _ := cons rfl (htr ..)
  accessed _ _ _ _ := cons rfl (hacc ..)
  os _ _ _ := of_eq rfl
  enter _ e _ he := cons rfl (hexc e he)
  fetched _ _ _ := of_eq rfl
  tick _ _ := of_eq rfl

end Machine.Adds

theorem translating_state {α : Type} (inD : Bool) (x : Bool → MmuM α) (s : Machine) :
    ∃ m, (translating inD x s).state = s.translated inD m := by
  have hrun : translating inD x s = Prog.zoom Machine.mem
    (fun s t => s.translated inD t) (x s.cpu.isPrivileged) s := rfl
  rw [hrun, Prog.zoom]
  cases x s.cpu.isPrivileged s.mem with
  | ok a m | ret m | abort e m => exact ⟨m, rfl⟩

/-- **A pass translates the address it fetches from.** -/
theorem translate_mem_pass (c : Config) (s : Machine) :
    .translate true s.mem.mmu.enabledI s.mem.mmu.enabledD s.cpu.os.msr ∈
      (pass c s).state.trace := by
  have hafter := grows_allows.keeps_afterExecute
  have hdispatch := grows_allows.keeps_dispatch (c := c) grows_prog
  have hpass : (execute c s).state.trace <:+ (pass c s).state.trace :=
    grows_allows.state_bind (fun inst => inferInstance) s
  -- the fetch comes after the interpreter's copy of PC is set
  let s₁ : Machine := { s with interp := { s.interp with pc := s.cpu.user.pc } }
  have hexec : (translating true (Mmu.loadInst32 c s.cpu.user.pc) s₁).state.trace <:+
      (execute c s).state.trace :=
    grows_allows.state_bind (hdispatch s.cpu.user.pc) s₁
  obtain ⟨m, hm⟩ := translating_state true (Mmu.loadInst32 c s.cpu.user.pc) s₁
  rw [hm] at hexec
  exact hpass.subset (hexec.subset (List.mem_cons_self ..))

end MrIss
