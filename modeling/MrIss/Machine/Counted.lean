import MrIss.Machine.Fetch
/-!
# The count of instructions

No instruction changes the count: the loop of `main` adds one for each that
it has executed, whether it raised an exception or not, and none where the
fetch faulted.
-/

namespace MrIss

open EarlyReturn Run

/-- Two states of one count. -/
def Machine.SameCount (s t : Machine) : Prop := t.cpu.cpuInstCount = s.cpu.cpuInstCount

theorem Machine.SameCount.refl (s : Machine) : s.SameCount s := rfl

theorem Machine.SameCount.trans {s t u : Machine} (h : s.SameCount t) (h' : t.SameCount u) :
    s.SameCount u := Eq.trans h' h

theorem Machine.sameCount_enter (s : Machine) (e : Exception) (v : Reg) :
    s.SameCount (s.enter e v) := rfl

/-- The frame of the count. -/
abbrev tallyFrame : Frame Machine := .always Machine.SameCount .refl .trans

/-! ## Nothing that an instruction does counts -/

theorem count_raise (e : Exception) (f : Reg → Reg) : Keeps tallyFrame (do
    let srr1 ← Prog.gets (·.cpu.os.msr)
    takeException e (f srr1)) :=
  .seq inferInstance fun _ => .modify fun s => s.sameCount_enter e _

theorem count_raiseMem (rnW inD : Bool) (addr : VA) (fault : Fault) (inst : BitVec 32) :
    Keeps tallyFrame (raiseMemException rnW inD addr fault inst) := by
  have hisi (cause : Reg) : Keeps tallyFrame (raiseISI cause) := count_raise _ _
  have hdar (dsisr : Reg) : Keeps tallyFrame
      (onOs fun o => { o with dar := addr, dsisr := dsisr }) := .modify fun _ => rfl
  have henter (e : Exception) (v : Reg) : Keeps tallyFrame (takeException e v) :=
    .modify fun s => s.sameCount_enter e v
  have hdsi (cause : Reg) : Keeps tallyFrame (raiseDSI rnW addr cause) :=
    .seq inferInstance fun _ => .seq (hdar _) fun _ => henter .dsi _
  unfold raiseMemException
  split
  · infer_instance
  · infer_instance
  · infer_instance
  · exact .seq inferInstance fun _ => .seq (hdar _) fun _ => henter .align _
  · infer_instance

instance tally_accessOps : AccessOps tallyFrame where
  leave_refl := .refl
  onUser _ _ := .modify fun _ => rfl
  simQuit := .modify fun _ => rfl
  translating _ _ hx := .seq inferInstance fun priv =>
    .zoom (hx priv) (fun _ _ _ => rfl) (fun _ _ _ => rfl) fun _ _ _ => rfl
  accessed _ _ _ := .modify fun _ => rfl
  mfcheck rnW := by
    have hraise := count_raiseMem
    refine .seq inferInstance fun i => ?_
    split
    · infer_instance
    · exact .seq inferInstance fun _ => .ret .refl
  icbiCheck va res := by
    have hraise := count_raiseMem
    have hret : Keeps tallyFrame (Prog.ret : InterpM Unit) := .ret .refl
    unfold icbiCheck
    infer_instance

instance tally_programOps : ProgramOps tallyFrame :=
  have hraise (reason : Reg) : Keeps tallyFrame (raisePROGException reason) :=
    .seq inferInstance fun _ => .modify fun s => s.sameCount_enter .prog _
  { tally_accessOps with
    raisePROG := fun reason => .seq (hraise reason) fun _ => .ret .refl
    endsPROG := fun reason => .of_keeps (hraise reason) .refl
    endsSC := .of_keeps (count_raise .sc id) .refl }

instance tally_xerOps : XerOps tallyFrame where
  setXER _ := .modify fun _ => rfl

instance tally_systemOps : SystemOps tallyFrame where
  onOs _ _ := .modify fun _ => rfl
  remap _ _ := .modify fun _ => rfl
  writeMSR _ := ⟨fun _ => rfl⟩

instance tally_reservationOps : ReservationOps tallyFrame := by
  have hmod (f : Machine → InterpState) : Keeps tallyFrame
      (Prog.modify fun s => { s with interp := f s } : InterpM Unit) := .modify fun _ => rfl
  have hrec (e : Event) : Keeps tallyFrame (record e) := .modify fun _ => rfl
  refine ⟨fun _ _ _ _ _ => keeps_opLwarx hmod (fun _ => hrec _) ..,
    fun _ _ _ _ => keeps_opStwcx hmod (fun _ _ => hrec _) .., ?_⟩
  have hblow : Keeps tallyFrame blowReservation := hmod _
  have hdone := hrec .rfi
  have hmsr := tally_systemOps.writeMSR
  unfold opRfi
  infer_instance

/-- **No instruction changes the count.** -/
theorem count_call (c : Config) (inst : BitVec 32) :
    Keeps tallyFrame (Prog.call (decode c inst)) := (ends_decode c inst).call fun hr => hr

/-! ## Runs of the interpreter -/

theorem count_execute (c : Config) : Keeps tallyFrame (execute c) := by
  have hraise := count_raiseMem
  have hdispatch (pc : VA) (res : Except Fault (BitVec 32)) :
      Keeps tallyFrame (dispatch c pc res) := by
    have hcall := count_call c
    unfold dispatch
    split
    · infer_instance
    · exact .seq (.modify fun _ => rfl) fun _ => inferInstance
  exact .seq inferInstance fun pc => .seq (.modify fun _ => rfl) fun _ =>
    .seq (tally_accessOps.translating true (Mmu.loadInst32 c pc) fun _ => inferInstance) fun _ =>
    inferInstance

/-- The interrupts between two instructions. -/
theorem count_interrupts : Keeps tallyFrame (do
    let p ← Prog.gets Machine.cpu
    if p.isIRQPending then raiseIRQException
    else Prog.when p.isDecrementerPending raiseDECException : InterpM Unit) := by
  have hirq : Keeps tallyFrame raiseIRQException := count_raise .irq id
  have hdec : Keeps tallyFrame raiseDECException := count_raise .dec id
  infer_instance

theorem count_afterExecute {s t : Machine} (h : afterExecute s = .ok () t) :
    t.cpu.cpuInstCount = s.cpu.cpuInstCount + 1 := by
  let u : Machine := { s with cpu := s.cpu.cpuTick 1 }
  exact count_interrupts.of_ok (s := u) h

/-- What a pass counts. -/
theorem count_pass {c : Config} {s t : Machine} {inst : Option (BitVec 32)}
    (h : pass c s = .ok inst t) :
    t.cpu.cpuInstCount = s.cpu.cpuInstCount + if inst.isSome then 1 else 0 := by
  obtain ⟨inst', u, hexec, h⟩ := Prog.bind_eq_ok h
  have hu : u.cpu.cpuInstCount = s.cpu.cpuInstCount := (count_execute c).of_ok hexec
  obtain ⟨⟨⟩, v, hafter, h⟩ := Prog.bind_eq_ok h
  cases h
  cases inst with
  | none =>
    cases hafter
    rw [hu]
    exact (BitVec.add_zero _).symm
  | some w =>
    rw [count_afterExecute hafter, hu]
    rfl

/-- What a step of a run executes. -/
def Label.executed : Label → ℕ
  | .pass (some _) => 1
  | _ => 0

theorem count_step {c : Config} {s t : Machine} {l : Label} (h : Step c s l t) :
    t.cpu.cpuInstCount = s.cpu.cpuInstCount + BitVec.ofNat 64 l.executed := by
  cases h with
  | pass hbreak hpass =>
    rename_i inst
    rw [count_pass hpass]
    cases inst with
    | none => rfl
    | some w => rfl
  | devices irq sys => exact (BitVec.add_zero _).symm

/-- **The count of a run** is the number of its passes that executed an
instruction, those that raised an exception among them. -/
theorem count_of_run {c : Config} {s t : Machine} {ls : List Label}
    (h : Steps (Step c) s ls t) :
    t.cpu.cpuInstCount = s.cpu.cpuInstCount + BitVec.ofNat 64 (ls.map Label.executed).sum := by
  induction h with
  | nil => exact (BitVec.add_zero _).symm
  | snoc _ last ih =>
    rw [count_step last, ih, List.map_append, List.sum_append, BitVec.ofNat_add,
      BitVec.add_assoc]
    rfl

/-- Of four passes, the fetch of one faults, where translation has been turned
on with no page to fetch from. -/
theorem count_of_run_unmapped : ∃ ls t,
    Steps (Step (.quiet .default)) (.boot 0x100 0 .zero .zero .turnsOn) ls t ∧
      ls.length = 4 ∧ t.cpu.cpuInstCount = 3 := by
  have key : ((passes (.quiet .default) 4 (.boot 0x100 0 .zero .zero .turnsOn)).any fun r =>
      decide (r.1.length = 4 ∧ (r.1.map Label.executed).sum = 3)) = true := by
    decide +kernel
  obtain ⟨⟨ls, t⟩, hrun, hr⟩ := (Option.any_eq_true ..).mp key
  obtain ⟨hlen, hsum⟩ := of_decide_eq_true hr
  refine ⟨ls, t, steps_of_passes _ hrun, hlen, ?_⟩
  rw [count_of_run (steps_of_passes _ hrun), hsum]
  rfl

end MrIss
