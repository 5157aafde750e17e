import MrIss.Interp.Twin
/-!
# An exception is the last thing

`takeException` jumps back to the run loop where there is one to jump to. In
the interpreter's own loop there is none, and it returns: the rest of the
instruction is executed. There is no rest: whatever the instruction, it raises
at most one exception, and leaves the machine as `takeException` left it.
-/

namespace MrIss

open EarlyReturn

variable {s t u : Machine}

/-- No exception, or one that was the last thing. -/
def Machine.RaisesLast (s t : Machine) : Prop :=
  t.raised = s.raised ∨ ∃ (u : Machine) (e : Exception) (v : Reg), u.raised = s.raised ∧ t = u.enter e v

/-- The frame: a statement after which a routine goes on has raised nothing. -/
def lastFrame : Frame Machine where
  go s t := t.raised = s.raised
  leave := Machine.RaisesLast
  stop _ _ := True
  go_refl _ := rfl
  stop_refl _ := trivial
  go_go h h' := h'.trans h
  go_leave h h' := by
    obtain h' | ⟨u, e, v, hu, ht⟩ := h'
    · exact .inl (h'.trans h)
    · exact .inr ⟨u, e, v, hu.trans h, ht⟩
  go_stop _ _ := trivial

/-! ## The routines that raise exceptions -/

/-- What raises one exception, or ends the process. -/
def Enters (x : InterpM Unit) : Prop :=
  ∀ s, (∃ (u : Machine) (e : Exception) (v : Reg), x s = .ok () (u.enter e v) ∧
    u.raised = s.raised) ∨ ∃ e t, x s = .abort e t

theorem Enters.ends {x : InterpM Unit} (h : Enters x) : Ends lastFrame x where
  out s := by
    rcases h s with ⟨u, e, v, hx, hu⟩ | ⟨e, t, hx⟩
    · rw [hx]
      exact .inr ⟨u, e, v, hu, rfl⟩
    · rw [hx]
      trivial

theorem Enters.keeps {x : InterpM Unit} (h : Enters x) :
    Keeps lastFrame (do x; Prog.ret : InterpM Unit) where
  out s := by
    rcases h s with ⟨u, e, v, hx, hu⟩ | ⟨e, t, hx⟩
    · rw [Prog.bind_of_ok hx]
      exact .inr ⟨u, e, v, hu, rfl⟩
    · rw [Prog.bind_of_abort hx]
      trivial

theorem enters_mem (rnW inD : Bool) (addr : VA) (f : Fault) (inst : BitVec 32) :
    Enters (raiseMemException rnW inD addr f inst) := by
  intro s
  cases f with
  | noPage | perms =>
    cases inD with
    -- DAR and DSISR are written before
    | false => exact .inl ⟨s.setOs _, .dsi, _, rfl, rfl⟩
    | true => exact .inl ⟨s, .isi, _, rfl, rfl⟩
  | noSegment => exact .inr ⟨_, _, rfl⟩
  | permsNX =>
    cases inD with
    | false => exact .inr ⟨_, _, rfl⟩
    | true => exact .inl ⟨s, .isi, _, rfl, rfl⟩
  | align => exact .inl ⟨s.setOs _, .align, _, rfl, rfl⟩

theorem enters_prog (reason : Reg) : Enters (raisePROGException reason) := fun s =>
  .inl ⟨s, .prog, _, rfl, rfl⟩

/-! ## Every instruction -/

instance last_programOps : ProgramOps lastFrame where
  leave_refl _ := .inl rfl
  onUser _ _ := .modify fun _ => rfl
  simQuit := .modify fun _ => rfl
  translating _ _ hx := .seq inferInstance fun priv =>
    .zoom (hx priv) (fun _ _ _ => rfl) (fun _ _ _ => .inl rfl) fun _ _ _ => trivial
  accessed _ _ _ := .modify fun _ => rfl
  mfcheck rnW := by
    refine .seq inferInstance fun i => ?_
    split
    · infer_instance
    · exact Enters.keeps (enters_mem rnW false _ _ _)
  icbiCheck va res := by
    have hraise (f : Fault) := Enters.keeps (enters_mem true false va f 0)
    unfold icbiCheck
    infer_instance
  raisePROG reason := Enters.keeps (enters_prog reason)
  endsPROG reason := Enters.ends (enters_prog reason)
  endsSC := Enters.ends fun s => .inl ⟨s, .sc, _, rfl, rfl⟩

instance last_xerOps : XerOps lastFrame where
  setXER _ := .modify fun _ => rfl

instance last_systemOps : SystemOps lastFrame where
  onOs _ _ := .modify fun _ => rfl
  remap _ _ := .modify fun _ => rfl
  writeMSR _ := .modify fun _ => rfl

theorem last_record {e : Event} (he : e.isException = false) : Keeps lastFrame (record e) :=
  .modify fun s => by
    change ((e :: s.trace).filter Event.isException).length = _
    rw [List.filter_cons, he]
    rfl

instance last_blow : Keeps lastFrame blowReservation := .modify fun _ => rfl

instance last_reservationOps : ReservationOps lastFrame where
  opLwarx c ra0 rb eh rt := keeps_opLwarx (F := lastFrame) (fun _ => .modify fun _ => rfl)
    (fun _ => last_record rfl) ..
  opStwcx c rs ra0 rb := keeps_opStwcx (F := lastFrame) (fun _ => .modify fun _ => rfl)
    (fun e he => last_record (by cases e <;> first | rfl | cases he)) ..
  opRfi := by
    have hmsr := last_systemOps.writeMSR
    have hrec := last_record (e := .rfi) rfl
    unfold opRfi
    infer_instance

end MrIss
