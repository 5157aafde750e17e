import MrIss.Machine.Reservation
/-!
# The stores of `stwcx.`

What a pass adds to the stores that `stwcx.` has called: nothing, unless it
decodes one whose reservation holds.
-/

namespace MrIss

open EarlyReturn

variable {P : VA → Option Fault → List Event → Prop} {c : Config}

/-- Statements that call no store of `stwcx.`. -/
theorem stores_allows : Allows fun s t => Stores P s.trace → Stores P t.trace where
  refl _ h := h
  trans h h' := h' ∘ h
  user _ _ _ h := h
  quit _ h := h
  translated _ _ _ _ h := h.cons fun _ _ heq => by cases heq
  accessed _ _ _ _ h := h.cons fun _ _ heq => by cases heq
  os _ _ _ h := h
  enter _ _ _ _ h := h.cons fun _ _ heq => by cases heq
  fetched _ _ _ h := h
  tick _ _ h := h

instance stores_programOps : ProgramOps (stores_allows (P := P)).frame :=
  stores_allows.programOps fun _ _ h => h.cons fun _ _ heq => by cases heq

instance stores_xerOps : XerOps (stores_allows (P := P)).frame :=
  stores_allows.xerOps fun _ _ h => h

instance stores_systemOps : SystemOps (stores_allows (P := P)).frame :=
  stores_allows.systemOps (fun _ _ _ h => h.cons fun _ _ heq => by cases heq) fun _ _ h => h

theorem stores_record {e : Event} (he : ∀ addr f, e ≠ .stwcxStore addr f) :
    Keeps (stores_allows (P := P)).frame (record e) :=
  .modify fun _ h => h.cons fun addr f heq => absurd heq (he addr f)

instance stores_blow : Keeps (stores_allows (P := P)).frame blowReservation :=
  .modify fun _ h => h

instance stores_opRfi : Keeps (stores_allows (P := P)).frame opRfi := by
  have hmsr := (stores_systemOps (P := P)).writeMSR
  have hrec := stores_record (P := P) (e := .rfi) (by simp)
  unfold opRfi
  infer_instance

instance stores_completeStwcx (stored : Bool) (so : Reg) :
    Keeps (stores_allows (P := P)).frame (completeStwcx stored so) := by
  have hrec := stores_record (P := P) (e := .stwcx) (by simp)
  unfold completeStwcx
  infer_instance

/-- The store of `stwcx.` from a state, whatever it returns. -/
theorem condStore_stores {u : Machine} (base : VA) (v : Reg) (hu : Stores P u.trace)
    (hst : ∀ res m, Mmu.store c .word base v u.cpu.isPrivileged u.mem = .ok res m →
      P base (faultOf res)
        ((u.translated false m).accessed false base (faultOf res)).trace) :
    Triple (fun s => s = u) (condStore c base v) (fun _ t => Stores P t.trace)
      (fun t => Stores P t.trace) fun _ t => Stores P t.trace := by
  rintro s rfl
  rw [condStore, Prog.bind_apply, storeX_apply]
  have htr (m : Mem) : Stores P (s.translated false m).trace :=
    hu.cons fun _ _ heq => by cases heq
  cases hrun : Mmu.store c .word base v s.cpu.isPrivileged s.mem with
  | ret m => exact htr m
  | abort e m => exact htr m
  | ok res m =>
    let t := (s.translated false m).accessed false base (faultOf res)
    have ht : Stores P t.trace := (htr m).cons fun _ _ heq => by cases heq
    let w : Machine := { t with trace := .stwcxStore base (faultOf res) :: t.trace }
    have hw : Stores P w.trace := ht.cons fun addr f heq => by
      cases heq
      exact hst res m hrun
    exact Triple.of_keeps (stores_programOps.mfcheck false) w hw

/-- **What a pass does to the stores of `stwcx.`:** it is enough to look at
the one that it may decode, from where it is decoded. -/
theorem pass_stores {s : Machine}
    (hst : ∀ inst u, Decodes c s inst u → isStwcx inst = true → u.stwcxReserved inst = true →
      ∀ res m, Mmu.store c .word (u.stwcxEA inst) (u.gpr (xRS inst)) u.cpu.isPrivileged u.mem =
        .ok res m → P (u.stwcxEA inst) (faultOf res)
          ((u.translated false m).accessed false (u.stwcxEA inst) (faultOf res)).trace)
    (h : Stores P s.trace) : Stores P (pass c s).state.trace := by
  refine stores_allows.pass_state s (fun inst u hdec hu => ?_) h
  cases hinst : isStwcx inst with
  | true =>
    rw [decode_stwcx_apply c hinst]
    have hrun : Triple (fun t => t = u) (do
        Prog.when (u.stwcxReserved inst) (condStore c (u.stwcxEA inst) (u.gpr (xRS inst)))
        completeStwcx (u.stwcxReserved inst) u.cpu.user.getXERSO : InterpM Unit)
        (fun _ t => Stores P t.trace) (fun t => Stores P t.trace)
        fun _ t => Stores P t.trace := by
      refine .bind (Q := fun _ t => Stores P t.trace) ?_ fun _ =>
        Triple.of_keeps (stores_completeStwcx ..)
      cases hres : u.stwcxReserved inst with
      | true => exact condStore_stores _ _ hu (hst inst u hdec hinst hres)
      | false =>
        refine .pure fun t ht => ?_
        rw [ht]
        exact hu
    have hout := hrun u rfl
    cases hx : (do
        Prog.when (u.stwcxReserved inst) (condStore c (u.stwcxEA inst) (u.gpr (xRS inst)))
        completeStwcx (u.stwcxReserved inst) u.cpu.user.getXERSO : InterpM Unit) u <;>
      rw [hx] at hout <;> exact hout
  | false =>
    suffices hends : Ends (stores_allows (P := P)).frame (decode c inst) from hends.state u hu
    unfold decode
    cases hrow : rowOf c inst with
    | none => exact stores_programOps.endsPROG _
    | some r =>
      obtain ⟨hr, hi⟩ := rowOf_mem hrow
      refine ends_rows stores_opRfi r hr (fun hres => ?_) (fun _ => inferInstance) fun _ =>
        keeps_opMtspr (fun _ => stores_xerOps.setXER) _
      rw [reservation_row hres hi hinst]
      exact keeps_opLwarx (fun _ => .modify fun _ h => h) (fun _ => stores_record (by simp)) ..

end MrIss
