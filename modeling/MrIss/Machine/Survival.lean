import MrIss.Machine.Atomic
/-!
# What reservations survive

The header of the interpreter says that an exception and any change of the
MMU's mappings end a reservation. Neither reaches the generation count, and
nothing sets the reservation before the first `lwarx`.
-/

namespace MrIss

open EarlyReturn Licence Run

/-- An exception, or a change of a mapping. -/
def Event.ends : Event → Bool
  | .exception _ | .mapping => true
  | _ => false

/-- The events since the latest `lwarx` that has read its word: the access
stands right before it. -/
def sinceCompleted : List Event → Option (List Event)
  | [] => none
  | .lwarx _ :: .access _ _ none :: _ => some []
  | e :: tr => (sinceCompleted tr).map (e :: ·)

/-- **Nothing is to be reserved:** no `lwarx` has been executed, or since the
latest that has completed there was an exception or a change of a mapping. -/
def Unreserved (tr : List Event) : Prop :=
  (∀ a, .lwarx a ∉ tr) ∨ ∃ since, sinceCompleted tr = some since ∧ ∃ e ∈ since, e.ends = true

/-- **No reservation survives:** `stwcx.` has performed no store where nothing
was to be reserved. -/
def NoneSurvives (tr : List Event) : Prop :=
  Stores (fun _ f pre => Performs f → ¬ Unreserved pre) tr

/-- Accesses and translations change nothing. -/
theorem unreserved_cons {e : Event} {tr : List Event} (hl : ∀ a, e ≠ .lwarx a)
    (he : e.ends = false) : Unreserved (e :: tr) ↔ Unreserved tr := by
  have hsince : sinceCompleted (e :: tr) = (sinceCompleted tr).map (e :: ·) := by
    cases e with
    | lwarx a => exact absurd rfl (hl a)
    | _ => rfl
  unfold Unreserved
  refine or_congr ?_ ?_
  · simp only [List.mem_cons, not_or]
    exact forall_congr' fun a => and_iff_right (hl a).symm
  · rw [hsince]
    cases sinceCompleted tr with
    | none => simp
    | some since => simp [he]

/-- **The pass from a state lets none survive:** where it decodes an `stwcx.`
and nothing is to be reserved, the registers of the reservation say so too,
or translation refuses the store. They say so unless, before the first
`lwarx`, they held the address and the count of revocations by chance, or,
after it, the address is that of the latest `lwarx`, completed or not, with
no `rfi` and no completed `stwcx.` since. -/
def DropsReservation (c : Config) (i : InterpState) (s : Machine) : Prop :=
  ∀ inst u, Decodes c s inst u → isStwcx inst = true → Unreserved u.trace →
    Licensed i u.trace (u.stwcxEA inst) →
      ∀ pa m, Mmu.translateAddr c (u.stwcxEA inst) false false u.cpu.isPrivileged u.mem ≠
        .ok (.ok pa) m

/-- A sufficient condition for it, computed: what is licensed is so by an
`lwarx` that has completed, with nothing since that ends reservations. -/
def dropsReservation (c : Config) (i : InterpState) (s : Machine) : Bool :=
  match decoded c s with
  | none => true
  | some (inst, u) =>
    !(isStwcx inst && decide (Licensed i u.trace (u.stwcxEA inst))) ||
      (sinceCompleted u.trace).any fun since => since.all fun e => !e.ends

theorem lwarx_of_sinceCompleted {tr since : List Event} (h : sinceCompleted tr = some since) :
    ∃ a, .lwarx a ∈ tr := by
  fun_induction sinceCompleted tr generalizing since with
  | case1 => cases h
  | case2 a => exact ⟨a, List.mem_cons_self⟩
  | case3 e tr _ ih =>
    obtain ⟨s, hs, -⟩ := Option.map_eq_some_iff.mp h
    obtain ⟨a, ha⟩ := ih hs
    exact ⟨a, List.mem_cons_of_mem _ ha⟩

theorem dropsReservation_spec {c : Config} {i : InterpState} {s : Machine}
    (h : dropsReservation c i s = true) : DropsReservation c i s := by
  intro inst u hdec hinst hun hlic
  rw [dropsReservation, hdec.decoded_eq] at h
  simp only [hinst, hlic, decide_true, Bool.and_self, Bool.not_true, Bool.false_or] at h
  obtain ⟨since, hsince, hall⟩ := (Option.any_eq_true ..).mp h
  rcases hun with hno | ⟨since', hsince', e, he, hends⟩
  · obtain ⟨a, ha⟩ := lwarx_of_sinceCompleted hsince
    exact absurd ha (hno a)
  · obtain rfl := Option.some.inj (hsince.symm.trans hsince')
    have := List.all_eq_true.mp hall e he
    rw [hends] at this
    cases this

/-- The registers of the reservation are in order where a word is decoded. -/
theorem Decodes.reserves {c : Config} {i : InterpState} {s u : Machine} {inst : BitVec 32}
    (h : Decodes c s inst u) (hs : s.Reserves i) : u.Reserves i := by
  obtain ⟨v, hv, rfl⟩ := h
  have hkeeps : Keeps (reserves_allows i).frame
      (translating true (Mmu.loadInst32 c s.cpu.user.pc)) :=
    (reserves_accessOps i).translating true _ fun _ => inferInstance
  have hvr : v.Reserves i := hkeeps.of_ok hv (hs.same ⟨rfl, rfl, rfl⟩ rfl)
  exact hvr.same ⟨rfl, rfl, rfl⟩ rfl

theorem pass_survives {c : Config} {i : InterpState} {s : Machine} (hres : s.Reserves i)
    (hdrop : DropsReservation c i s) (h : NoneSurvives s.trace) :
    NoneSurvives (pass c s).state.trace := by
  refine pass_stores (fun inst u hdec hinst hheld res m hst hf hun => ?_) h
  obtain ⟨pa, u', hgrant, -⟩ := grant_of_performs hst hf
  have hlic := ((hdec.reserves hres).toKeeping.reserved_iff _).mp hheld
  rw [Machine.accessed, Machine.translated, unreserved_cons (by simp) rfl,
    unreserved_cons (by simp) rfl] at hun
  exact hdrop inst u hdec hinst hun hlic pa u' hgrant

/-- **No reservation survives what ends it.** In every run of a machine that
is set up and booted, each of whose passes drops the reservation where
nothing is to be reserved: `stwcx.` performs no store before the first
`lwarx`, and none where since the latest completed `lwarx` an exception was
taken or a mapping was changed. -/
theorem none_survives (c : Config) (startAddr startMsr : Reg) (i : InterpState) (m : Mmu)
    (sys : Sys) {ls : List Label} {t : Machine}
    (hrun : Steps (fun s l t => Step c s l t ∧ (l ≠ .devices → DropsReservation c i s))
      (.boot startAddr startMsr i m sys) ls t) : NoneSurvives t.trace := by
  have hinv : t.Reserves i ∧ NoneSurvives t.trace := by
    refine hrun.invariant (I := fun t => t.Reserves i ∧ NoneSurvives t.trace)
      ⟨reserves_boot .., by exact .nil⟩ fun s l u ⟨hs, hnone⟩ ⟨hstep, hdrop⟩ => ?_
    refine ⟨reserves_step hs hstep, ?_⟩
    cases hstep with
    | pass hbreak hpass =>
      have := pass_survives hs (hdrop (by simp)) hnone
      rwa [hpass] at this
    | devices irq sys => exact hnone
  exact hinv.2

/-- Of three reservations one is ended by an exception, and is gone after
`rfi`; the others are stored with. -/
theorem none_survives_reserving : ∃ ls t,
    Steps (Step (.quiet .default)) (.boot 0x100 0 .zero .zero .reserving) ls t ∧
      t.trace.count .stwcx = 3 ∧ t.trace.count (.stwcxStore 0 none) = 2 ∧
        .exception .sc ∈ t.trace ∧ NoneSurvives t.trace := by
  have key : ((passesWhere (.quiet .default) (dropsReservation (.quiet .default) .zero) 8
      (.boot 0x100 0 .zero .zero .reserving)).any fun r =>
        decide (r.2.trace.count .stwcx = 3 ∧ r.2.trace.count (.stwcxStore 0 none) = 2 ∧
          .exception .sc ∈ r.2.trace)) = true := by decide +kernel
  obtain ⟨⟨ls, t⟩, hrun, htr⟩ := (Option.any_eq_true ..).mp key
  obtain ⟨hcompleted, hstored, hsc⟩ := of_decide_eq_true htr
  have hsteps := steps_of_passesWhere _ hrun
  refine ⟨ls, t, hsteps.imp fun _ _ _ h => h.1, hcompleted, hstored, hsc, ?_⟩
  exact none_survives (.quiet .default) 0x100 0 .zero .zero .reserving
    (hsteps.imp fun _ _ _ h => ⟨h.1, fun _ => dropsReservation_spec h.2⟩)

/-- `lwarx 4,0,0` and `mtsr 0,0`, and then `stwcx. 5,0,0`. The sample host
maps RAM at 0x10000000. -/
def Sys.remapping : Sys := .program 0x10000100 [0x7c, 0x80, 0x00, 0x28, 0x7c, 0x00, 0x01, 0xa4]
  [0x7c, 0xa0, 0x01, 0x2d]

/-- The reservation survives the change of a segment register. -/
theorem not_none_survives : ¬ ∀ ls t,
    Steps (Step (.quiet .default)) (.boot 0x100 0 .zero .zero .remapping) ls t →
      NoneSurvives t.trace := by
  intro hall
  let fetch : Event := .translate true false false 0
  let data : Event := .translate false false false 0
  let pre := [.access false 0 none, data, fetch, .mapping, fetch, .lwarx 0, .access true 0 none,
    data, fetch]
  have key : ((passes (.quiet .default) 3 (.boot 0x100 0 .zero .zero .remapping)).any fun r =>
      decide (r.2.trace = [.stwcx] ++ .stwcxStore 0 none :: pre)) = true := by
    decide +kernel
  obtain ⟨⟨ls, t⟩, hrun, htr⟩ := (Option.any_eq_true ..).mp key
  refine hall ls t (steps_of_passes _ hrun) _ _ _ _ (of_decide_eq_true htr) (.inl rfl) (.inr ?_)
  exact ⟨[.access false 0 none, data, fetch, .mapping, fetch], rfl, .mapping, by decide, rfl⟩

end MrIss
