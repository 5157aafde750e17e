import MrIss.Mmu.Run
import MrIss.Mmu.Sound
/-!
# A translation walks once

`translateAddr` goes back to its label `do_lookup` where an entry refuses
a store for its C bit alone. `DoLookup` and `TranslateAddr` are that loop
with nothing to bound it, and with the number of times that it calls
`translateEA`. Whatever the MMU and memory hold, the loop ends, and the
number is at most one.
-/

namespace MrIss

open EarlyReturn Run

/-! ## Statements that do not return early -/

/-- The frame of statements that go on, or end the process. -/
def goesOn {σ : Type} : Frame σ where
  go _ _ := True
  leave _ _ := False
  stop _ _ := True
  go_refl _ := trivial
  stop_refl _ := trivial
  go_go _ _ := trivial
  go_leave _ h := h
  go_stop _ _ := trivial

/-- A statement goes on, or ends the process. -/
abbrev GoesOn {ε σ α : Type} (x : Prog ε σ α) : Prop := Keeps goesOn x

namespace Bus

variable {m : IoModel} {bus : Bus} {addr : PA}

instance goesOn_modify {σ : Type} (f : σ → σ) : GoesOn (Prog.modify f : Prog Abort σ Unit) :=
  .modify fun _ => trivial

instance goesOn_ioAccess (a : IoAccess) : GoesOn (ioAccess m a) := by
  unfold ioAccess
  refine .seq inferInstance fun _ => .seq inferInstance fun o => ?_
  split <;> infer_instance

instance goesOn_getDev : GoesOn (bus.getDev addr) := by
  have hdev (i : ℕ) : GoesOn (match bus[i]? with
      | some d => pure d.dev
      | none => Prog.abort (.busMiss addr) : SysM Device) := by
    split <;> infer_instance
  refine .seq inferInstance fun i => ?_
  dsimp only
  split_ifs
  · infer_instance
  · split <;> infer_instance

instance goesOn_read32 : GoesOn (bus.read32 m addr) := by
  unfold read32
  refine .seq inferInstance fun d => ?_
  split
  · exact .gets _
  · infer_instance

instance goesOn_write32 (v : BitVec 32) : GoesOn (bus.write32 m addr v) := by
  unfold write32
  refine .seq inferInstance fun d => ?_
  split
  · exact .when
  · exact .seq inferInstance fun _ => .pure _

instance goesOn_getDirectMap : GoesOn (bus.getDirectMap addr) := by
  unfold getDirectMap
  refine .seq inferInstance fun d => ?_
  split <;> infer_instance

end Bus

namespace Mmu

variable {c : Config} {addr : VA} {inD rnW priv : Bool}

instance goesOn_onBus {α : Type} {x : SysM α} [h : GoesOn x] : GoesOn (onBus x) :=
  .zoom h (fun _ _ _ => trivial) (fun _ _ h => h) fun _ _ _ => trivial

instance goesOn_utlbInsert (pa : PA) (perms : MmuPerms) :
    GoesOn (utlbInsert c inD priv addr pa perms) := by
  unfold utlbInsert
  infer_instance

instance goesOn_findPte : GoesOn (findPte c addr) := by
  unfold findPte
  infer_instance

instance goesOn_translateEA : GoesOn (translateEA c addr inD rnW priv) := by
  unfold translateEA
  refine .seq inferInstance fun m => ?_
  split
  · infer_instance
  · split
    · split <;> infer_instance
    · split
      · infer_instance
      · refine .seq inferInstance fun o => ?_
        split
        · infer_instance
        · refine .seq inferInstance fun pteh => ?_
          dsimp only
          split <;> infer_instance

/-- A walk does not return early. -/
theorem translateEA_goes_on (c : Config) (addr : VA) (inD rnW priv : Bool) (s : Mem) :
    (∃ res t, translateEA c addr inD rnW priv s = .ok res t) ∨
      ∃ e t, translateEA c addr inD rnW priv s = .abort e t := by
  have hgoes : GoesOn (translateEA c addr inD rnW priv) := inferInstance
  have hout := hgoes.out s
  cases hx : translateEA c addr inD rnW priv s with
  | ok res t => exact .inl ⟨res, t, rfl⟩
  | ret t => rw [hx] at hout; exact hout.elim
  | abort e t => exact .inr ⟨e, t, rfl⟩

/-! ## The loop -/

section

variable (c : Config) (addr : VA) (inD rnW priv : Bool)

/-- **`translateAddr` from its label `do_lookup` on:** from a state, with a
number of calls of `translateEA`, to how it ends. -/
inductive DoLookup : Mem → ℕ → Out Abort Mem (Except Fault HVA) → Prop where
  /-- The walk ends the process. -/
  | ended {s t : Mem} {e : Abort} (hwalk : translateEA c addr inD rnW priv s = .abort e t) :
      DoLookup s 1 (.abort e t)
  | fault {s t : Mem} {f : Fault} (hwalk : translateEA c addr inD rnW priv s = .ok (.error f) t) :
      DoLookup s 1 (.ok (.error f) t)
  /-- The entry that the walk inserted is not found. -/
  | missed {s t : Mem} {r : PA × MmuPerms}
      (hwalk : translateEA c addr inD rnW priv s = .ok (.ok r) t)
      (hl : t.mmu.utlbLookup inD priv addr = none) :
      DoLookup s 1 (.abort (.tlbMissAfterInsert addr) t)
  | granted {s t : Mem} {r : PA × MmuPerms} {h : HVA} {p : MmuPerms}
      (hwalk : translateEA c addr inD rnW priv s = .ok (.ok r) t)
      (hl : t.mmu.utlbLookup inD priv addr = some (h, p))
      (hp : checkPerms c.build p rnW inD = true) : DoLookup s 1 (.ok (.ok h) t)
  | denied {s t : Mem} {r : PA × MmuPerms} {h : HVA} {p : MmuPerms}
      (hwalk : translateEA c addr inD rnW priv s = .ok (.ok r) t)
      (hl : t.mmu.utlbLookup inD priv addr = some (h, p))
      (hp : checkPerms c.build p rnW inD = false)
      (hc : checkFaultWasCleanliness c.build p rnW inD = false) :
      DoLookup s 1 (.ok (.error .perms) t)
  /-- Back to the label. -/
  | again {s t : Mem} {r : PA × MmuPerms} {h : HVA} {p : MmuPerms} {n : ℕ}
      {o : Out Abort Mem (Except Fault HVA)}
      (hwalk : translateEA c addr inD rnW priv s = .ok (.ok r) t)
      (hl : t.mmu.utlbLookup inD priv addr = some (h, p))
      (hp : checkPerms c.build p rnW inD = false)
      (hc : checkFaultWasCleanliness c.build p rnW inD = true)
      (rest : DoLookup t n o) : DoLookup s (n + 1) o

/-- **`translateAddr`,** with the number of its calls of `translateEA`. -/
inductive TranslateAddr (s : Mem) : ℕ → Out Abort Mem (Except Fault HVA) → Prop where
  | miss {n : ℕ} {o : Out Abort Mem (Except Fault HVA)}
      (hl : s.mmu.utlbLookup inD priv addr = none)
      (loop : DoLookup c addr inD rnW priv s n o) : TranslateAddr s n o
  | granted {h : HVA} {p : MmuPerms} (hl : s.mmu.utlbLookup inD priv addr = some (h, p))
      (hp : checkPerms c.build p rnW inD = true) : TranslateAddr s 0 (.ok (.ok h) s)
  | denied {h : HVA} {p : MmuPerms} (hl : s.mmu.utlbLookup inD priv addr = some (h, p))
      (hp : checkPerms c.build p rnW inD = false)
      (hc : checkFaultWasCleanliness c.build p rnW inD = false) :
      TranslateAddr s 0 (.ok (.error .perms) s)
  | clean {h : HVA} {p : MmuPerms} {n : ℕ} {o : Out Abort Mem (Except Fault HVA)}
      (hl : s.mmu.utlbLookup inD priv addr = some (h, p))
      (hp : checkPerms c.build p rnW inD = false)
      (hc : checkFaultWasCleanliness c.build p rnW inD = true)
      (loop : DoLookup c addr inD rnW priv s n o) : TranslateAddr s n o

/-- How a walk settles an access: with its fault; by the entry that it
made, which grants the access or denies it, and not for the C bit; or by
ending the process. -/
inductive Settles (s : Mem) : Out Abort Mem (Except Fault HVA) → Prop where
  | fault {f : Fault} {t : Mem} (hwalk : translateEA c addr inD rnW priv s = .ok (.error f) t) :
      Settles s (.ok (.error f) t)
  | granted {r : PA × MmuPerms} {h : HVA} {p : MmuPerms} {t : Mem}
      (hwalk : translateEA c addr inD rnW priv s = .ok (.ok r) t)
      (hl : t.mmu.utlbLookup inD priv addr = some (h, p))
      (hp : checkPerms c.build p rnW inD = true) : Settles s (.ok (.ok h) t)
  | denied {r : PA × MmuPerms} {h : HVA} {p : MmuPerms} {t : Mem}
      (hwalk : translateEA c addr inD rnW priv s = .ok (.ok r) t)
      (hl : t.mmu.utlbLookup inD priv addr = some (h, p))
      (hp : checkPerms c.build p rnW inD = false)
      (hc : checkFaultWasCleanliness c.build p rnW inD = false) :
      Settles s (.ok (.error .perms) t)
  | ended {e : Abort} {t : Mem} (he : e.isAssertion = false)
      (hwalk : translateEA c addr inD rnW priv s = .abort e t) : Settles s (.abort e t)

end

/-- **What the walk inserts is found,** and does not refuse a store for its
C bit. -/
theorem utlbLookup_after_walk {s t : Mem} {r : PA × MmuPerms}
    (hwalk : translateEA c addr inD rnW priv s = .ok (.ok r) t) :
    ∃ h p, t.mmu.utlbLookup inD priv addr = some (h, p) ∧
      checkFaultWasCleanliness c.build p rnW inD = false :=
  walked_translateEA.of_ok trivial hwalk

/-- **The loop walks once,** and the walk settles the access. -/
theorem doLookup_once (c : Config) (addr : VA) (inD rnW priv : Bool) (s : Mem) (fuel : ℕ) :
    DoLookup c addr inD rnW priv s 1 (doLookup c addr inD rnW priv (fuel + 1) s) ∧
      Settles c addr inD rnW priv s (doLookup c addr inD rnW priv (fuel + 1) s) := by
  rw [doLookup]
  rcases translateEA_goes_on c addr inD rnW priv s with ⟨res, t, hx⟩ | ⟨e, t, hx⟩
  · rw [Prog.bind_of_ok hx]
    cases res with
    | error f => exact ⟨.fault hx, .fault hx⟩
    | ok r =>
      obtain ⟨h, p, hl, hclean⟩ := utlbLookup_after_walk hx
      simp only [Prog.gets_bind_apply, hl]
      cases hp : checkPerms c.build p rnW inD with
      | true => exact ⟨.granted hx hl hp, .granted hx hl hp⟩
      | false =>
        simp only [hclean, Bool.false_eq_true, if_false]
        exact ⟨.denied hx hl hp hclean, .denied hx hl hp hclean⟩
  · have hsound : Sound (translateEA c addr inD rnW priv) := inferInstance
    rw [Prog.bind_of_abort hx]
    exact ⟨.ended hx, .ended (hsound.out _ _ _ hx) hx⟩

/-- No other number of walks, and no other end, is the loop's. -/
theorem DoLookup.unique {s : Mem} {n : ℕ} {o : Out Abort Mem (Except Fault HVA)}
    (h : DoLookup c addr inD rnW priv s n o) (fuel : ℕ) :
    n = 1 ∧ o = doLookup c addr inD rnW priv (fuel + 1) s := by
  rw [doLookup]
  cases h with
  | ended hwalk => exact ⟨rfl, by rw [Prog.bind_of_abort hwalk]⟩
  | fault hwalk => exact ⟨rfl, by rw [Prog.bind_of_ok hwalk]; rfl⟩
  | missed hwalk hl =>
    obtain ⟨h, p, hl', -⟩ := utlbLookup_after_walk hwalk
    cases hl.symm.trans hl'
  | granted hwalk hl hp =>
    refine ⟨rfl, ?_⟩
    rw [Prog.bind_of_ok hwalk]
    simp only [Prog.gets_bind_apply, hl, hp, if_true]
    rfl
  | denied hwalk hl hp hc =>
    refine ⟨rfl, ?_⟩
    rw [Prog.bind_of_ok hwalk]
    simp only [Prog.gets_bind_apply, hl, hp, hc, Bool.false_eq_true, if_false]
    rfl
  | again hwalk hl hp hc rest =>
    -- the entry of a walk for a store has C set
    obtain ⟨h, p, hl', hclean⟩ := utlbLookup_after_walk hwalk
    cases hl.symm.trans hl'
    cases hc.symm.trans hclean

/-- **`translateAddr` walks at most once.** In every state and for every
access the loop ends, in one way: without a walk where a usable entry is
found, and else after one walk, which settles the access. -/
theorem translateAddr_walks_once (c : Config) (addr : VA) (inD rnW priv : Bool) (s : Mem) :
    (∀ r t, translateEA c addr inD rnW priv s = .ok (.ok r) t →
      ∃ h p, t.mmu.utlbLookup inD priv addr = some (h, p)) ∧
    ∃ n o, n ≤ 1 ∧ TranslateAddr c addr inD rnW priv s n o ∧
      (∀ n' o', TranslateAddr c addr inD rnW priv s n' o' → n' = n ∧ o' = o) ∧
      o = translateAddr c addr inD rnW priv s ∧
      (n = 0 ↔ ∃ h p, s.mmu.utlbLookup inD priv addr = some (h, p) ∧
        checkFaultWasCleanliness c.build p rnW inD = false) ∧
      (n = 1 → Settles c addr inD rnW priv s o) := by
  obtain ⟨hloop, hsettles⟩ := doLookup_once c addr inD rnW priv s 1
  refine ⟨fun r t hwalk => ?_, ?_⟩
  · obtain ⟨h, p, hl, -⟩ := utlbLookup_after_walk hwalk
    exact ⟨h, p, hl⟩
  rw [translateAddr, Prog.gets_bind_apply]
  cases hl : s.mmu.utlbLookup inD priv addr with
  | none =>
    refine ⟨1, _, le_rfl, .miss hl hloop, fun n' o' h => ?_, rfl,
      ⟨fun h => absurd h one_ne_zero, ?_⟩, fun _ => hsettles⟩
    · cases h with
      | miss _ loop => exact loop.unique 1
      | granted hl' | denied hl' | clean hl' => cases hl.symm.trans hl'
    · rintro ⟨h, p, hsome, -⟩
      cases hsome
  | some hit =>
    obtain ⟨h, p⟩ := hit
    cases hp : checkPerms c.build p rnW inD with
    | true =>
      refine ⟨0, .ok (.ok h) s, Nat.zero_le 1, .granted hl hp, fun n' o' ht => ?_, ?_,
        ⟨fun _ => ⟨h, p, rfl, not_clean_of_checkPerms hp⟩, fun _ => rfl⟩, fun h => absurd h zero_ne_one⟩
      · cases ht with
        | miss hl' => cases hl.symm.trans hl'
        | granted hl' hp' =>
          cases hl.symm.trans hl'
          exact ⟨rfl, rfl⟩
        | denied hl' hp' | clean hl' hp' =>
          cases hl.symm.trans hl'
          cases hp.symm.trans hp'
      · simp only [hp, if_true]
        rfl
    | false =>
      cases hc : checkFaultWasCleanliness c.build p rnW inD with
      | true =>
        refine ⟨1, _, le_rfl, .clean hl hp hc hloop, fun n' o' ht => ?_, ?_, ⟨fun h => absurd h one_ne_zero, ?_⟩,
          fun _ => hsettles⟩
        · cases ht with
          | miss hl' => cases hl.symm.trans hl'
          | granted hl' hp' =>
            cases hl.symm.trans hl'
            cases hp.symm.trans hp'
          | denied hl' hp' hc' =>
            cases hl.symm.trans hl'
            cases hc.symm.trans hc'
          | clean hl' hp' hc' loop => exact loop.unique 1
        · simp only [hp, hc, Bool.false_eq_true, if_false, if_true]
        · rintro ⟨_, _, heq, hclean⟩
          cases heq
          cases hc.symm.trans hclean
      | false =>
        refine ⟨0, .ok (.error .perms) s, Nat.zero_le 1, .denied hl hp hc, fun n' o' ht => ?_, ?_,
          ⟨fun _ => ⟨h, p, rfl, hc⟩, fun _ => rfl⟩, fun h => absurd h zero_ne_one⟩
        · cases ht with
          | miss hl' => cases hl.symm.trans hl'
          | granted hl' hp' =>
            cases hl.symm.trans hl'
            cases hp.symm.trans hp'
          | denied hl' hp' hc' =>
            cases hl.symm.trans hl'
            exact ⟨rfl, rfl⟩
          | clean hl' hp' hc' =>
            cases hl.symm.trans hl'
            cases hc.symm.trans hc'
        · simp only [hp, hc, Bool.false_eq_true, if_false]
          rfl

/-- RAM with the hash table of `Sys.onePage`, whose entry maps the page to
one of which a device answers the first bytes. -/
def pastDevice : Sys :=
  ⟨fun a => if a = 0x10010040 then 0x80 else if a = 0x10010044 then 0x82
    else if a = 0x10010047 then 0x02 else 0, [], 0⟩

/-- **A store that finds an entry held up by its C bit alone,** and whose
walk ends the process: the entry was made by a load of the page's front,
and no device answers for the rest. -/
theorem rewalk_past_device :
    ∃ s h p, Steps (Step (.quiet .default)) (.init zero pastDevice)
        [.map (.setSDR1 0x10000), .map (.setIRDR false true), .translate 0x1000 false true true] s ∧
      s.mem.mmu.utlbLookup false true 0x1800 = some (h, p) ∧
      checkFaultWasCleanliness .default p false false = true ∧
      ∀ res t, translateAddr (.quiet .default) 0x1800 false false true s.mem ≠ .ok res t := by
  have key : (translateAddr (.quiet .default) 0x1000 false true true ⟨paged, pastDevice⟩).test
      fun _ m => ((m.mmu.utlbLookup false true 0x1800).any fun hit =>
          checkFaultWasCleanliness .default hit.2 false false) &&
        !(translateAddr (.quiet .default) 0x1800 false false true m).test fun _ _ => true := by
    decide +kernel
  obtain ⟨_, m, hm, h⟩ := Out.of_test key
  rw [Bool.and_eq_true, Bool.not_eq_true', Option.any_eq_true] at h
  obtain ⟨⟨⟨k, p⟩, hl, hclean⟩, hno⟩ := h
  refine ⟨⟨m, false⟩, k, p, (steps_paged .default pastDevice).snoc
    (.translate rfl (walkInRam_paged .default false true) hm), hl, hclean, fun res t heq => ?_⟩
  rw [heq] at hno
  cases hno

end Mmu

end MrIss
