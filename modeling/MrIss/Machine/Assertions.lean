import Mathlib.Tactic.IntervalCases
import MrIss.Interp.Sound
import MrIss.Machine.Run
/-!
# The checks that a guest can make fail

Of the checks that the simulator makes of itself, one is in the guest's
hands: `mtspr` passes the numbers of eight BAT registers of each kind on
to an MMU that has four.
-/

namespace MrIss

open EarlyReturn Run

variable {c : Config}

/-- The case of a BAT register that the MMU does not have. -/
theorem sprCase_highBat {spr : Reg} (h : isHighBat spr = true) : ∃ f bat, ¬ bat < 4 ∧
    sprCase mtsprCases spr = some (writePriv (setBAT f bat)) := by
  obtain ⟨hlow, hhigh⟩ := of_decide_eq_true h
  unfold sprCase
  generalize spr.toNat = n at hlow hhigh
  interval_cases n <;> exact ⟨_, _, by decide, rfl⟩

/-- **`mtspr` to such a register** ends the simulator. -/
theorem decode_highBat {i : BitVec 32} (h : isMtsprHighBat i = true) (s : Machine) :
    decode c i s = .abort .assertBat s := by
  rw [isMtsprHighBat, Bool.and_eq_true] at h
  obtain ⟨f, bat, hbat, hcase⟩ := sprCase_highBat h.2
  have hrs : xfxRS i < 32 := field_lt 21 i
  rw [decode_mtspr c h.1, opMtspr, Prog.bind_of_ok (readGPR_apply hrs s), hcase]
  refine Prog.bind_of_abort ?_
  change setBAT f bat _ s = _
  rw [setBAT, Prog.assert, decide_eq_false hbat]
  rfl

/-- What a round ends the simulator for: a failed check only where the word
is one of those. -/
theorem execute_abort {s u : Machine} {e : Abort}
    (hlow : ∀ inst v, Decodes c s inst v → isMtsprHighBat inst = false)
    (h : execute c s = .abort e u) : e.isAssertion = false := by
  let s₁ : Machine := { s with interp := { s.interp with pc := s.cpu.user.pc } }
  change (translating true (Mmu.loadInst32 c s.cpu.user.pc) >>= dispatch c s.cpu.user.pc) s₁ = _
    at h
  have hfetch : Sound (translating true (Mmu.loadInst32 c s.cpu.user.pc)) := inferInstance
  rw [Prog.bind_apply] at h
  cases hx : translating true (Mmu.loadInst32 c s.cpu.user.pc) s₁ with
  | ret v => rw [hx] at h; cases h
  | abort e' v =>
    rw [hx] at h
    cases h
    exact hfetch.out _ _ _ hx
  | ok res v =>
    rw [hx] at h
    suffices hdispatch : Sound (dispatch c s.cpu.user.pc res) from hdispatch.out _ _ _ h
    cases res with
    | error f =>
      have hf := translating_returns (fun priv => Mmu.loadInst32_faults) _ _ _ hx f rfl
      exact .seq (Sound.raiseMem (.inl hf)) fun _ => .pure _
    | ok inst =>
      have := sound_decode (c := c) (hlow inst _ ⟨v, hx, rfl⟩)
      unfold dispatch
      infer_instance

/-- **When no check fails.** In any state, a word that is given to `decode`
trips no check of the simulator if and only if it is not an `mtspr` to one
of IBAT4 to IBAT7 or DBAT4 to DBAT7; and a round of `execute`, with the
fetch and whatever exception it raises, trips none if and only if it
fetches no such word. -/
theorem assertions_hold_iff (c : Config) (s : Machine) :
    (∀ inst, (∀ e u, decode c inst s = .abort e u → e.isAssertion = false) ↔
      isMtsprHighBat inst = false) ∧
    ((∀ e u, execute c s = .abort e u → e.isAssertion = false) ↔
      ∀ inst v, Decodes c s inst v → isMtsprHighBat inst = false) := by
  refine ⟨fun inst => ⟨fun h => ?_, fun h => (sound_decode h).out s⟩, fun h inst v hdec => ?_,
    fun h e u => execute_abort h⟩
  · by_contra hhigh
    have := h _ _ (decode_highBat (by simpa using hhigh) s)
    cases this
  · by_contra hhigh
    obtain ⟨w, hw, rfl⟩ := hdec
    let v : Machine := { w with interp := { w.interp with inst := inst } }
    have hdecode : decode c inst v = .abort .assertBat v :=
      decode_highBat (by simpa using hhigh) v
    have hexec : execute c s = .abort .assertBat v := by
      change (translating true (Mmu.loadInst32 c s.cpu.user.pc) >>= dispatch c s.cpu.user.pc) _ = _
      rw [Prog.bind_of_ok hw]
      change (Prog.call (decode c inst) >>= fun _ => pure (some inst)) v = _
      refine Prog.bind_of_abort ?_
      rw [Prog.call, hdecode]
    have := h _ _ hexec
    cases this

/-- `mtspr` from r0 to IBAT4U, in the state after the set-up. -/
theorem assertion_fails : ¬ ∀ ls t,
    Steps (Step (.quiet .default)) (.boot 0x100 0 .zero .zero .fresh) ls t →
      ∀ inst e u, decode (.quiet .default) inst t = .abort e u → e.isAssertion = false := by
  intro h
  have hdec := decode_highBat (c := .quiet .default) (i := 0x7c108ba6) (by decide)
    (.boot 0x100 0 .zero .zero .fresh)
  have := h [] _ .nil _ _ _ hdec
  cases this

end MrIss
