import Mathlib.Data.List.Induction
/-!
# Runs of a labelled transition system

A run is a list of labels in the order in which they happened. An
invariant of the steps is an invariant of the runs.
-/

namespace Run

variable {σ ε : Type}

/-- A run from one state to another. -/
inductive Steps (step : σ → ε → σ → Prop) (s : σ) : List ε → σ → Prop where
  | nil : Steps step s [] s
  | snoc {es : List ε} {t u : σ} {e : ε} (run : Steps step s es t) (last : step t e u) :
      Steps step s (es ++ [e]) u

namespace Steps

variable {step : σ → ε → σ → Prop} {s t u : σ} {es fs : List ε}

/-- One step is a run. -/
theorem single {e : ε} (h : step s e t) : Steps step s [e] t := .snoc .nil h

/-- **The invariant rule.** What holds at the start and is kept by every
step holds wherever a run leads. -/
theorem invariant {I : σ → Prop} (hrun : Steps step s es t) (hs : I s)
    (hstep : ∀ t e u, I t → step t e u → I u) : I t := by
  induction hrun with
  | nil => exact hs
  | snoc _ last ih => exact hstep _ _ _ ih last

/-- The rule for runs all of whose labels are of one kind. -/
theorem invariant_of_forall {I : σ → Prop} {P : ε → Prop} (hrun : Steps step s es t) (hs : I s)
    (hP : ∀ e ∈ es, P e) (hstep : ∀ t e u, P e → I t → step t e u → I u) : I t := by
  induction hrun with
  | nil => exact hs
  | snoc _ last ih =>
    exact hstep _ _ _ (hP _ (by simp)) (ih fun e he => hP e (by simp [he])) last

/-- A run of steps of one kind is a run of any kind that they are of. -/
theorem imp {step' : σ → ε → σ → Prop} (hrun : Steps step s es t)
    (h : ∀ s e t, step s e t → step' s e t) : Steps step' s es t := by
  induction hrun with
  | nil => exact .nil
  | snoc _ last ih => exact .snoc ih (h _ _ _ last)

/-- The last step of a run that has one. -/
theorem last {e : ε} (h : Steps step s (es ++ [e]) t) : ∃ u, Steps step s es u ∧ step u e t := by
  generalize hl : es ++ [e] = l at h
  cases h with
  | nil => simp at hl
  | snoc run last =>
    obtain ⟨rfl, he⟩ := List.append_inj' hl rfl
    cases he
    exact ⟨_, run, last⟩

/-- A run passes through a state wherever its labels are cut. -/
theorem split (h : Steps step s (es ++ fs) u) :
    ∃ t, Steps step s es t ∧ Steps step t fs u := by
  induction fs using List.reverseRecOn generalizing u with
  | nil => exact ⟨u, by simpa using h, .nil⟩
  | append_singleton fs e ih =>
    rw [← List.append_assoc] at h
    obtain ⟨v, hv, he⟩ := last h
    obtain ⟨t, ht, hf⟩ := ih hv
    exact ⟨t, ht, .snoc hf he⟩

/-- A run of no steps leads nowhere. -/
theorem eq_of_nil (h : Steps step s [] t) : t = s := by
  generalize hl : [] = l at h
  cases h with
  | nil => rfl
  | snoc _ _ => simp at hl

/-- The first step of a run that has one. -/
theorem first {e : ε} (h : Steps step s (e :: es) u) : ∃ t, step s e t ∧ Steps step t es u := by
  have hcut : Steps step s ([e] ++ es) u := h
  obtain ⟨t, ht, hrest⟩ := hcut.split
  have hone : Steps step s ([] ++ [e]) t := ht
  obtain ⟨v, hv, he⟩ := hone.last
  rw [eq_of_nil hv] at he
  exact ⟨t, he, hrest⟩

end Steps

end Run
