import MrIss.Lib.Prog
/-!
# Two runs of one statement

`Couples C` is the judgement on two states at once: a statement run from two
states that a `Coupling` relates ends the same way in both, with the same
value, in states that are related again. It is a class, as `Keeps` is, so
that a routine built from coupled statements is coupled by instance search.
-/

namespace EarlyReturn

variable {ε σ τ κ α β : Type}

/-- How the states of two runs are related: where both go on, and where both
have left the routine. -/
structure Coupling (σ : Type) where
  go : σ → σ → Prop
  leave : σ → σ → Prop

/-- The coupling of states that are equal in a part. -/
def Coupling.same (f : σ → κ) : Coupling σ := ⟨fun s t => f s = f t, fun s t => f s = f t⟩

/-- Two statements have ended alike. -/
def Out.Coupled (C : Coupling σ) : Out ε σ α → Out ε σ α → Prop
  | .ok a s, .ok b t => a = b ∧ C.go s t
  | .ret s, .ret t => C.leave s t
  | .abort e _, .abort e' _ => e = e'
  | _, _ => False

/-- **The judgement on two runs.** -/
class Couples (C : Coupling σ) (x : Prog ε σ α) : Prop where
  out : ∀ s t, C.go s t → (x s).Coupled C (x t)

namespace Couples

variable {C : Coupling σ}

/-- Sequencing, where the second statements may differ from run to run. -/
theorem coupled_bind {x : Prog ε σ α} {f g : α → Prog ε σ β} {s t : σ}
    (hx : (x s).Coupled C (x t))
    (hf : ∀ a u v, C.go u v → (f a u).Coupled C (g a v)) :
    ((x >>= f) s).Coupled C ((x >>= g) t) := by
  rw [Prog.bind_apply, Prog.bind_apply]
  cases hs : x s <;> cases ht : x t <;> rw [hs, ht] at hx
  case ok.ok a u b v =>
    obtain ⟨rfl, huv⟩ := hx
    exact hf a u v huv
  case ret.ret => exact hx
  case abort.abort => exact hx
  all_goals exact hx.elim

instance pure (a : α) : Couples C (Pure.pure a : Prog ε σ α) where
  out _ _ h := ⟨rfl, h⟩

instance abort (e : ε) : Couples C (Prog.abort e : Prog ε σ α) where
  out _ _ _ := rfl

instance bind {x : Prog ε σ α} {f : α → Prog ε σ β} [hx : Couples C x]
    [hf : ∀ a, Couples C (f a)] : Couples C (x >>= f) where
  out s t h := coupled_bind (hx.out s t h) fun a u v huv => (hf a).out u v huv

/-- Sequencing, with the second judgement given. -/
theorem seq {x : Prog ε σ α} {f : α → Prog ε σ β} (hx : Couples C x)
    (hf : ∀ a, Couples C (f a)) : Couples C (x >>= f) := inferInstance

/-- Sequencing, knowing what the first statement returns. -/
theorem seq_of {x : Prog ε σ α} {f : α → Prog ε σ β} {P : α → Prop} (hx : Couples C x)
    (hP : Returns P x) (hf : ∀ a, P a → Couples C (f a)) : Couples C (x >>= f) where
  out s t h := by
    have hout := hx.out s t h
    rw [Prog.bind_apply, Prog.bind_apply]
    cases hs : x s <;> cases ht : x t <;> rw [hs, ht] at hout
    case ok.ok a u b v =>
      obtain ⟨rfl, huv⟩ := hout
      exact (hf a (hP s a u hs)).out u v huv
    case ret.ret => exact hout
    case abort.abort => exact hout
    all_goals exact hout.elim

instance ite {c : Prop} [Decidable c] {x y : Prog ε σ α} [hx : Couples C x]
    [hy : Couples C y] : Couples C (if c then x else y) := by
  split
  · exact hx
  · exact hy

instance when {c : Bool} {x : Prog ε σ Unit} [Couples C x] : Couples C (Prog.when c x) := by
  unfold Prog.when
  infer_instance

instance assert {c : Bool} {e : ε} : Couples C (Prog.assert c e : Prog ε σ Unit) := by
  unfold Prog.assert
  infer_instance

instance option {o : Option α} {x : Prog ε σ β} {f : α → Prog ε σ β} [hx : Couples C x]
    [hf : ∀ a, Couples C (f a)] : Couples C (o.elim x f) := by
  cases o with
  | none => exact hx
  | some a => exact hf a

instance firstM {f : α → Prog ε σ (Option β)} [hf : ∀ a, Couples C (f a)] (l : List α) :
    Couples C (Prog.firstM f l) := by
  induction l with
  | nil => exact .pure none
  | cons a l ih =>
    unfold Prog.firstM
    refine .seq (hf a) fun o => ?_
    cases o with
    | some b => exact .pure (some b)
    | none => exact ih

/-- What is read is the same in both. -/
theorem gets {f : σ → α} (h : ∀ s t, C.go s t → f s = f t) :
    Couples C (Prog.gets f : Prog ε σ α) where
  out s t hst := ⟨h s t hst, hst⟩

theorem modify {f : σ → σ} (h : ∀ s t, C.go s t → C.go (f s) (f t)) :
    Couples C (Prog.modify f : Prog ε σ Unit) where
  out s t hst := ⟨rfl, h s t hst⟩

theorem ret (h : ∀ s t, C.go s t → C.leave s t) : Couples C (Prog.ret : Prog ε σ α) where
  out s t hst := h s t hst

/-- **What is read differs,** and what follows does not. -/
theorem gets_seq {f : σ → β} {k : β → Prog ε σ α}
    (h : ∀ s t, C.go s t → (k (f s) s).Coupled C (k (f t) t)) :
    Couples C (Prog.gets f >>= k) where
  out s t hst := h s t hst

/-- A statement on a part of the state. -/
theorem zoom {get : σ → τ} {set : σ → τ → σ} {D : Coupling τ} {x : Prog ε τ α}
    (h : Couples D x) (hget : ∀ s t, C.go s t → D.go (get s) (get t))
    (hgo : ∀ s t u v, C.go s t → D.go u v → C.go (set s u) (set t v))
    (hleave : ∀ s t u v, C.go s t → D.leave u v → C.leave (set s u) (set t v)) :
    Couples C (Prog.zoom get set x) where
  out s t hst := by
    have hout := h.out (get s) (get t) (hget s t hst)
    unfold Prog.zoom
    cases hs : x (get s) <;> cases ht : x (get t) <;> rw [hs, ht] at hout
    case ok.ok a u b v => exact ⟨hout.1, hgo s t u v hst hout.2⟩
    case ret.ret u v => exact hleave s t u v hst hout
    case abort.abort => exact hout
    all_goals exact hout.elim

/-! ## Equality in a part -/

section

variable {f : σ → κ}

/-- What is read is in the part. -/
theorem gets_same {g : σ → α} (k : κ → α) (h : ∀ s, g s = k (f s)) :
    Couples (.same f) (Prog.gets g : Prog ε σ α) :=
  gets fun s t (hst : f s = f t) => by rw [h s, h t, hst]

/-- An assignment to the part is made from the part. -/
theorem modify_same {g : σ → σ} (k : κ → κ) (h : ∀ s, f (g s) = k (f s)) :
    Couples (.same f) (Prog.modify g : Prog ε σ Unit) :=
  modify fun s t (hst : f s = f t) => show f (g s) = f (g t) by rw [h s, h t, hst]

end

end Couples

end EarlyReturn
