import Mathlib.Data.Nat.Notation
import Mathlib.Order.Defs.Unbundled
/-!
# Programs that return early

A routine of a simulator reads and writes a state, may leave before its
last statement, and may end the whole process. `Prog` is that shape:
`Out.ok` goes on with a value, `Out.ret` has left the routine, and
`Out.abort` has ended the process; each carries the state then.

`Keeps F` is the frame judgement: a `Frame` relates the state before a
statement to the one where it goes on, leaves, or ends the process. It is
a class, so that a routine built from framed statements is framed by
instance search.
-/

namespace EarlyReturn

variable {ε σ τ α β : Type}

/-- How a statement ends. -/
inductive Out (ε σ α : Type) where
  /-- Goes on, with a value. -/
  | ok (a : α) (s : σ)
  /-- The routine has returned. -/
  | ret (s : σ)
  /-- The process has ended. -/
  | abort (e : ε) (s : σ)
  deriving Repr

/-- The state however a statement ends. -/
def Out.state : Out ε σ α → σ
  | .ok _ s | .ret s | .abort _ s => s

/-- Whether a statement went on, and to what is looked for. -/
def Out.test (p : α → σ → Bool) : Out ε σ α → Bool
  | .ok a s => p a s
  | _ => false

/-- A test that succeeds names the outcome. -/
theorem Out.of_test {p : α → σ → Bool} {o : Out ε σ α} (h : o.test p = true) :
    ∃ a s, o = .ok a s ∧ p a s = true := by
  cases o with
  | ok a s => exact ⟨a, s, rfl, h⟩
  | ret s => cases h
  | abort e s => cases h

/-- A statement: what it does to a state. -/
def Prog (ε σ α : Type) : Type := σ → Out ε σ α

namespace Prog

instance : Monad (Prog ε σ) where
  pure a := fun s => .ok a s
  bind x f := fun s =>
    match x s with
    | .ok a s' => f a s'
    | .ret s' => .ret s'
    | .abort e s' => .abort e s'

/-- The state itself. -/
def get : Prog ε σ σ := fun s => .ok s s

/-- A part of the state. -/
def gets (f : σ → α) : Prog ε σ α := fun s => .ok (f s) s

/-- An assignment. -/
def modify (f : σ → σ) : Prog ε σ Unit := fun s => .ok () (f s)

/-- Leaves the routine. -/
def ret : Prog ε σ α := fun s => .ret s

/-- Ends the process. -/
def abort (e : ε) : Prog ε σ α := fun s => .abort e s

/-- A conditional without an else branch. -/
def when (c : Bool) (x : Prog ε σ Unit) : Prog ε σ Unit := if c then x else pure ()

/-- Ends the process unless the condition holds. -/
def assert (c : Bool) (e : ε) : Prog ε σ Unit := if c then pure () else abort e

/-- A loop that stops at the first item whose body produces something. -/
def firstM (f : α → Prog ε σ (Option β)) : List α → Prog ε σ (Option β)
  | [] => pure none
  | a :: l => do
    match ← f a with
    | some b => pure (some b)
    | none => firstM f l

/-- A loop from an index on; `e` is what becomes of one that would go round
more than `fuel` times. -/
def forLoop (c : α → Bool) (next : α → α) (body : α → Prog ε σ Unit) (e : ε) :
    ℕ → α → Prog ε σ Unit
  | 0, _ => abort e
  | fuel + 1, i =>
    if c i then do
      body i
      forLoop c next body e fuel (next i)
    else pure ()

/-- A call of a routine: where it returns, the caller goes on. -/
def call (x : Prog ε σ Unit) : Prog ε σ Unit := fun s =>
  match x s with
  | .ok () t | .ret t => .ok () t
  | .abort e t => .abort e t

/-- A statement on a part of the state, run on the whole of it. -/
def zoom (get : σ → τ) (set : σ → τ → σ) (x : Prog ε τ α) : Prog ε σ α := fun s =>
  match x (get s) with
  | .ok a t => .ok a (set s t)
  | .ret t => .ret (set s t)
  | .abort e t => .abort e (set s t)

/-! ## What running does -/

@[simp] theorem pure_apply (a : α) (s : σ) : (pure a : Prog ε σ α) s = .ok a s := rfl

@[simp] theorem gets_apply (f : σ → α) (s : σ) : (gets f : Prog ε σ α) s = .ok (f s) s := rfl

@[simp] theorem modify_apply (f : σ → σ) (s : σ) : (modify f : Prog ε σ Unit) s = .ok () (f s) :=
  rfl

@[simp] theorem ret_apply (s : σ) : (ret : Prog ε σ α) s = .ret s := rfl

@[simp] theorem abort_apply (e : ε) (s : σ) : (abort e : Prog ε σ α) s = .abort e s := rfl

/-- Sequencing runs the second statement where the first went on. -/
theorem bind_apply (x : Prog ε σ α) (f : α → Prog ε σ β) (s : σ) :
    (x >>= f) s = match x s with
      | .ok a s' => f a s'
      | .ret s' => .ret s'
      | .abort e s' => .abort e s' := rfl

theorem bind_of_ok {x : Prog ε σ α} {f : α → Prog ε σ β} {s s' : σ} {a : α}
    (h : x s = .ok a s') : (x >>= f) s = f a s' := by
  rw [bind_apply, h]

theorem bind_of_ret {x : Prog ε σ α} {f : α → Prog ε σ β} {s s' : σ}
    (h : x s = .ret s') : (x >>= f) s = .ret s' := by
  rw [bind_apply, h]

theorem bind_of_abort {x : Prog ε σ α} {f : α → Prog ε σ β} {s s' : σ} {e : ε}
    (h : x s = .abort e s') : (x >>= f) s = .abort e s' := by
  rw [bind_apply, h]

/-- A sequence that went on went on in both parts. -/
theorem bind_eq_ok {x : Prog ε σ α} {f : α → Prog ε σ β} {s s' : σ} {b : β}
    (h : (x >>= f) s = .ok b s') : ∃ a t, x s = .ok a t ∧ f a t = .ok b s' := by
  rw [bind_apply] at h
  cases hx : x s with
  | ok a t => rw [hx] at h; exact ⟨a, t, rfl, h⟩
  | ret t => rw [hx] at h; cases h
  | abort e t => rw [hx] at h; cases h

/-- Sequencing is associative. -/
theorem bind_assoc (x : Prog ε σ α) (f : α → Prog ε σ β) (g : β → Prog ε σ τ) :
    (x >>= f) >>= g = x >>= fun a => f a >>= g := by
  funext s
  simp only [bind_apply]
  cases x s <;> rfl

/-- What is done to a result is done in what follows. -/
theorem map_bind (f : α → β) (x : Prog ε σ α) (g : β → Prog ε σ τ) :
    (f <$> x) >>= g = x >>= fun a => g (f a) := by
  funext s
  show ((x >>= fun a => pure (f a)) >>= g) s = _
  rw [bind_assoc]
  rfl

@[simp] theorem bind_pure (x : Prog ε σ α) : (x >>= fun a => pure a) = x := by
  funext s
  rw [bind_apply]
  cases x s <;> rfl

@[simp] theorem pure_bind (a : α) (f : α → Prog ε σ β) : (pure a >>= f) = f a := rfl

@[simp] theorem gets_bind_apply (g : σ → α) (f : α → Prog ε σ β) (s : σ) :
    (gets g >>= f) s = f (g s) s := rfl

@[simp] theorem get_bind_apply (f : σ → Prog ε σ β) (s : σ) : (get >>= f) s = f s s := rfl

@[simp] theorem modify_bind_apply (g : σ → σ) (f : Unit → Prog ε σ β) (s : σ) :
    (modify g >>= f) s = f () (g s) := rfl

theorem assert_of_true {c : Bool} {e : ε} (h : c = true) :
    (assert c e : Prog ε σ Unit) = pure () := by
  simp [assert, h]

/-- A call ends in the state that the routine does. -/
@[simp] theorem call_state (x : Prog ε σ Unit) (s : σ) : (call x s).state = (x s).state := by
  unfold call
  cases x s <;> rfl

@[simp] theorem firstM_nil (f : α → Prog ε σ (Option β)) : firstM f [] = pure none := rfl

/-- A loop whose body only reads finds what the pure search finds, up to
what reading leaves behind. -/
theorem firstM_eq_findSome {K : σ → Prop} {g : α → Option β} {f : α → Prog ε σ (Option β)}
    {l : List α} (h : ∀ a ∈ l, ∀ s, K s → ∃ s', f a s = .ok (g a) s' ∧ K s') :
    ∀ s, K s → ∃ s', firstM f l s = .ok (l.findSome? g) s' ∧ K s' := by
  induction l with
  | nil => intro s hs; exact ⟨s, rfl, hs⟩
  | cons a l ih =>
    intro s hs
    obtain ⟨t, ht, hKt⟩ := h a (by simp) s hs
    rw [firstM, bind_of_ok ht]
    cases hg : g a with
    | some b => exact ⟨t, by simp [hg], hKt⟩
    | none =>
      obtain ⟨s', hs', hK'⟩ := ih (fun x hx => h x (by simp [hx])) t hKt
      exact ⟨s', by simpa [hg] using hs', hK'⟩

/-! ## Loops -/

section

variable {c : α → Bool} {next : α → α} {body : α → Prog ε σ Unit} {e : ε} {fuel : ℕ} {i : α}

theorem forLoop_stop (h : c i = false) : forLoop c next body e (fuel + 1) i = pure () := by
  rw [forLoop, if_neg (by simp [h])]

theorem forLoop_go (h : c i = true) : forLoop c next body e (fuel + 1) i =
    body i >>= fun _ => forLoop c next body e fuel (next i) := by
  rw [forLoop, if_pos h]

/-- **The loop rule.** A loop that goes through the indices `idx 0` to
`idx (m - 1)`, and whose body leads from the invariant at an index to the
invariant at the next, ends, with the invariant of the last. -/
theorem forLoop_run {idx : ℕ → α} {m : ℕ} {I : ℕ → σ → Prop}
    (hc : ∀ k ≤ m, c (idx k) = decide (k < m)) (hnext : ∀ k < m, next (idx k) = idx (k + 1))
    (hbody : ∀ k < m, ∀ s, I k s → ∃ t, body (idx k) s = .ok () t ∧ I (k + 1) t) :
    ∀ (fuel k : ℕ) (s : σ), k ≤ m → m - k < fuel → I k s →
      ∃ t, forLoop c next body e fuel (idx k) s = .ok () t ∧ I m t := by
  intro fuel
  induction fuel with
  | zero => intro k s hk hfuel _; omega
  | succ fuel ih =>
    intro k s hk hfuel hI
    by_cases hkm : k < m
    · obtain ⟨t, ht, hIt⟩ := hbody k hkm s hI
      rw [forLoop_go (by rw [hc k hk]; exact decide_eq_true hkm), bind_of_ok ht, hnext k hkm]
      exact ih (k + 1) t hkm (by omega) hIt
    · have heq : k = m := by omega
      subst heq
      rw [forLoop_stop (by rw [hc k hk]; exact decide_eq_false hkm)]
      exact ⟨s, rfl, hI⟩

/-- A loop that has ended has run its body at every index up to the first
one that fails the condition. -/
theorem forLoop_visits {idx : ℕ → α} {P : α → σ → Prop} (hnext : ∀ k, next (idx k) = idx (k + 1))
    (hbody : ∀ i s t, body i s = .ok () t → P i t)
    (hkeep : ∀ i j s t, P i s → body j s = .ok () t → P i t) :
    ∀ (fuel k : ℕ) (s t : σ), forLoop c next body e fuel (idx k) s = .ok () t →
      (∀ i, P i s → P i t) ∧ ∀ j, k ≤ j → (∀ l, k ≤ l → l ≤ j → c (idx l) = true) →
        P (idx j) t := by
  intro fuel
  induction fuel with
  | zero => intro k s t h; cases h
  | succ fuel ih =>
    intro k s t h
    cases hc : c (idx k) with
    | false =>
      rw [forLoop_stop hc] at h
      cases h
      refine ⟨fun _ hi => hi, fun j hj hl => ?_⟩
      rw [hl k (by omega) hj] at hc
      cases hc
    | true =>
      rw [forLoop_go hc, hnext] at h
      obtain ⟨_, u, hu, ht⟩ := bind_eq_ok h
      obtain ⟨hkept, hvisits⟩ := ih (k + 1) u t ht
      refine ⟨fun i hi => hkept i (hkeep i _ s u hi hu), fun j hj hl => ?_⟩
      rcases Nat.eq_or_lt_of_le hj with heq | hlt
      · subst heq
        exact hkept _ (hbody _ s u hu)
      · exact hvisits j hlt fun l hkl hlj => hl l (by omega) hlj

end

end Prog

open Prog

/-! ## Frames -/

/-- What a statement may do to the state, by how it ends. -/
structure Frame (σ : Type) where
  /-- Where it goes on. -/
  go : σ → σ → Prop
  /-- Where it leaves the routine. -/
  leave : σ → σ → Prop
  /-- Where it ends the process. -/
  stop : σ → σ → Prop
  go_refl : ∀ s, go s s
  stop_refl : ∀ s, stop s s
  go_go : ∀ {s t u}, go s t → go t u → go s u
  go_leave : ∀ {s t u}, go s t → leave t u → leave s u
  go_stop : ∀ {s t u}, go s t → stop t u → stop s u

namespace Frame

/-- The frame of one relation, however the statement ends. -/
def always (R : σ → σ → Prop) (hrefl : ∀ s, R s s)
    (htrans : ∀ {s t u}, R s t → R t u → R s u) : Frame σ :=
  ⟨R, R, R, hrefl, hrefl, htrans, htrans, htrans⟩

/-- The frame that allows everything. -/
def any : Frame σ := always (fun _ _ => True) (fun _ => trivial) fun _ _ => trivial

/-- The frame of statements that leave a part of the state alone. -/
def same (f : σ → α) : Frame σ :=
  always (fun s t => f t = f s) (fun _ => rfl) fun h h' => h'.trans h

end Frame

/-- **The frame judgement.** -/
class Keeps (F : Frame σ) (x : Prog ε σ α) : Prop where
  out : ∀ s, match x s with
    | .ok _ s' => F.go s s'
    | .ret s' => F.leave s s'
    | .abort _ s' => F.stop s s'

namespace Keeps

variable {F : Frame σ}

theorem of_ok {x : Prog ε σ α} (h : Keeps F x) {s s' : σ} {a : α} (hs : x s = .ok a s') :
    F.go s s' := by
  have := h.out s
  rwa [hs] at this

theorem of_ret {x : Prog ε σ α} (h : Keeps F x) {s s' : σ} (hs : x s = .ret s') :
    F.leave s s' := by
  have := h.out s
  rwa [hs] at this

theorem of_abort {x : Prog ε σ α} (h : Keeps F x) {s s' : σ} {e : ε} (hs : x s = .abort e s') :
    F.stop s s' := by
  have := h.out s
  rwa [hs] at this

theorem modify {f : σ → σ} (h : ∀ s, F.go s (f s)) :
    Keeps F (Prog.modify f : Prog ε σ Unit) where
  out s := h s

/-- Two assignments are one. -/
theorem modify_modify {f g : σ → σ} {x : Unit → Prog ε σ α} (h : ∀ s, F.go s (g (f s)))
    (hx : ∀ a, Keeps F (x a)) :
    Keeps F (Prog.modify f >>= fun _ => Prog.modify g >>= x) where
  out s := by
    have hrun : (Prog.modify f >>= fun _ => Prog.modify g >>= x) s = x () (g (f s)) := rfl
    have hout := (hx ()).out (g (f s))
    rw [hrun]
    cases hu : x () (g (f s)) with
    | ok a u => rw [hu] at hout; exact F.go_go (h s) hout
    | ret u => rw [hu] at hout; exact F.go_leave (h s) hout
    | abort e u => rw [hu] at hout; exact F.go_stop (h s) hout

theorem ret (h : ∀ s, F.leave s s) : Keeps F (Prog.ret : Prog ε σ α) where
  out s := h s

/-- A statement on a part of the state is framed by what its part's frame
says of the whole. -/
theorem zoom {get : σ → τ} {set : σ → τ → σ} {G : Frame τ} {x : Prog ε τ α}
    (h : Keeps G x) (hgo : ∀ s t, G.go (get s) t → F.go s (set s t))
    (hleave : ∀ s t, G.leave (get s) t → F.leave s (set s t))
    (hstop : ∀ s t, G.stop (get s) t → F.stop s (set s t)) :
    Keeps F (Prog.zoom get set x) where
  out s := by
    have := h.out (get s)
    unfold Prog.zoom
    cases hx : x (get s) with
    | ok a t => rw [hx] at this; exact hgo _ _ this
    | ret t => rw [hx] at this; exact hleave _ _ this
    | abort e t => rw [hx] at this; exact hstop _ _ this

/-- A frame that is the same however a statement ends speaks of its state. -/
theorem state {R : σ → σ → Prop} {hrefl : ∀ s, R s s}
    {htrans : ∀ {s t u}, R s t → R t u → R s u} {x : Prog ε σ α}
    (h : Keeps (.always R hrefl htrans) x) (s : σ) : R s (x s).state := by
  have := h.out s
  cases hx : x s <;> rwa [hx] at this

/-- What follows a statement is framed from the state that it left. -/
theorem state_bind {R : σ → σ → Prop} {hrefl : ∀ s, R s s}
    {htrans : ∀ {s t u}, R s t → R t u → R s u} {x : Prog ε σ α} {f : α → Prog ε σ β}
    (h : ∀ a, Keeps (.always R hrefl htrans) (f a)) (s : σ) :
    R (x s).state ((x >>= f) s).state := by
  rw [bind_apply]
  cases x s with
  | ok a t => exact (h a).state t
  | ret t => exact hrefl t
  | abort e t => exact hrefl t

instance any (x : Prog ε σ α) : Keeps Frame.any x where
  out s := by cases x s <;> trivial

instance pure (a : α) : Keeps F (Pure.pure a : Prog ε σ α) where
  out s := F.go_refl s

instance gets (f : σ → α) : Keeps F (Prog.gets f : Prog ε σ α) where
  out s := F.go_refl s

instance get : Keeps F (Prog.get : Prog ε σ σ) where
  out s := F.go_refl s

instance abort (e : ε) : Keeps F (Prog.abort e : Prog ε σ α) where
  out s := F.stop_refl s

instance bind {x : Prog ε σ α} {f : α → Prog ε σ β} [hx : Keeps F x]
    [hf : ∀ a, Keeps F (f a)] : Keeps F (x >>= f) where
  out s := by
    rw [bind_apply]
    cases h : x s with
    | ret s' => exact hx.of_ret h
    | abort e s' => exact hx.of_abort h
    | ok a t =>
      have h₁ := hx.of_ok h
      have h₂ := (hf a).out t
      cases h' : f a t with
      | ok b u => rw [h'] at h₂; simpa [h'] using F.go_go h₁ h₂
      | ret u => rw [h'] at h₂; simpa [h'] using F.go_leave h₁ h₂
      | abort e u => rw [h'] at h₂; simpa [h'] using F.go_stop h₁ h₂

/-- Sequencing, with the second frame given. -/
theorem seq {x : Prog ε σ α} {f : α → Prog ε σ β} (hx : Keeps F x) (hf : ∀ a, Keeps F (f a)) :
    Keeps F (x >>= f) := inferInstance

instance forLoop {c : α → Bool} {next : α → α} {body : α → Prog ε σ Unit} {e : ε}
    [hb : ∀ i, Keeps F (body i)] (fuel : ℕ) (i : α) :
    Keeps F (Prog.forLoop c next body e fuel i) := by
  induction fuel generalizing i with
  | zero => exact .abort e
  | succ fuel ih =>
    unfold Prog.forLoop
    split
    · exact .seq (hb i) fun _ => ih (next i)
    · exact .pure _

instance forM {f : α → Prog ε σ PUnit} [hf : ∀ a, Keeps F (f a)] (l : List α) :
    Keeps F (ForM.forM l f) := by
  induction l with
  | nil => exact .pure _
  | cons a l ih => exact .seq (hf a) fun _ => ih

instance ite {c : Prop} [Decidable c] {x y : Prog ε σ α} [hx : Keeps F x] [hy : Keeps F y] :
    Keeps F (if c then x else y) := by
  split
  · exact hx
  · exact hy

instance when {c : Bool} {x : Prog ε σ Unit} [hx : Keeps F x] : Keeps F (Prog.when c x) := by
  unfold Prog.when
  infer_instance

instance assert {c : Bool} {e : ε} : Keeps F (Prog.assert c e : Prog ε σ Unit) := by
  unfold Prog.assert
  infer_instance

instance option {o : Option α} {x : Prog ε σ β} {f : α → Prog ε σ β} [hx : Keeps F x]
    [hf : ∀ a, Keeps F (f a)] : Keeps F (o.elim x f) := by
  cases o with
  | none => exact hx
  | some a => exact hf a

instance firstM {f : α → Prog ε σ (Option β)} [hf : ∀ a, Keeps F (f a)] (l : List α) :
    Keeps F (Prog.firstM f l) := by
  induction l with
  | nil => exact Keeps.pure none
  | cons a l ih =>
    unfold Prog.firstM
    have : ∀ o : Option β, Keeps F
        (match o with
          | some b => Pure.pure (some b)
          | none => Prog.firstM f l : Prog ε σ (Option β)) := by
      intro o
      cases o with
      | some b => exact Keeps.pure (some b)
      | none => exact ih
    infer_instance

end Keeps

/-! ## Whole routines -/

/-- **The frame judgement on a routine:** where it goes on to its end, it
has left. -/
class Ends (F : Frame σ) (x : Prog ε σ α) : Prop where
  out : ∀ s, match x s with
    | .ok _ s' => F.leave s s'
    | .ret s' => F.leave s s'
    | .abort _ s' => F.stop s s'

namespace Ends

variable {F : Frame σ}

theorem of_ok {x : Prog ε σ α} (h : Ends F x) {s s' : σ} {a : α} (hs : x s = .ok a s') :
    F.leave s s' := by
  have := h.out s
  rwa [hs] at this

theorem of_ret {x : Prog ε σ α} (h : Ends F x) {s s' : σ} (hs : x s = .ret s') :
    F.leave s s' := by
  have := h.out s
  rwa [hs] at this

/-- A frame that is the same however a routine ends speaks of its state. -/
theorem state {R : σ → σ → Prop} {hrefl : ∀ s, R s s}
    {htrans : ∀ {s t u}, R s t → R t u → R s u} {x : Prog ε σ α}
    (h : Ends (.always R hrefl htrans) x) (s : σ) : R s (x s).state := by
  have := h.out s
  cases hx : x s <;> rwa [hx] at this

/-- A routine may end where its statements go on. -/
theorem of_keeps {x : Prog ε σ α} (h : Keeps F x) (hl : ∀ s, F.leave s s) : Ends F x where
  out s := by
    have := h.out s
    cases hx : x s with
    | ok a t => rw [hx] at this; exact F.go_leave this (hl t)
    | ret t => rw [hx] at this; exact this
    | abort e t => rw [hx] at this; exact this

/-- A call goes on where the routine left, if the frame does. -/
theorem call {x : Prog ε σ Unit} (h : Ends F x) (hl : ∀ {s t}, F.leave s t → F.go s t) :
    Keeps F (Prog.call x) where
  out s := by
    have := h.out s
    unfold Prog.call
    cases hx : x s with
    | ok a t => rw [hx] at this; exact hl this
    | ret t => rw [hx] at this; exact hl this
    | abort e t => rw [hx] at this; exact this

/-- What comes before the last statement is framed by what goes on. -/
theorem bind {x : Prog ε σ α} {f : α → Prog ε σ β} (hx : Keeps F x) (hf : ∀ a, Ends F (f a)) :
    Ends F (x >>= f) where
  out s := by
    rw [bind_apply]
    cases h : x s with
    | ret s' => exact hx.of_ret h
    | abort e s' => exact hx.of_abort h
    | ok a t =>
      have h₁ := hx.of_ok h
      have h₂ := (hf a).out t
      cases h' : f a t with
      | ok b u => rw [h'] at h₂; simpa [h'] using F.go_leave h₁ h₂
      | ret u => rw [h'] at h₂; simpa [h'] using F.go_leave h₁ h₂
      | abort e u => rw [h'] at h₂; simpa [h'] using F.go_stop h₁ h₂

end Ends

/-! ## Triples -/

/-- From every state with `P` a statement goes on with a value and a state
in `Q`, leaves the routine in `L`, or ends the process in `S`. -/
def Triple (P : σ → Prop) (x : Prog ε σ α) (Q : α → σ → Prop) (L : σ → Prop)
    (S : ε → σ → Prop) : Prop :=
  ∀ s, P s → match x s with
    | .ok a t => Q a t
    | .ret t => L t
    | .abort e t => S e t

namespace Triple

variable {P I : σ → Prop} {L : σ → Prop} {S : ε → σ → Prop}

theorem bind {x : Prog ε σ α} {f : α → Prog ε σ β} {Q : α → σ → Prop} {R : β → σ → Prop}
    (hx : Triple P x Q L S) (hf : ∀ a, Triple (Q a) (f a) R L S) : Triple P (x >>= f) R L S := by
  intro s hs
  have h := hx s hs
  rw [bind_apply]
  cases hxs : x s with
  | ok a t => rw [hxs] at h; exact hf a t h
  | ret t => rw [hxs] at h; exact h
  | abort e t => rw [hxs] at h; exact h

theorem pre {P' : σ → Prop} {x : Prog ε σ α} {Q : α → σ → Prop} (h : Triple P x Q L S)
    (hp : ∀ s, P' s → P s) : Triple P' x Q L S := fun s hs => h s (hp s hs)

theorem post {x : Prog ε σ α} {Q Q' : α → σ → Prop} (h : Triple P x Q L S)
    (hq : ∀ a t, Q a t → Q' a t) : Triple P x Q' L S := by
  intro s hs
  have hout := h s hs
  cases hx : x s with
  | ok a t => rw [hx] at hout; exact hq a t hout
  | ret t => rw [hx] at hout; exact hout
  | abort e t => rw [hx] at hout; exact hout

theorem gets (f : σ → α) : Triple P (Prog.gets f) (fun a s => a = f s ∧ P s) L S :=
  fun _ hs => ⟨rfl, hs⟩

theorem pure {a : α} {Q : α → σ → Prop} (h : ∀ s, P s → Q a s) : Triple P (Pure.pure a) Q L S := h

/-- What a statement goes on with, from any state. -/
theorem of_ok {x : Prog ε σ α} {Q : α → σ → Prop} {s t : σ} {a : α} (h : Triple P x Q L S)
    (hs : P s) (hx : x s = .ok a t) : Q a t := by
  have hout := h s hs
  rwa [hx] at hout

/-- A statement of which nothing is asked. -/
theorem any (x : Prog ε σ α) :
    Triple P x (fun _ _ => True) (fun _ => True) fun _ _ => True := by
  intro s _
  cases x s <;> trivial

theorem modify {f : σ → σ} {Q : Unit → σ → Prop} (h : ∀ s, P s → Q () (f s)) :
    Triple P (Prog.modify f) Q L S := h

/-- A frame that keeps an invariant. -/
theorem of_keeps {hrefl : ∀ s, I s → I s}
    {htrans : ∀ {s t u : σ}, (I s → I t) → (I t → I u) → I s → I u} {x : Prog ε σ α}
    (h : Keeps (.always (fun s t => I s → I t) hrefl htrans) x) :
    Triple I x (fun _ => I) I fun _ => I := by
  intro s hs
  have hout := h.out s
  cases hx : x s with
  | ok a t => rw [hx] at hout; exact hout hs
  | ret t => rw [hx] at hout; exact hout hs
  | abort e t => rw [hx] at hout; exact hout hs

theorem keeps {hrefl : ∀ s, I s → I s}
    {htrans : ∀ {s t u : σ}, (I s → I t) → (I t → I u) → I s → I u} {x : Prog ε σ α}
    (h : Triple I x (fun _ => I) I fun _ => I) :
    Keeps (.always (fun s t => I s → I t) hrefl htrans) x where
  out s := by
    have hout := h s
    cases hx : x s with
    | ok a t => rw [hx] at hout; exact hout
    | ret t => rw [hx] at hout; exact hout
    | abort e t => rw [hx] at hout; exact hout

end Triple

/-! ## What a statement returns -/

/-- Every value that a statement goes on with has a property. -/
def Returns (P : α → Prop) (x : Prog ε σ α) : Prop := ∀ s a t, x s = .ok a t → P a

namespace Returns

variable {P : α → Prop}

theorem pure {a : α} (h : P a) : Returns P (Pure.pure a : Prog ε σ α) := by
  rintro s b t hs
  cases hs
  exact h

theorem abort (e : ε) : Returns P (Prog.abort e : Prog ε σ α) := by
  rintro s b t hs
  cases hs

theorem bind {x : Prog ε σ β} {f : β → Prog ε σ α} (hf : ∀ b, Returns P (f b)) :
    Returns P (x >>= f) := by
  rintro s a t hs
  obtain ⟨b, u, -, hu⟩ := bind_eq_ok hs
  exact hf b u a t hu

/-- The same, knowing what the first statement returns. -/
theorem bind_of {Q : β → Prop} {x : Prog ε σ β} {f : β → Prog ε σ α} (hx : Returns Q x)
    (hf : ∀ b, Q b → Returns P (f b)) : Returns P (x >>= f) := by
  rintro s a t hs
  obtain ⟨b, u, hb, hu⟩ := bind_eq_ok hs
  exact hf b (hx s b u hb) u a t hu

end Returns

/-! ## Why a process ends -/

/-- **Every reason** for which a statement ends the process has a property. -/
class Stops (P : ε → Prop) (x : Prog ε σ α) : Prop where
  out : ∀ s e t, x s = .abort e t → P e

namespace Stops

variable {P : ε → Prop}

instance pure (a : α) : Stops P (Pure.pure a : Prog ε σ α) where
  out _ _ _ h := by cases h

instance gets (f : σ → α) : Stops P (Prog.gets f : Prog ε σ α) where
  out _ _ _ h := by cases h

instance modify (f : σ → σ) : Stops P (Prog.modify f : Prog ε σ Unit) where
  out _ _ _ h := by cases h

instance ret : Stops P (Prog.ret : Prog ε σ α) where
  out _ _ _ h := by cases h

theorem abort {e : ε} (h : P e) : Stops P (Prog.abort e : Prog ε σ α) where
  out _ _ _ heq := by
    cases heq
    exact h

/-- Sequencing, knowing what the first statement leaves. -/
theorem seq_of {x : Prog ε σ α} {f : α → Prog ε σ β} {Q : α → σ → Prop} (hx : Stops P x)
    (hQ : ∀ s a t, x s = .ok a t → Q a t)
    (hf : ∀ a s e t, Q a s → f a s = .abort e t → P e) : Stops P (x >>= f) where
  out s e t h := by
    rw [bind_apply] at h
    cases hxs : x s with
    | ok a u => rw [hxs] at h; exact hf a u e t (hQ s a u hxs) h
    | ret u => rw [hxs] at h; cases h
    | abort e' u =>
      rw [hxs] at h
      cases h
      exact hx.out s e t hxs

instance bind {x : Prog ε σ α} {f : α → Prog ε σ β} [hx : Stops P x] [hf : ∀ a, Stops P (f a)] :
    Stops P (x >>= f) :=
  seq_of (Q := fun _ _ => True) hx (fun _ _ _ _ => trivial) fun a s e t _ h => (hf a).out s e t h

theorem seq {x : Prog ε σ α} {f : α → Prog ε σ β} (hx : Stops P x) (hf : ∀ a, Stops P (f a)) :
    Stops P (x >>= f) := inferInstance

instance map {x : Prog ε σ α} {f : α → β} [Stops P x] : Stops P (f <$> x) :=
  inferInstanceAs (Stops P (x >>= fun a => Pure.pure (f a)))

instance ite {c : Prop} [Decidable c] {x y : Prog ε σ α} [hx : Stops P x] [hy : Stops P y] :
    Stops P (if c then x else y) := by
  split
  · exact hx
  · exact hy

instance when {c : Bool} {x : Prog ε σ Unit} [hx : Stops P x] : Stops P (Prog.when c x) := by
  unfold Prog.when
  infer_instance

theorem assert {c : Bool} {e : ε} (h : c = true) : Stops P (Prog.assert c e : Prog ε σ Unit) := by
  rw [assert_of_true h]
  infer_instance

instance option {o : Option α} {x : Prog ε σ β} {f : α → Prog ε σ β} [hx : Stops P x]
    [hf : ∀ a, Stops P (f a)] : Stops P (o.elim x f) := by
  cases o with
  | none => exact hx
  | some a => exact hf a

instance firstM {f : α → Prog ε σ (Option β)} [hf : ∀ a, Stops P (f a)] (l : List α) :
    Stops P (Prog.firstM f l) := by
  induction l with
  | nil => exact Stops.pure none
  | cons a l ih =>
    unfold Prog.firstM
    refine .seq inferInstance fun o => ?_
    cases o with
    | some b => exact Stops.pure (some b)
    | none => exact ih

instance zoom {get : σ → τ} {set : σ → τ → σ} {x : Prog ε τ α} [hx : Stops P x] :
    Stops P (Prog.zoom get set x) where
  out s e t h := by
    unfold Prog.zoom at h
    cases hxs : x (get s) with
    | ok a u => rw [hxs] at h; cases h
    | ret u => rw [hxs] at h; cases h
    | abort e' u =>
      rw [hxs] at h
      cases h
      exact hx.out _ _ _ hxs

instance call {x : Prog ε σ Unit} [hx : Stops P x] : Stops P (Prog.call x) where
  out s e t h := by
    unfold Prog.call at h
    cases hxs : x s with
    | ok a u => rw [hxs] at h; cases h
    | ret u => rw [hxs] at h; cases h
    | abort e' u =>
      rw [hxs] at h
      cases h
      exact hx.out _ _ _ hxs

end Stops

end EarlyReturn
