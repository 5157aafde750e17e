import Mathlib.Algebra.Ring.Nat
import Mathlib.Data.List.Induction
/-!
# The lines of a stream

A line is what stands before a terminator. `complete` are the lines of a
stream, without their terminators, and `rest` is what stands after the
last one: the beginning of a line that may still be completed.
-/

namespace Lines

variable {α : Type} [DecidableEq α] {nl : α} {r s t : List α}

/-- One more item: it completes the line begun, or is part of it. -/
def step (nl : α) (p : List (List α) × List α) (a : α) : List (List α) × List α :=
  if a = nl then (p.1 ++ [p.2], []) else (p.1, p.2 ++ [a])

def complete (nl : α) (s : List α) : List (List α) := (s.foldl (step nl) ([], [])).1

def rest (nl : α) (s : List α) : List α := (s.foldl (step nl) ([], [])).2

@[simp] theorem complete_nil : complete nl [] = [] := rfl

@[simp] theorem rest_nil : rest nl [] = [] := rfl

/-- The lines that are there already stay in front. -/
theorem foldl_step (nl : α) (ls : List (List α)) (r s : List α) :
    s.foldl (step nl) (ls, r) =
      (ls ++ (s.foldl (step nl) ([], r)).1, (s.foldl (step nl) ([], r)).2) := by
  induction s generalizing ls r with
  | nil => simp
  | cons a s ih =>
    rw [List.foldl_cons, List.foldl_cons]
    by_cases ha : a = nl
    · simp only [step, if_pos ha, List.nil_append]
      rw [ih (ls ++ [r]) [], ih [r] []]
      simp
    · simp only [step, if_neg ha]
      exact ih ls (r ++ [a])

/-- A line begun takes in what is no terminator. -/
theorem foldl_step_of_not_mem (h : nl ∉ s) (ls : List (List α)) (r : List α) :
    s.foldl (step nl) (ls, r) = (ls, r ++ s) := by
  induction s generalizing r with
  | nil => simp
  | cons a s ih =>
    rw [List.mem_cons, not_or] at h
    rw [List.foldl_cons, step, if_neg (Ne.symm h.1), ih h.2]
    simp

theorem complete_of_not_mem (h : nl ∉ s) : complete nl s = [] := by
  rw [complete, foldl_step_of_not_mem h]

theorem rest_of_not_mem (h : nl ∉ s) : rest nl s = s := by
  rw [rest, foldl_step_of_not_mem h, List.nil_append]

/-- A line begun has no terminator in it. -/
theorem not_mem_rest (s : List α) : nl ∉ rest nl s := by
  induction s using List.reverseRecOn with
  | nil => simp
  | append_singleton s a ih =>
    rw [rest, List.foldl_append, List.foldl_cons, List.foldl_nil, step]
    split
    case isTrue => simp
    case isFalse ha =>
      rw [List.mem_append, List.mem_singleton, not_or]
      exact ⟨ih, Ne.symm ha⟩

/-- A line begun is where the stream goes on. -/
theorem foldl_rest (s t : List α) : (rest nl s ++ t).foldl (step nl) ([], []) =
    t.foldl (step nl) ([], rest nl s) := by
  rw [List.foldl_append, foldl_step_of_not_mem (not_mem_rest s), List.nil_append]

/-- **More of a stream** goes on from the line begun. -/
theorem complete_append (s t : List α) :
    complete nl (s ++ t) = complete nl s ++ complete nl (rest nl s ++ t) := by
  have h := congrArg Prod.fst (foldl_step nl (complete nl s) (rest nl s) t)
  rw [← foldl_rest] at h
  rw [complete, List.foldl_append]
  exact h

theorem rest_append (s t : List α) : rest nl (s ++ t) = rest nl (rest nl s ++ t) := by
  have h := congrArg Prod.snd (foldl_step nl (complete nl s) (rest nl s) t)
  rw [← foldl_rest] at h
  rw [rest, List.foldl_append]
  exact h

/-- The terminator of a line. -/
theorem complete_append_singleton (s : List α) :
    complete nl (s ++ [nl]) = complete nl s ++ [rest nl s] := by
  rw [complete, List.foldl_append, List.foldl_cons, List.foldl_nil, step, if_pos rfl]
  rfl

theorem rest_append_singleton (s : List α) : rest nl (s ++ [nl]) = [] := by
  rw [rest, List.foldl_append, List.foldl_cons, List.foldl_nil, step, if_pos rfl]

theorem complete_append_of_ne {a : α} (h : a ≠ nl) (s : List α) :
    complete nl (s ++ [a]) = complete nl s := by
  rw [complete, List.foldl_append, List.foldl_cons, List.foldl_nil, step, if_neg h]
  rfl

theorem rest_append_of_ne {a : α} (h : a ≠ nl) (s : List α) :
    rest nl (s ++ [a]) = rest nl s ++ [a] := by
  rw [rest, List.foldl_append, List.foldl_cons, List.foldl_nil, step, if_neg h]
  rfl

/-- The first line, with what has begun it. -/
theorem complete_line (h : nl ∉ r) (s : List α) :
    complete nl (r ++ nl :: s) = r :: complete nl s := by
  rw [List.append_cons, complete_append, complete_append_singleton, rest_append_singleton,
    complete_of_not_mem h, rest_of_not_mem h]
  rfl

theorem rest_line (r s : List α) : rest nl (r ++ nl :: s) = rest nl s := by
  rw [List.append_cons, rest_append]
  exact congrArg (fun l => rest nl (l ++ s)) (rest_append_singleton r)

/-- What is left of a line begun is what is left of the line. -/
theorem rest_suffix (h : r <:+ t) (ht : nl ∉ t) (s : List α) :
    rest nl (r ++ s) <:+ rest nl (t ++ s) := by
  by_cases hs : nl ∈ s
  · obtain ⟨l, s', rfl, hl⟩ := List.eq_append_cons_of_mem hs
    simp only [← List.append_assoc, rest_line, List.suffix_refl]
  · have hr : nl ∉ r := fun hmem => ht (h.subset hmem)
    rw [rest_of_not_mem (by simp [hr, hs]), rest_of_not_mem (by simp [ht, hs])]
    obtain ⟨p, rfl⟩ := h
    exact ⟨p, by simp⟩

end Lines
