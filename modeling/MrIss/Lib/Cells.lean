import Mathlib.Data.List.Range
import Mathlib.Order.Basic
import Mathlib.Tactic.Common
/-!
# Cells and the record of their writes

An unbounded row of cells that remembers which of them have been written,
so that a write past the end of what a program may use is seen, even one
that changes nothing.
-/

/-- Cells by their index, and the indices written, in order. -/
structure Cells (α : Type) where
  val : ℕ → α
  log : List ℕ

namespace Cells

variable {α : Type}

/-- Writes cells from an index on. -/
def write (c : Cells α) (i : ℕ) (as : List α) : Cells α :=
  { val := fun x => if i ≤ x then as[x - i]?.getD (c.val x) else c.val x
    log := c.log ++ List.range' i as.length }

/-- Every write has been to an index below a bound. -/
def Below (n : ℕ) (c : Cells α) : Prop := ∀ i ∈ c.log, i < n

instance (n : ℕ) (c : Cells α) : Decidable (Below n c) :=
  inferInstanceAs (Decidable (∀ i ∈ c.log, i < n))

variable {c : Cells α} {i n x : ℕ} {as bs : List α}

@[simp] theorem log_write : (c.write i as).log = c.log ++ List.range' i as.length := rfl

theorem write_of_lt (h : x < i) : (c.write i as).val x = c.val x := if_neg (by omega)

theorem write_of_le (h : i + as.length ≤ x) : (c.write i as).val x = c.val x := by
  show (if i ≤ x then as[x - i]?.getD (c.val x) else c.val x) = _
  rw [if_pos (by omega), List.getElem?_eq_none (by omega), Option.getD_none]

/-- **What is written is there.** -/
theorem write_of_mem (hle : i ≤ x) (hlt : x - i < as.length) :
    (c.write i as).val x = as.get ⟨x - i, hlt⟩ := by
  show (if i ≤ x then as[x - i]?.getD (c.val x) else c.val x) = _
  rw [if_pos hle, List.getElem?_eq_getElem hlt, Option.getD_some, List.get_eq_getElem]

@[simp] theorem write_nil : c.write i [] = c := by
  show Cells.mk _ _ = c
  simp

/-- Two writes in a row are one. -/
theorem write_append (c : Cells α) (i : ℕ) (as bs : List α) :
    (c.write i as).write (i + as.length) bs = c.write i (as ++ bs) := by
  have hval : ((c.write i as).write (i + as.length) bs).val = (c.write i (as ++ bs)).val := by
    funext x
    rcases Nat.lt_or_ge x i with hx | hx
    · rw [write_of_lt (by omega), write_of_lt hx, write_of_lt hx]
    rcases Nat.lt_or_ge x (i + as.length) with ha | ha
    · rw [write_of_lt ha, write_of_mem hx (by omega),
        write_of_mem hx (by rw [List.length_append]; omega)]
      simp only [List.get_eq_getElem]
      rw [List.getElem_append_left]
    rcases Nat.lt_or_ge x (i + as.length + bs.length) with hb | hb
    · rw [write_of_mem ha (by omega), write_of_mem hx (by rw [List.length_append]; omega)]
      simp only [List.get_eq_getElem]
      rw [List.getElem_append_right (by omega)]
      congr 1
      omega
    · rw [write_of_le hb, write_of_le ha, write_of_le (by rw [List.length_append]; omega)]
  have hlog : ((c.write i as).write (i + as.length) bs).log = (c.write i (as ++ bs)).log := by
    simp only [log_write, List.append_assoc, List.length_append, List.range'_append_1]
  show Cells.mk _ _ = Cells.mk _ _
  rw [Cells.mk.injEq]
  exact ⟨hval, hlog⟩

/-! ## Bounds -/

theorem below_nil (v : ℕ → α) : Below n ⟨v, []⟩ := fun _ h => absurd h (by simp)

/-- A write stays below a bound that it ends at. -/
theorem Below.write (h : Below n c) (hn : i + as.length ≤ n) : Below n (c.write i as) := by
  intro x hx
  rw [log_write, List.mem_append, List.mem_range'_1] at hx
  rcases hx with hx | hx
  · exact h x hx
  · omega

/-- A write that reaches the bound is seen. -/
theorem not_below_write (ha : as ≠ []) (hn : n ≤ i) : ¬ Below n (c.write i as) := by
  have hpos := List.length_pos_iff.mpr ha
  intro h
  have := h i (by rw [log_write, List.mem_append, List.mem_range'_1]; omega)
  omega

/-- And nothing later undoes it. -/
theorem Below.of_write (h : Below n (c.write i as)) : Below n c := fun x hx =>
  h x (by rw [log_write, List.mem_append]; exact .inl hx)

end Cells
