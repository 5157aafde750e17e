import Mathlib.Data.List.Basic
import Mathlib.Data.Nat.Notation
/-!
# Chains of linked nodes

Nodes are named by their addresses and linked by a function from each to
the next; zero names none. A chain is the list of the nodes met from an
address on, and a walk along it stops at the first node that is looked
for.
-/

namespace Chain

/-- The nodes met from an address on. -/
def Links (next : ℕ → ℕ) : ℕ → List ℕ → Prop
  | p, [] => p = 0
  | p, q :: l => p = q ∧ q ≠ 0 ∧ Links next (next q) l

/-- Walks until a node is hit; `none` where more than `fuel` nodes would be
looked at, and zero where no node is hit. -/
def walk (next : ℕ → ℕ) (hit : ℕ → Bool) : ℕ → ℕ → Option ℕ
  | 0, _ => none
  | fuel + 1, p =>
    if p = 0 then some 0
    else if hit p then some p
    else walk next hit fuel (next p)

variable {next next' : ℕ → ℕ} {hit : ℕ → Bool} {p : ℕ} {l : List ℕ}

@[simp] theorem links_nil : Links next 0 [] := rfl

/-- A new head. -/
theorem Links.cons (h : Links next p l) {q : ℕ} (hq : q ≠ 0) (hnext : next q = p) :
    Links next q (q :: l) := ⟨rfl, hq, by rwa [hnext]⟩

/-- A chain depends on the links of its nodes. -/
theorem Links.congr (h : Links next p l) (heq : ∀ q ∈ l, next' q = next q) :
    Links next' p l := by
  induction l generalizing p with
  | nil => exact h
  | cons q l ih =>
    obtain ⟨hpq, hq, hl⟩ := h
    refine ⟨hpq, hq, ?_⟩
    rw [heq q List.mem_cons_self]
    exact ih hl fun r hr => heq r (List.mem_cons_of_mem _ hr)

/-- **A walk along a chain ends**, at the first node of the chain that is
hit. -/
theorem walk_of_links (h : Links next p l) {fuel : ℕ} (hfuel : l.length < fuel) :
    walk next hit fuel p = some ((l.find? hit).getD 0) := by
  induction l generalizing p fuel with
  | nil =>
    obtain ⟨fuel, rfl⟩ := Nat.exists_eq_add_of_lt hfuel
    have hp : p = 0 := h
    rw [walk, if_pos hp]
    rfl
  | cons q l ih =>
    obtain ⟨rfl, hq, hl⟩ := h
    obtain ⟨fuel, rfl⟩ : ∃ n, fuel = n + 1 := ⟨fuel - 1, by omega⟩
    rw [walk, if_neg hq]
    rw [List.length_cons] at hfuel
    by_cases hhit : hit p = true
    · rw [if_pos hhit, List.find?_cons_of_pos hhit, Option.getD_some]
    · rw [if_neg hhit, List.find?_cons_of_neg hhit]
      exact ih hl (by omega)

/-- **What a walk hits** is a node of the chain. -/
theorem walk_hit (h : Links next p l) {fuel q : ℕ} (hw : walk next hit fuel p = some q)
    (hq : q ≠ 0) : q ∈ l ∧ hit q = true := by
  induction fuel generalizing p l with
  | zero => cases hw
  | succ fuel ih =>
    rw [walk] at hw
    split at hw
    · exact absurd (Option.some.inj hw).symm hq
    · next hp =>
      obtain _ | ⟨r, l⟩ := l
      · exact absurd h hp
      obtain ⟨rfl, -, hl⟩ := h
      split at hw
      · next hhit =>
        obtain rfl := Option.some.inj hw
        exact ⟨List.mem_cons_self, hhit⟩
      · obtain ⟨hmem, hhit⟩ := ih hl hw
        exact ⟨List.mem_cons_of_mem _ hmem, hhit⟩

end Chain
