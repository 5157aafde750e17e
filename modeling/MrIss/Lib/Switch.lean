import Mathlib.Data.List.Basic
import Mathlib.Data.List.Perm.Basic
/-!
# Switch statements

A switch whose arms each end it: its arms, the labels in front of each, and
the arm a value of the selector lands in. Two labels of one value make the
program no program, which is an outcome of its own.
-/

namespace MrIss

variable {κ α β : Type*}

/-- An arm of a switch: the labels in front of it and what it runs. -/
structure Arm (κ α : Type*) where
  labels : List κ
  body : α

/-- Where a value of the selector lands. -/
inductive Landing (α : Type*) where
  | arm (body : α)
  | past
  | illFormed
  deriving DecidableEq, Repr

namespace Landing

/-- What is read of the arm landed in. -/
def map (f : α → β) : Landing α → Landing β
  | arm a => arm (f a)
  | past => past
  | illFormed => illFormed

/-- A switch within the arm landed in. -/
def bind : Landing α → (α → Landing β) → Landing β
  | arm a, k => k a
  | past, _ => past
  | illFormed, _ => illFormed

@[simp] theorem map_arm (f : α → β) (a : α) : (arm a).map f = arm (f a) := rfl
@[simp] theorem map_past (f : α → β) : (past : Landing α).map f = past := rfl
@[simp] theorem map_illFormed (f : α → β) : (illFormed : Landing α).map f = illFormed := rfl
@[simp] theorem bind_arm (a : α) (k : α → Landing β) : (arm a).bind k = k a := rfl
@[simp] theorem bind_past (k : α → Landing β) : past.bind k = past := rfl

end Landing

namespace Arm

/-- The same arm with its body rewritten. -/
def map (f : α → β) (a : Arm κ α) : Arm κ β := ⟨a.labels, f a.body⟩

@[simp] theorem map_labels (f : α → β) (a : Arm κ α) : (a.map f).labels = a.labels := rfl
@[simp] theorem map_body (f : α → β) (a : Arm κ α) : (a.map f).body = f a.body := rfl

variable [DecidableEq κ]

/-- What the arms run that have a label of the value, once for each such
label. -/
def hits (s : List (Arm κ α)) (v : κ) : List α :=
  s.flatMap fun a => List.replicate (a.labels.count v) a.body

/-- **The arm a value lands in.** -/
def land (s : List (Arm κ α)) (v : κ) : Landing α :=
  match hits s v with
  | [] => .past
  | [a] => .arm a
  | _ => .illFormed

/-- A switch in which the value has at most one label. -/
structure Single (s : List (Arm κ α)) (v : κ) : Prop where
  once : ∀ a ∈ s, a.labels.count v ≤ 1
  apart : s.Pairwise fun a b => ¬ (v ∈ a.labels ∧ v ∈ b.labels)

variable {s t : List (Arm κ α)} {v : κ} {a b : Arm κ α}

@[simp] theorem hits_nil : hits ([] : List (Arm κ α)) v = [] := rfl

theorem hits_cons : hits (a :: s) v = List.replicate (a.labels.count v) a.body ++ hits s v :=
  List.flatMap_cons

/-- No label of the value, no arm. -/
theorem hits_eq_nil_iff : hits s v = [] ↔ ∀ a ∈ s, v ∉ a.labels := by
  simp [hits, List.count_eq_zero]

/-- The switch falls through exactly when no arm has the value's label. -/
theorem land_eq_past_iff : land s v = .past ↔ ∀ a ∈ s, v ∉ a.labels := by
  rw [← hits_eq_nil_iff, land]
  constructor
  · intro h
    split at h
    · assumption
    · cases h
    · cases h
  · intro h
    rw [h]

/-- Where the value has one label, the switch lands in the arm behind it. -/
theorem land_of_single (h : Single s v) (ha : a ∈ s) (hv : v ∈ a.labels) :
    land s v = .arm a.body := by
  suffices hhits : hits s v = [a.body] by rw [land, hhits]
  have hcount : a.labels.count v = 1 :=
    Nat.le_antisymm (h.once a ha) (List.count_pos_iff.2 hv)
  obtain ⟨l, r, rfl⟩ := List.append_of_mem ha
  have hp := List.pairwise_append.1 h.apart
  have hl : hits l v = [] := hits_eq_nil_iff.2 fun x hx hvx =>
    hp.2.2 x hx a List.mem_cons_self ⟨hvx, hv⟩
  have hr : hits r v = [] := hits_eq_nil_iff.2 fun x hx hvx =>
    (List.pairwise_cons.1 hp.2.1).1 x hx ⟨hv, hvx⟩
  have hsplit : hits (l ++ a :: r) v = hits l v ++ hits (a :: r) v := List.flatMap_append
  rw [hsplit, hl, hits_cons, hcount, hr]
  rfl

/-- At most one arm is hit where the value has one label. -/
theorem single_of_length (h : (hits s v).length ≤ 1) : Single s v := by
  induction s with
  | nil => exact ⟨by simp, List.Pairwise.nil⟩
  | cons a s ih =>
    rw [hits_cons, List.length_append, List.length_replicate] at h
    have hs := ih (by omega)
    refine ⟨List.forall_mem_cons.2 ⟨by omega, hs.once⟩, List.pairwise_cons.2 ⟨?_, hs.apart⟩⟩
    intro b hb ⟨hva, hvb⟩
    have h1 : 0 < a.labels.count v := List.count_pos_iff.2 hva
    have h2 : hits s v ≠ [] := fun h0 => hits_eq_nil_iff.1 h0 b hb hvb
    have h3 := List.length_pos_iff.2 h2
    omega

/-- A switch that lands in an arm has one label of the value. -/
theorem single_of_land {x : α} (h : land s v = .arm x) : Single s v := by
  apply single_of_length
  rw [land] at h
  split at h
  · cases h
  · rename_i hx
    simp [hx]
  · cases h

/-- Arms with one label each, all of them different. -/
theorem single_of_labels {ks : List κ} (h : s.map labels = ks.map fun k => [k])
    (hks : ks.Nodup) (v : κ) : Single s v := by
  induction s generalizing ks with
  | nil => exact ⟨by simp, List.Pairwise.nil⟩
  | cons a s ih =>
    obtain - | ⟨k, ks⟩ := ks
    · cases h
    · rw [List.map_cons, List.map_cons, List.cons.injEq] at h
      obtain ⟨hk, hks⟩ := List.nodup_cons.1 hks
      have hs := ih h.2 hks
      refine ⟨List.forall_mem_cons.2 ⟨?_, hs.once⟩, List.pairwise_cons.2 ⟨?_, hs.apart⟩⟩
      · rw [h.1]
        exact List.count_le_length
      · rintro b hb ⟨hva, hvb⟩
        rw [h.1, List.mem_singleton] at hva
        have hin : b.labels ∈ s.map labels := List.mem_map_of_mem hb
        rw [h.2] at hin
        obtain ⟨k', hk', hb'⟩ := List.mem_map.1 hin
        rw [← hb', List.mem_singleton] at hvb
        exact hk (hva ▸ hvb ▸ hk')

/-- The order of the arms does not matter. -/
theorem Single.perm (h : Single s v) (hp : s.Perm t) : Single t v :=
  ⟨fun a ha => h.once a (hp.mem_iff.2 ha),
    (hp.pairwise_iff fun hab hba => hab hba.symm).1 h.apart⟩

/-- Rewriting the bodies rewrites the one landed in. -/
theorem land_map (f : α → β) : land (s.map (map f)) v = (land s v).map f := by
  have hhits : hits (s.map (map f)) v = (hits s v).map f := by
    induction s with
    | nil => rfl
    | cons a s ih => simp [hits_cons, ih, List.map_replicate]
  rw [land, hhits, land]
  rcases hits s v with - | ⟨x, - | ⟨y, l⟩⟩ <;> rfl

end Arm

end MrIss
