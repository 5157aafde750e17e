import Mathlib.Algebra.Ring.Nat
import Mathlib.Data.List.Basic
import Mathlib.Tactic.Common
/-!
# Licences kept by a generation count

A log has events that grant a licence to an address, and events that
revoke whatever licence there is. A licence lasts to the next of either.
The holder may be kept with a counter of the revocations, and the address
and the counter's value at the latest grant: an address is licensed while
it is that address and the counter has that value. `Tracks.holds_iff` says
what this decides, in a counter that wraps.
-/

namespace Licence

variable {ε α : Type}

/-- The events of a log that are about licences. -/
structure Kind (ε α : Type) where
  /-- Whom an event grants a licence. -/
  grants : ε → Option α
  revokes : ε → Bool
  apart : ∀ e, revokes e = true → grants e = none

variable (K : Kind ε α)

/-- The number of revocations in a log. -/
def revocations (log : List ε) : ℕ := log.countP K.revokes

/-- The latest grant of a log, which has its latest event first, and the
events since. -/
def latest : List ε → Option (α × List ε)
  | [] => none
  | e :: log =>
    match K.grants e with
    | some a => some (a, [])
    | none => (latest log).map fun g => (g.1, e :: g.2)

variable {K} {log mid pre since : List ε} {e : ε} {a x : α}

@[simp] theorem revocations_nil : revocations K [] = 0 := rfl

@[simp] theorem revocations_append (l l' : List ε) :
    revocations K (l ++ l') = revocations K l + revocations K l' := List.countP_append

theorem revocations_cons_of_revokes (h : K.revokes e = true) :
    revocations K (e :: log) = revocations K log + 1 := List.countP_cons_of_pos h

theorem revocations_cons_of_not (h : K.revokes e = false) :
    revocations K (e :: log) = revocations K log :=
  List.countP_cons_of_neg (by simp [h])

theorem revocations_cons_le : revocations K log ≤ revocations K (e :: log) :=
  (List.sublist_cons_self e log).countP_le

theorem one_le_revocations (he : e ∈ log) (h : K.revokes e = true) : 1 ≤ revocations K log :=
  List.countP_pos_iff.mpr ⟨e, he, h⟩

theorem latest_cons_of_grants (h : K.grants e = some a) : latest K (e :: log) = some (a, []) := by
  simp [latest, h]

theorem latest_cons_of_not (h : K.grants e = none) :
    latest K (e :: log) = (latest K log).map fun g => (g.1, e :: g.2) := by
  simp [latest, h]

/-- The latest grant of a log in two parts. -/
theorem latest_append (l l' : List ε) : latest K (l ++ l') =
    (latest K l).or ((latest K l').map fun g => (g.1, l ++ g.2)) := by
  induction l with
  | nil => simp [latest]
  | cons e l ih =>
    cases h : K.grants e with
    | some a => simp [latest_cons_of_grants h]
    | none =>
      rw [List.cons_append, latest_cons_of_not h, latest_cons_of_not h, ih]
      cases latest K l <;> simp [Option.map_map, Function.comp_def]

/-- Where the latest grant stands. -/
theorem exists_of_latest (h : latest K log = some (a, since)) :
    ∃ e pre, log = since ++ e :: pre ∧ K.grants e = some a ∧ ∀ x ∈ since, K.grants x = none := by
  induction log generalizing since with
  | nil => cases h
  | cons e log ih =>
    cases hg : K.grants e with
    | some b =>
      rw [latest_cons_of_grants hg] at h
      obtain ⟨rfl, rfl⟩ := Prod.mk.inj (Option.some.inj h)
      exact ⟨e, log, rfl, hg, List.forall_mem_nil _⟩
    | none =>
      rw [latest_cons_of_not hg] at h
      obtain ⟨⟨b, s⟩, hs, heq⟩ := Option.map_eq_some_iff.mp h
      obtain ⟨rfl, rfl⟩ := Prod.mk.inj heq
      obtain ⟨e', pre, rfl, he', hno⟩ := ih hs
      exact ⟨e', pre, rfl, he', List.forall_mem_cons.mpr ⟨hg, hno⟩⟩

/-- The latest grant is the one that no other follows. -/
theorem latest_of_split (he : K.grants e = some a) (hno : ∀ x ∈ since, K.grants x = none) :
    latest K (since ++ e :: pre) = some (a, since) := by
  have hnone : latest K since = none := by
    cases h : latest K since with
    | none => rfl
    | some g =>
      obtain ⟨e', l, hl, hg, -⟩ := exists_of_latest (show latest K since = some (g.1, g.2) from h)
      have := hno e' (by rw [hl]; simp)
      rw [hg] at this
      cases this
  rw [latest_append, hnone, latest_cons_of_grants he]
  simp

section

variable {w : ℕ} (a₀ : α) (g₀ : BitVec w)

/-- The counter, the address and the stamp that are kept beside a log;
`a₀` and `g₀` are what the last two were before the first grant. -/
structure Tracks (log : List ε) (count : BitVec w) (addr : α) (stamp : BitVec w) : Prop where
  count_eq : count = BitVec.ofNat w (revocations K log)
  fresh : latest K log = none → addr = a₀ ∧ stamp = g₀
  granted : ∀ a since, latest K log = some (a, since) →
    addr = a ∧ count = stamp + BitVec.ofNat w (revocations K since)

/-- What the counter decides. -/
def Licensed (log : List ε) (x : α) : Prop :=
  match latest K log with
  | none => x = a₀ ∧ g₀ = BitVec.ofNat w (revocations K log)
  | some (a, since) => x = a ∧ revocations K since % 2 ^ w = 0

instance [DecidableEq α] (log : List ε) (x : α) : Decidable (Licensed (K := K) a₀ g₀ log x) :=
  match h : latest K log with
  | none => decidable_of_iff (x = a₀ ∧ g₀ = BitVec.ofNat w (revocations K log)) (by
      rw [Licensed, h])
  | some (a, since) => decidable_of_iff (x = a ∧ revocations K since % 2 ^ w = 0) (by
      rw [Licensed, h])

variable {a₀ g₀} {count stamp : BitVec w} {addr : α}

/-- **A licence is held** by the latest grant's address while no event has
revoked it, but for the wraps of the counter, and before the first grant by
what the registers held. -/
theorem Tracks.holds_iff (h : Tracks (K := K) a₀ g₀ log count addr stamp) :
    x = addr ∧ stamp = count ↔ Licensed (K := K) a₀ g₀ log x := by
  unfold Licensed
  cases hl : latest K log with
  | none =>
    obtain ⟨rfl, rfl⟩ := h.fresh hl
    rw [h.count_eq]
  | some g =>
    obtain ⟨rfl, hc⟩ := h.granted g.1 g.2 hl
    have hzero : stamp = count ↔ revocations K g.2 % 2 ^ w = 0 := by
      rw [hc, eq_comm, BitVec.add_right_eq_self, ← BitVec.toNat_inj, BitVec.toNat_ofNat,
        BitVec.toNat_ofNat, Nat.zero_mod]
    rw [hzero]

/-- An event of another kind. -/
theorem Tracks.other (h : Tracks (K := K) a₀ g₀ log count addr stamp) (hg : K.grants e = none)
    (hr : K.revokes e = false) : Tracks (K := K) a₀ g₀ (e :: log) count addr stamp := by
  have hlatest : latest K (e :: log) = (latest K log).map fun g => (g.1, e :: g.2) :=
    latest_cons_of_not hg
  refine ⟨by rw [revocations_cons_of_not hr, h.count_eq], fun hl => ?_, fun a since hl => ?_⟩
  · exact h.fresh (by simpa [hlatest] using hl)
  · rw [hlatest] at hl
    obtain ⟨⟨b, s⟩, hs, heq⟩ := Option.map_eq_some_iff.mp hl
    obtain ⟨rfl, rfl⟩ := Prod.mk.inj heq
    rw [revocations_cons_of_not hr]
    exact h.granted b s hs

/-- A grant stores the address and the counter. -/
theorem Tracks.grant (h : Tracks (K := K) a₀ g₀ log count addr stamp) (hg : K.grants e = some a) :
    Tracks (K := K) a₀ g₀ (e :: log) count a count := by
  have hr : K.revokes e = false := by
    by_contra hr
    rw [K.apart e (by simpa using hr)] at hg
    cases hg
  have hlatest : latest K (e :: log) = some (a, []) := latest_cons_of_grants hg
  refine ⟨by rw [revocations_cons_of_not hr, h.count_eq], fun hl => ?_, fun b since hl => ?_⟩
  · rw [hlatest] at hl
    cases hl
  · rw [hlatest] at hl
    obtain ⟨rfl, rfl⟩ := Prod.mk.inj (Option.some.inj hl)
    simp

/-- A revocation counts. -/
theorem Tracks.revoke (h : Tracks (K := K) a₀ g₀ log count addr stamp)
    (hr : K.revokes e = true) : Tracks (K := K) a₀ g₀ (e :: log) (count + 1) addr stamp := by
  have hlatest : latest K (e :: log) = (latest K log).map fun g => (g.1, e :: g.2) :=
    latest_cons_of_not (K.apart e hr)
  refine ⟨?_, fun hl => ?_, fun a since hl => ?_⟩
  · rw [revocations_cons_of_revokes hr, h.count_eq, BitVec.ofNat_add]
    rfl
  · exact h.fresh (by simpa [hlatest] using hl)
  · rw [hlatest] at hl
    obtain ⟨⟨b, s⟩, hs, heq⟩ := Option.map_eq_some_iff.mp hl
    obtain ⟨rfl, rfl⟩ := Prod.mk.inj heq
    obtain ⟨haddr, hc⟩ := h.granted b s hs
    refine ⟨haddr, ?_⟩
    rw [revocations_cons_of_revokes hr, hc, BitVec.ofNat_add, BitVec.add_assoc]
    rfl

/-- **No licence serves twice.** Between two uses of licences, the first of
which was followed by a revocation, lies a grant to the second, and it is
the latest before it. -/
theorem grant_between {y : α} (hfew : revocations K (mid ++ e :: pre) < 2 ^ w)
    (he : K.grants e = none) (huse : Licensed (K := K) a₀ g₀ pre y)
    (hrev : 1 ≤ revocations K mid) (h : Licensed (K := K) a₀ g₀ (mid ++ e :: pre) x) :
    ∃ g q₁ q₂, mid = q₁ ++ g :: q₂ ∧ K.grants g = some x ∧ ∀ z ∈ q₁, K.grants z = none := by
  rw [revocations_append] at hfew
  have hpre : revocations K pre ≤ revocations K (e :: pre) := revocations_cons_le
  cases hmid : latest K mid with
  | some g =>
    obtain ⟨g', q₂, hsplit, hg, hno⟩ := exists_of_latest (show latest K mid = some (g.1, g.2) from hmid)
    have hx : x = g.1 := by
      rw [Licensed, latest_append, hmid] at h
      exact h.1
    exact ⟨g', g.2, q₂, hsplit, hx ▸ hg, hno⟩
  | none =>
    exfalso
    have hlatest : latest K (mid ++ e :: pre) =
        (latest K pre).map fun g => (g.1, mid ++ e :: g.2) := by
      rw [latest_append, hmid, latest_cons_of_not he, Option.none_or, Option.map_map]
      rfl
    cases hl : latest K pre with
    | none =>
      -- both uses rest on what the registers held
      rw [Licensed, hl] at huse
      rw [Licensed, hlatest, hl] at h
      have heq : BitVec.ofNat w (revocations K (mid ++ e :: pre)) =
          BitVec.ofNat w (revocations K pre) := h.2.symm.trans huse.2
      rw [revocations_append, ← BitVec.toNat_inj, BitVec.toNat_ofNat, BitVec.toNat_ofNat,
        Nat.mod_eq_of_lt hfew, Nat.mod_eq_of_lt (by omega)] at heq
      omega
    | some g =>
      obtain ⟨g', l, hsplit, -, -⟩ := exists_of_latest (show latest K pre = some (g.1, g.2) from hl)
      rw [Licensed, hlatest, hl] at h
      have hzero : revocations K (mid ++ e :: g.2) % 2 ^ w = 0 := h.2
      have hle : revocations K g.2 ≤ revocations K pre := by
        rw [hsplit, revocations_append]
        omega
      have hcons : revocations K (e :: g.2) ≤ revocations K (e :: pre) := by
        have : e :: pre = (e :: g.2) ++ g' :: l := by rw [List.cons_append, ← hsplit]
        rw [this, revocations_append (e :: g.2)]
        omega
      rw [revocations_append, Nat.mod_eq_of_lt (by omega)] at hzero
      omega

end

end Licence
