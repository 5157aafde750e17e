import Mathlib.Algebra.CharP.Two
import Mathlib.Algebra.Field.ZMod
import Mathlib.Algebra.Polynomial.Div
import Mathlib.Tactic.LinearCombination
/-!
# Cyclic redundancy checks

A word of `w` bits is a polynomial over the field of two elements of a
degree below `w`. Long division by `X ^ w + g`, a bit at a time, leaves the
remainder; a register that takes a bit in at its other end leaves the
remainder of the bits moved up by `w`, which is their CRC.
-/

namespace Crc

open Polynomial

/-! ## Long division -/

section

variable {w : ℕ}

/-- The bits of a word, most significant first. -/
def bits (v : BitVec w) : List Bool := (List.range w).map v.getMsbD

/-- A step of the division: the next bit is brought down, and the divisor
taken off where the bit above the remainder is set. -/
def bringDown (g r : BitVec w) (b : Bool) : BitVec w :=
  (r <<< 1 ^^^ (if b then BitVec.ofNat w 1 else 0)) ^^^ (if r.msb then g else 0)

/-- The remainder of bits by `X ^ w + g`. -/
def remainder (g : BitVec w) (bs : List Bool) : BitVec w := bs.foldl (bringDown g) 0

/-- The CRC of bits: the remainder of what they are with `w` zeroes behind. -/
def crc (g : BitVec w) (bs : List Bool) : BitVec w := remainder g (bs ++ List.replicate w false)

/-- A register that takes a bit in above. -/
def feed (g r : BitVec w) (b : Bool) : BitVec w :=
  r <<< 1 ^^^ (if r.msb ^^ b then g else 0)

end

/-! ## Polynomials -/

/-- A bit of the field. -/
def bit (b : Bool) : ZMod 2 := if b then 1 else 0

theorem bit_xor (a b : Bool) : bit (a ^^ b) = bit a + bit b := by
  cases a <;> cases b <;> decide

variable {w : ℕ} {g r : BitVec w}

/-- The polynomial of a word. -/
noncomputable def toPoly (r : BitVec w) : (ZMod 2)[X] :=
  ∑ i ∈ Finset.range w, C (bit (r.getLsbD i)) * X ^ i

/-- The polynomial of bits, most significant first. -/
noncomputable def ofBits (bs : List Bool) : (ZMod 2)[X] :=
  bs.foldl (fun p b => p * X + C (bit b)) 0

/-- The divisor. -/
noncomputable def divisor (g : BitVec w) : (ZMod 2)[X] := X ^ w + toPoly g

theorem coeff_toPoly (r : BitVec w) (i : ℕ) : (toPoly r).coeff i = bit (r.getLsbD i) := by
  rw [toPoly, finsetSum_coeff]
  simp only [coeff_C_mul_X_pow]
  rw [Finset.sum_ite_eq]
  split_ifs with hi
  · rfl
  · rw [BitVec.getLsbD_of_ge r i (by simpa using hi)]
    rfl

theorem degree_toPoly_lt (r : BitVec w) : (toPoly r).degree < w := by
  rw [degree_lt_iff_coeff_zero]
  intro i hi
  rw [coeff_toPoly, BitVec.getLsbD_of_ge r i hi]
  rfl

theorem toPoly_injective {a b : BitVec w} (h : toPoly a = toPoly b) : a = b := by
  refine BitVec.eq_of_getLsbD_eq fun i _ => ?_
  have hcoeff := congrArg (fun p : (ZMod 2)[X] => p.coeff i) h
  simp only [coeff_toPoly] at hcoeff
  revert hcoeff
  cases a.getLsbD i <;> cases b.getLsbD i <;> decide

theorem toPoly_xor (a b : BitVec w) : toPoly (a ^^^ b) = toPoly a + toPoly b := by
  ext i
  rw [coeff_add, coeff_toPoly, coeff_toPoly, coeff_toPoly, BitVec.getLsbD_xor, bit_xor]

@[simp] theorem toPoly_zero : toPoly 0#w = 0 := by
  ext i
  rw [coeff_toPoly, coeff_zero]
  simp [bit]

theorem toPoly_ite (b : Bool) : toPoly (if b then g else 0) = C (bit b) * toPoly g := by
  cases b <;> simp [bit]

/-- The lowest bit on its own. -/
theorem toPoly_one (hw : 0 < w) (b : Bool) :
    toPoly (if b then BitVec.ofNat w 1 else 0) = C (bit b) := by
  cases b with
  | false => simp [bit]
  | true =>
    ext i
    rw [coeff_toPoly, coeff_C]
    rcases Nat.eq_zero_or_pos i with rfl | hi
    · simp [bit, hw]
    · simp [bit, Nat.pos_iff_ne_zero.mp hi]

/-- What a shift pushes out is the power of the word's width. -/
theorem toPoly_shiftLeft (hw : 0 < w) (r : BitVec w) :
    toPoly (r <<< 1) + C (bit r.msb) * X ^ w = toPoly r * X := by
  ext i
  rw [coeff_add, coeff_toPoly, coeff_C_mul_X_pow]
  rcases i with - | i
  · rw [coeff_mul_X_zero]
    simp [bit]
    omega
  · rw [coeff_mul_X, coeff_toPoly, BitVec.getLsbD_shiftLeft]
    rcases Nat.lt_trichotomy (i + 1) w with hi | hi | hi
    · rw [if_neg (by omega), add_zero]
      simp [hi]
    · rw [if_pos hi, BitVec.msb_eq_getLsbD_last]
      simp [hi, show w - 1 = i by omega, bit]
    · rw [if_neg (by omega), add_zero, BitVec.getLsbD_of_ge r i (by omega)]
      simp [show ¬ i + 1 < w by omega]

theorem monic_divisor (g : BitVec w) : (divisor g).Monic := monic_X_pow_add (degree_toPoly_lt g)

theorem degree_divisor (g : BitVec w) : (divisor g).degree = w := by
  rw [divisor, degree_add_eq_left_of_degree_lt (by rw [degree_X_pow]; exact degree_toPoly_lt g),
    degree_X_pow]

/-- A word that is congruent to a polynomial is its remainder. -/
theorem toPoly_eq_mod {p : (ZMod 2)[X]} (h : divisor g ∣ toPoly r - p) :
    toPoly r = p %ₘ divisor g := by
  rw [← modByMonic_eq_of_dvd_sub (monic_divisor g) h]
  refine ((modByMonic_eq_self_iff (monic_divisor g)).mpr ?_).symm
  rw [degree_divisor]
  exact degree_toPoly_lt r

/-- One step of the division, but for a multiple of the divisor. -/
theorem toPoly_bringDown (hw : 0 < w) (g r : BitVec w) (b : Bool) :
    toPoly (bringDown g r b) =
      toPoly r * X + C (bit b) - C (bit r.msb) * divisor g := by
  rw [bringDown, toPoly_xor, toPoly_xor, toPoly_one hw, toPoly_ite, divisor, ← toPoly_shiftLeft hw,
    CharTwo.sub_eq_add]
  have htwo := CharTwo.add_self_eq_zero (C (bit r.msb) * X ^ w : (ZMod 2)[X])
  linear_combination -htwo

/-- One step of the register, but for a multiple of the divisor. -/
theorem toPoly_feed (hw : 0 < w) (g r : BitVec w) (b : Bool) :
    toPoly (feed g r b) =
      toPoly r * X + C (bit b) * X ^ w - C (bit (r.msb ^^ b)) * divisor g := by
  rw [feed, toPoly_xor, toPoly_ite, divisor, ← toPoly_shiftLeft hw, CharTwo.sub_eq_add, bit_xor,
    C_add]
  have hmsb := CharTwo.add_self_eq_zero (C (bit r.msb) * X ^ w : (ZMod 2)[X])
  have hb := CharTwo.add_self_eq_zero (C (bit b) * X ^ w : (ZMod 2)[X])
  linear_combination -hmsb - hb

/-- A step brings a congruence with one more bit. -/
theorem ofBits_append (bs : List Bool) (b : Bool) :
    ofBits (bs ++ [b]) = ofBits bs * X + C (bit b) := by
  rw [ofBits, List.foldl_append]
  rfl

/-- **Long division leaves the remainder.** -/
theorem toPoly_remainder (hw : 0 < w) (g : BitVec w) (bs : List Bool) :
    toPoly (remainder g bs) = ofBits bs %ₘ divisor g := by
  refine toPoly_eq_mod ?_
  induction bs using List.reverseRecOn with
  | nil => simp [remainder, ofBits]
  | append_singleton bs b ih =>
    obtain ⟨q, hq⟩ := ih
    rw [remainder, List.foldl_append, List.foldl_cons, List.foldl_nil, ← remainder,
      toPoly_bringDown hw, ofBits_append]
    exact ⟨q * X - C (bit (remainder g bs).msb), by linear_combination X * hq⟩

/-- Zeroes behind are a power of the indeterminate. -/
theorem ofBits_append_zeroes (bs : List Bool) (n : ℕ) :
    ofBits (bs ++ List.replicate n false) = ofBits bs * X ^ n := by
  induction n with
  | zero => rw [List.replicate_zero, List.append_nil, pow_zero, mul_one]
  | succ n ih =>
    rw [List.replicate_succ', ← List.append_assoc, ofBits_append, ih, pow_succ, mul_assoc]
    simp [bit]

/-- **The CRC is the remainder of the bits moved up.** -/
theorem toPoly_crc (hw : 0 < w) (g : BitVec w) (bs : List Bool) :
    toPoly (crc g bs) = (ofBits bs * X ^ w) %ₘ divisor g := by
  rw [crc, toPoly_remainder hw, ofBits_append_zeroes]

/-- **The register has the CRC.** -/
theorem crc_eq_foldl (hw : 0 < w) (g : BitVec w) (bs : List Bool) :
    crc g bs = bs.foldl (feed g) 0 := by
  refine toPoly_injective ?_
  rw [toPoly_crc hw]
  refine (toPoly_eq_mod ?_).symm
  induction bs using List.reverseRecOn with
  | nil => simp [ofBits]
  | append_singleton bs b ih =>
    obtain ⟨q, hq⟩ := ih
    rw [List.foldl_append, List.foldl_cons, List.foldl_nil, toPoly_feed hw, ofBits_append]
    exact ⟨q * X - C (bit ((bs.foldl (feed g) 0).msb ^^ b)), by linear_combination X * hq⟩

/-! ## Tables

A register of `n` bits may hold the CRC at its upper end, so that a word of
`n` bits is taken in at once. -/

section

variable {n : ℕ}

/-- A CRC at the upper end of a register. -/
def lift (n : ℕ) (r : BitVec w) : BitVec n := r.setWidth n <<< (n - w)

/-- The register moved up by one. -/
def step (g : BitVec w) (e : BitVec n) : BitVec n :=
  e <<< 1 ^^^ (if e.msb then lift n g else 0)

/-- What a table of the words of `n` bits has. -/
def entry (g : BitVec w) (e : BitVec n) : BitVec n := (step g)^[n] e

theorem lift_zero : lift n (0 : BitVec w) = 0 := by
  simp [lift]

theorem lift_xor (a b : BitVec w) : lift n (a ^^^ b) = lift n a ^^^ lift n b := by
  rw [lift, BitVec.setWidth_xor, BitVec.shiftLeft_xor_distrib, lift, lift]

theorem lift_ite (b : Bool) (a : BitVec w) :
    lift n (if b then a else 0) = if b then lift n a else 0 := by
  cases b
  · exact lift_zero
  · rfl

theorem lift_shiftLeft (hn : w ≤ n) (r : BitVec w) : lift n (r <<< 1) = lift n r <<< 1 := by
  refine BitVec.eq_of_getLsbD_eq fun i hi => ?_
  simp only [lift, BitVec.getLsbD_shiftLeft, BitVec.getLsbD_setWidth]
  grind

theorem msb_lift (hw : 0 < w) (hn : w ≤ n) (r : BitVec w) : (lift n r).msb = r.msb := by
  rw [BitVec.msb_eq_getLsbD_last, BitVec.msb_eq_getLsbD_last, lift, BitVec.getLsbD_shiftLeft,
    BitVec.getLsbD_setWidth]
  have hi : n - 1 - (n - w) = w - 1 := by omega
  have hin : n - 1 < n := by omega
  have hbehind : ¬ n - 1 < n - w := by omega
  have hlt : w - 1 < n := by omega
  simp only [hi, hin, hbehind, hlt, decide_true, decide_false, Bool.not_false, Bool.true_and]

/-- One bit of a word that is taken in. -/
theorem step_lift (hw : 0 < w) (hn : w ≤ n) (g r : BitVec w) (d : BitVec n) :
    step g (lift n r ^^^ d) = lift n (feed g r d.msb) ^^^ d <<< 1 := by
  have hmsb : (lift n r ^^^ d).msb = (r.msb ^^ d.msb) := by
    rw [BitVec.msb_xor, msb_lift hw hn]
  rw [step, hmsb, BitVec.shiftLeft_xor_distrib, feed, lift_xor, lift_ite, lift_shiftLeft hn]
  ac_rfl

/-- **A word at once.** The table takes in a word as the register takes in
its bits. -/
theorem entry_lift (hw : 0 < w) (hn : w ≤ n) (g r : BitVec w) (d : BitVec n) :
    entry g (lift n r ^^^ d) = lift n ((bits d).foldl (feed g) r) := by
  have hrun : ∀ k ≤ n, (step g)^[k] (lift n r ^^^ d) =
      lift n (((List.range k).map d.getMsbD).foldl (feed g) r) ^^^ d <<< k := by
    intro k
    induction k with
    | zero =>
      intro _
      rw [BitVec.shiftLeft_zero]
      rfl
    | succ k ih =>
      intro hk
      have hmsb : (d <<< k).msb = d.getMsbD k := by
        rw [BitVec.msb, BitVec.getMsbD_shiftLeft, Nat.zero_add]
      rw [Function.iterate_succ_apply', ih (by omega), step_lift hw hn, hmsb, List.range_succ,
        List.map_append, List.foldl_append, ← BitVec.shiftLeft_add]
      rfl
  rw [entry, hrun n le_rfl, BitVec.shiftLeft_eq_zero le_rfl, BitVec.xor_zero, bits]

/-- Words one after the other. -/
theorem foldl_entry (hw : 0 < w) (hn : w ≤ n) (g r : BitVec w) (ds : List (BitVec n)) :
    ds.foldl (fun c d => entry g (c ^^^ d)) (lift n r) =
      lift n ((ds.flatMap bits).foldl (feed g) r) := by
  induction ds generalizing r with
  | nil => rfl
  | cons d ds ih =>
    rw [List.foldl_cons, entry_lift hw hn, ih, List.flatMap_cons, List.foldl_append]

/-- **The CRC of words, by the table.** -/
theorem foldl_entry_zero (hw : 0 < w) (hn : w ≤ n) (g : BitVec w) (ds : List (BitVec n)) :
    ds.foldl (fun c d => entry g (c ^^^ d)) 0 = lift n (crc g (ds.flatMap bits)) := by
  rw [crc_eq_foldl hw, ← foldl_entry hw hn, lift_zero]

end

end Crc
