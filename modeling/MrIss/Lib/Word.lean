import Mathlib.Data.Int.Bitwise
import MrIss.Lib.Block
/-!
# Words and the numbers they stand for

What the operations of fixed-width words compute of the numbers that the
words are, unsigned and signed: sums with a carry, products by their two
halves, shifts that round down, and masks and rotations by their bits.
-/

namespace MrIss.Word

variable {w v : ℕ}

/-! ## Bits -/

/-- A test of one bit. -/
theorem and_twoPow_bne (x : BitVec w) {k : ℕ} (hk : k < w) :
    (x &&& BitVec.twoPow w k != 0#w) = x.getLsbD k := by
  rw [BitVec.and_twoPow]
  cases h : x.getLsbD k with
  | false => simp
  | true =>
    have hne : BitVec.twoPow w k ≠ 0#w := fun h0 => by
      have := congrArg (·.getLsbD k) h0
      simp [hk] at this
    simpa using hne

/-- A bit that is cleared, then set or not. -/
theorem getLsbD_clear_or (x bit : BitVec w) (b : Bool) (i : ℕ) (hi : i < w) :
    ((x &&& ~~~bit) ||| (if b then bit else 0#w)).getLsbD i =
      if bit.getLsbD i then b else x.getLsbD i := by
  have hnot : (~~~bit).getLsbD i = !bit.getLsbD i := by simp [hi]
  rw [BitVec.getLsbD_or, BitVec.getLsbD_and, hnot]
  cases b <;> cases hb : bit.getLsbD i <;> simp [hb]

/-- A field that is cleared and written. -/
theorem getLsbD_insert (x : BitVec w) {z : BitVec w} {n k i : ℕ} (hz : z.toNat < 2 ^ k)
    (hi : i < w) :
    ((x &&& ~~~(BitVec.ofNat w (2 ^ k - 1) <<< n)) ||| (z <<< n)).getLsbD i =
      if n ≤ i ∧ i < n + k then z.getLsbD (i - n) else x.getLsbD i := by
  rw [BitVec.getLsbD_or, BitVec.getLsbD_and, BitVec.getLsbD_not, BitVec.getLsbD_shiftLeft,
    BitVec.getLsbD_shiftLeft, BitVec.getLsbD_ofNat, Nat.testBit_two_pow_sub_one]
  by_cases hn : i < n
  · have hout : ¬ (n ≤ i ∧ i < n + k) := by omega
    simp [hn, hi, hout]
  · by_cases hk : i < n + k
    · have hin : n ≤ i ∧ i < n + k := by omega
      have hlow : i - n < w ∧ i - n < k := by omega
      simp [hn, hi, hin, hlow]
    · -- above the field the new bits are zero
      have hz0 : z.getLsbD (i - n) = false := by
        rw [BitVec.getLsbD]
        exact Nat.testBit_lt_two_pow
          (Nat.lt_of_lt_of_le hz (Nat.pow_le_pow_right (by decide) (by omega)))
      have hlow : ¬ i - n < k := by omega
      simp [hn, hi, hk, hz0, hlow]

/-- The bit above a word of a sum is its carry. -/
theorem testBit_carry {n : ℕ} (h : n < 2 ^ (w + 1)) : n.testBit w = decide (2 ^ w ≤ n) := by
  by_cases hw : 2 ^ w ≤ n
  · rw [Nat.testBit_of_two_pow_le_and_two_pow_add_one_gt hw h, decide_eq_true hw]
  · rw [Nat.testBit_lt_two_pow (Nat.lt_of_not_le hw), decide_eq_false hw]

/-- The low bits of a word. -/
theorem toNat_and_low (x : BitVec w) {k : ℕ} (hk : k < w) :
    (x &&& (1#w <<< k - 1#w)).toNat = x.toNat % 2 ^ k := by
  have hone : 1 < 2 ^ w := Nat.one_lt_two_pow (by omega)
  have hlt : 2 ^ k < 2 ^ w := Nat.pow_lt_pow_right (by decide) hk
  have hpos : 0 < 2 ^ k := Nat.two_pow_pos k
  have hmask : (1#w <<< k - 1#w).toNat = 2 ^ k - 1 := by
    rw [BitVec.toNat_sub_of_le, BitVec.toNat_shiftLeft, BitVec.toNat_ofNat,
      Nat.mod_eq_of_lt hone, Nat.one_shiftLeft, Nat.mod_eq_of_lt hlt]
    rw [BitVec.le_def, BitVec.toNat_shiftLeft, BitVec.toNat_ofNat, Nat.mod_eq_of_lt hone,
      Nat.one_shiftLeft, Nat.mod_eq_of_lt hlt]
    omega
  rw [BitVec.toNat_and, hmask, Nat.and_two_pow_sub_one_eq_mod]

/-- A test of what is left of a word that is shifted. -/
theorem ushiftRight_bne (x c : BitVec w) (k : ℕ) :
    (x >>> k != c) = decide (x.toNat / 2 ^ k ≠ c.toNat) := by
  rw [Bool.eq_iff_iff, bne_iff_ne, decide_eq_true_iff, ne_eq, ne_eq, ← BitVec.toNat_inj,
    BitVec.toNat_ushiftRight, Nat.shiftRight_eq_div_pow]

/-- A remainder is zero where no bit is below. -/
theorem mod_two_pow_ne_zero_iff {n k : ℕ} : n % 2 ^ k ≠ 0 ↔ ∃ j < k, n.testBit j = true := by
  constructor
  · intro h
    obtain ⟨j, hj⟩ := Nat.exists_testBit_of_ne_zero h
    rw [Nat.testBit_mod_two_pow, Bool.and_eq_true, decide_eq_true_eq] at hj
    exact ⟨j, hj⟩
  · rintro ⟨j, hj, hbit⟩ h
    have := congrArg (·.testBit j) h
    simp [hj, hbit] at this

/-! ## Signs -/

theorem msb_eq_neg (x : BitVec w) : x.msb = decide (x.toInt < 0) := by
  cases h : x.msb with
  | true => exact (decide_eq_true (BitVec.toInt_neg_of_msb_true h)).symm
  | false =>
    rw [BitVec.toInt_eq_msb_cond, h, if_neg (by decide)]
    exact (decide_eq_false (by omega)).symm

/-- The complement of a word is what is left of -1. -/
theorem toInt_not (x : BitVec w) (hw : 0 < w) : (~~~x).toInt = -x.toInt - 1 := by
  have hx := x.isLt
  have hnot : (~~~x).toNat = 2 ^ w - 1 - x.toNat := BitVec.toNat_not
  rw [BitVec.toInt_eq_msb_cond, BitVec.toInt_eq_msb_cond, BitVec.msb_not, hnot]
  cases h : x.msb <;> simp only [hw, decide_true, Bool.not_true, Bool.not_false, Bool.and_self,
    Bool.and_false, if_true, Bool.false_eq_true, if_false] <;> omega

/-- A word shifted left and back is its low part, sign-extended. -/
theorem sshiftRight_shiftLeft (x : BitVec w) {k : ℕ} (hk : k < w) :
    (x <<< k).sshiftRight k = (x.setWidth (w - k)).signExtend w := by
  apply BitVec.eq_of_getLsbD_eq
  intro i hi
  rw [BitVec.getLsbD_sshiftRight, BitVec.getLsbD_signExtend, BitVec.getLsbD_setWidth,
    BitVec.getLsbD_shiftLeft, BitVec.msb_eq_getLsbD_last, BitVec.msb_eq_getLsbD_last,
    BitVec.getLsbD_setWidth, BitVec.getLsbD_shiftLeft]
  by_cases h : i < w - k
  · have hlow : ¬ w ≤ i ∧ k + i < w := by omega
    simp [hi, h, hlow]
  · -- above the low part both have its sign
    have hhigh : ¬ w ≤ i ∧ ¬ k + i < w ∧ ¬ w - 1 < k ∧ w - 1 < w ∧ w - k - 1 < w - k ∧
        w - 1 - k = w - k - 1 := by omega
    simp [hi, h, hhigh]

/-- The sum of two words and a carry. -/
def sum (a b : BitVec w) (c : Bool) : BitVec w :=
  BitVec.ofNat w (a.toNat + b.toNat + c.toNat)

theorem sum_lt (a b : BitVec w) (c : Bool) : a.toNat + b.toNat + c.toNat < 2 ^ (w + 1) := by
  have := a.isLt
  have := b.isLt
  have := c.toNat_le
  rw [Nat.pow_succ]
  omega

/-- **Overflow shows in the signs,** the carry in included: the exact sum of
two words and a carry is out of range where the words have one sign and the
sum has the other. -/
theorem overflow_iff (a b : BitVec (w + 1)) (c : Bool) :
    (a.msb = b.msb ∧ (sum a b c).msb ≠ a.msb) ↔
      ¬ (-2 ^ w ≤ a.toInt + b.toInt + (c.toNat : ℤ) ∧ a.toInt + b.toInt + c.toNat < 2 ^ w) := by
  have ha := a.isLt
  have hb := b.isLt
  have hc := c.toNat_le
  obtain ⟨n, hn⟩ : ∃ n, n = a.toNat + b.toNat + c.toNat := ⟨_, rfl⟩
  obtain ⟨p, hp⟩ : ∃ p : ℕ, p = 2 ^ w := ⟨_, rfl⟩
  have hp2 : 2 ^ (w + 1) = 2 * p := by rw [hp, Nat.pow_succ, Nat.mul_comm]
  have hpz : (2 : ℤ) ^ w = p := by rw [hp]; norm_cast
  have hpz2 : ((2 ^ (w + 1) : ℕ) : ℤ) = 2 * p := by rw [hp2]; norm_cast
  have hmod : n % (2 * p) = if n < 2 * p then n else n - 2 * p := by
    split_ifs with h
    · exact Nat.mod_eq_of_lt h
    · rw [Nat.mod_eq_sub_mod (by omega), Nat.mod_eq_of_lt (by omega)]
  have hlt := sum_lt a b c
  simp only [BitVec.toInt_eq_msb_cond, BitVec.msb_eq_decide, sum, BitVec.toNat_ofNat, ← hn,
    Nat.add_sub_cancel, ← hp, hp2, hpz, hmod, decide_eq_decide, ne_eq, decide_eq_true_eq]
  rw [hp2] at ha hb
  clear hp hp2 hpz hpz2 hlt
  split_ifs <;> push_cast <;> omega

/-! ## Products -/

/-- The widened product of two signed words is exact. -/
theorem toInt_mul_signExtend (a b : BitVec w) :
    (a.signExtend (2 * w) * b.signExtend (2 * w)).toInt = a.toInt * b.toInt := by
  rcases Nat.eq_zero_or_pos w with rfl | hw
  · rw [BitVec.eq_nil a, BitVec.eq_nil b]
    rfl
  · have hle := BitVec.toInt_mul_toInt_le (x := a) (y := b)
    have hge := BitVec.le_toInt_mul_toInt (x := a) (y := b)
    have hpow : (2 : ℤ) ^ (2 * w) = 4 * 2 ^ (w * 2 - 2) := by
      rw [show 2 * w = (w * 2 - 2) + 1 + 1 by omega, pow_succ, pow_succ]
      omega
    have hpos : (0 : ℤ) < 2 ^ (w * 2 - 2) := Int.pow_pos (by decide)
    rw [BitVec.toInt_mul, BitVec.toInt_signExtend_of_le (by omega),
      BitVec.toInt_signExtend_of_le (by omega)]
    refine Int.bmod_eq_of_le ?_ ?_ <;> push_cast <;> rw [hpow] <;> omega

/-- The widened product of two unsigned words is exact. -/
theorem toNat_mul_setWidth (a b : BitVec w) :
    (a.setWidth (2 * w) * b.setWidth (2 * w)).toNat = a.toNat * b.toNat := by
  have ha := a.isLt
  have hb := b.isLt
  have hpow : 2 ^ (2 * w) = 2 ^ w * 2 ^ w := by rw [Nat.two_mul, Nat.pow_add]
  have hle : 2 ^ w ≤ 2 ^ w * 2 ^ w := Nat.le_mul_of_pos_left _ (Nat.two_pow_pos w)
  rw [BitVec.toNat_mul, BitVec.toNat_setWidth, BitVec.toNat_setWidth, hpow,
    Nat.mod_eq_of_lt (by omega : a.toNat < 2 ^ w * 2 ^ w),
    Nat.mod_eq_of_lt (by omega : b.toNat < 2 ^ w * 2 ^ w),
    Nat.mod_eq_of_lt (Nat.mul_lt_mul'' ha hb)]

/-- The sign of a product. -/
theorem mul_toInt_nonneg {a b : BitVec w} (h : a.msb = b.msb) : 0 ≤ a.toInt * b.toInt := by
  rw [msb_eq_neg, msb_eq_neg, decide_eq_decide] at h
  by_cases ha : a.toInt < 0
  · exact Int.mul_nonneg_of_nonpos_of_nonpos (by omega) (by omega)
  · exact Int.mul_nonneg (by omega) (by omega)

theorem mul_toInt_nonpos {a b : BitVec w} (h : a.msb ≠ b.msb) : a.toInt * b.toInt ≤ 0 := by
  rw [msb_eq_neg, msb_eq_neg, ne_eq, decide_eq_decide] at h
  by_cases ha : a.toInt < 0
  · exact Int.mul_nonpos_of_nonpos_of_nonneg (by omega) (by omega)
  · exact Int.mul_nonpos_of_nonneg_of_nonpos (by omega) (by omega)

/-- The low half. -/
theorem setWidth_eq_ofInt (x : BitVec v) (h : w ≤ v) :
    x.setWidth w = BitVec.ofInt w x.toInt := by
  apply BitVec.eq_of_toInt_eq
  rw [BitVec.toInt_ofInt, BitVec.toInt_setWidth, BitVec.toInt_eq_toNat_bmod,
    Int.bmod_bmod_of_dvd (Nat.pow_dvd_pow 2 h)]

/-- The sign bit, shifted down. -/
theorem ushiftRight_sign (x : BitVec (w + 1)) :
    x >>> w = if x.msb then 1#(w + 1) else 0#(w + 1) := by
  apply BitVec.eq_of_getLsbD_eq
  intro i hi
  have hlast : x.msb = x.getLsbD w := BitVec.msb_eq_getLsbD_last x
  rw [BitVec.getLsbD_ushiftRight, hlast]
  rcases Nat.eq_zero_or_pos i with rfl | hpos
  · cases x.getLsbD w <;> simp
  · rw [BitVec.getLsbD_of_ge x (w + i) (by omega)]
    cases x.getLsbD w <;> simp [BitVec.getLsbD_one, Nat.ne_of_gt hpos]

/-- **Division truncates:** the remainder is smaller than the divisor and has
the dividend's sign. -/
theorem sdiv_trunc {a b : BitVec w} (hb : b ≠ 0#w) (h : a ≠ BitVec.intMin w ∨ b ≠ -1#w) :
    ∃ r : ℤ, a.toInt = (a.sdiv b).toInt * b.toInt + r ∧ r.natAbs < b.toInt.natAbs ∧
      (r = 0 ∨ (r < 0 ↔ a.toInt < 0)) := by
  have hb' : b.toInt ≠ 0 := fun h0 => hb (BitVec.eq_of_toInt_eq (by simpa using h0))
  refine ⟨a.toInt.tmod b.toInt, ?_, ?_, ?_⟩
  · rw [BitVec.toInt_sdiv_of_ne_or_ne a b h, Int.mul_comm, Int.mul_tdiv_add_tmod]
  · rw [Int.natAbs_tmod]
    exact Nat.mod_lt _ (by omega)
  · have hs := Int.sign_tmod a.toInt b.toInt
    split_ifs at hs
    · exact .inl (Int.sign_eq_zero_iff_zero.mp hs)
    · right
      rw [← Int.sign_eq_neg_one_iff_neg, hs, Int.sign_eq_neg_one_iff_neg]

/-! ## Masks, rotations and shifts -/

/-- Whether a bit is under a mask that begins and ends at two bits, counted
from the most significant; one that ends before it begins goes round. -/
def under (mb me j : ℕ) : Bool :=
  if mb ≤ me then decide (mb ≤ j) && decide (j ≤ me) else decide (mb ≤ j) || decide (j ≤ me)

/-- The bits of ones shifted right, counted from the most significant. -/
theorem getMsbD_allOnes_ushiftRight {k j : ℕ} (hj : j < w) :
    (BitVec.allOnes w >>> k).getMsbD j = decide (k ≤ j) := by
  rw [BitVec.getMsbD_ushiftRight]
  by_cases h : j < k
  · simp [h, hj]
  · simp [h, hj, Nat.le_of_not_lt h]
    omega

theorem getMsbD_allOnes_shiftLeft {k j : ℕ} :
    (BitVec.allOnes w <<< k).getMsbD j = decide (j + k < w) := by
  rw [BitVec.getMsbD_shiftLeft]
  by_cases h : j + k < w
  · simp [h]
  · simp [h]

/-- The disjunction of two shifts is a rotation. -/
theorem shiftLeft_or_ushiftRight (x : BitVec w) {k : ℕ} (hk : k < w) :
    (x <<< k) ||| (x >>> (w - k)) = x.rotateLeft k := by
  rw [BitVec.rotateLeft_def, Nat.mod_eq_of_lt hk]

/-- A shift right of a signed word rounds down. -/
theorem toInt_sshiftRight (x : BitVec w) (k : ℕ) : (x.sshiftRight k).toInt = x.toInt / 2 ^ k := by
  rw [BitVec.toInt_sshiftRight, Int.shiftRight_eq_div_pow]
  norm_cast

/-- The leading zeroes of a word, counted. -/
theorem getMsbD_log2 {x : BitVec w} (hx : x ≠ 0#w) :
    Nat.log2 x.toNat < w ∧ (∀ j < w - 1 - Nat.log2 x.toNat, x.getMsbD j = false) ∧
      x.getMsbD (w - 1 - Nat.log2 x.toNat) = true := by
  have hne : x.toNat ≠ 0 := fun h => hx (BitVec.eq_of_toNat_eq (by simpa using h))
  have hlt : Nat.log2 x.toNat < w := (Nat.log2_lt hne).mpr x.isLt
  refine ⟨hlt, fun j hj => ?_, ?_⟩
  · rw [BitVec.getMsbD_eq_getLsbD, BitVec.getLsbD,
      Nat.testBit_lt_two_pow (Nat.lt_of_lt_of_le Nat.lt_log2_self ?_), Bool.and_false]
    exact Nat.pow_le_pow_right (by decide) (by omega)
  · rw [BitVec.getMsbD_eq_getLsbD, BitVec.getLsbD,
      show w - 1 - (w - 1 - Nat.log2 x.toNat) = Nat.log2 x.toNat by omega,
      Nat.testBit_log2 hne, Bool.and_true, decide_eq_true_eq]
    omega

end MrIss.Word
