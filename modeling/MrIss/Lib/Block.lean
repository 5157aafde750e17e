import Mathlib.Tactic.Ring
/-!
# Aligned blocks of an address space

A block of `2 ^ k` addresses is what a page, a word or an address mask
`~(2 ^ k - 1)` speaks of. An address splits into the `base` of its block
and the `offset` within it, and both are read off `toNat`.
-/

namespace Block

variable {w : ℕ}

/-- The address with its low `k` bits cleared. -/
def base (k : ℕ) (x : BitVec w) : BitVec w := x &&& ~~~BitVec.ofNat w (2 ^ k - 1)

/-- The low `k` bits of the address. -/
def offset (k : ℕ) (x : BitVec w) : BitVec w := x &&& BitVec.ofNat w (2 ^ k - 1)

theorem getLsbD_offset (k : ℕ) (x : BitVec w) (i : ℕ) :
    (offset k x).getLsbD i = (x.getLsbD i && decide (i < k)) := by
  rw [offset, BitVec.getLsbD_and, BitVec.getLsbD_ofNat, Nat.testBit_two_pow_sub_one]
  by_cases hi : i < w
  · simp only [hi, decide_true, Bool.true_and]
  · simp only [BitVec.getLsbD_of_ge _ _ (Nat.le_of_not_lt hi), Bool.false_and]

theorem getLsbD_base (k : ℕ) (x : BitVec w) (i : ℕ) :
    (base k x).getLsbD i = (x.getLsbD i && decide (k ≤ i)) := by
  rw [base, BitVec.getLsbD_and, BitVec.getLsbD_not, BitVec.getLsbD_ofNat,
    Nat.testBit_two_pow_sub_one]
  by_cases hi : i < w
  · simp only [hi, decide_true, Bool.true_and, ← decide_not, Nat.not_lt]
  · simp only [BitVec.getLsbD_of_ge _ _ (Nat.le_of_not_lt hi), Bool.false_and]

/-- A base has no low bits. -/
theorem getLsbD_base_of_lt {k i : ℕ} (x : BitVec w) (h : i < k) :
    (base k x).getLsbD i = false := by
  rw [getLsbD_base, decide_eq_false (Nat.not_le.mpr h), Bool.and_false]

/-- An address aligned to a block has no low bits. -/
theorem getLsbD_of_offset_eq_zero {k i : ℕ} {x : BitVec w} (hx : offset k x = 0#w) (h : i < k) :
    x.getLsbD i = false := by
  have := congrArg (·.getLsbD i) hx
  simpa [getLsbD_offset, h] using this

/-- One base is one value of every higher bit. -/
theorem getLsbD_of_base_eq {k i : ℕ} {x y : BitVec w} (hxy : base k x = base k y) (h : k ≤ i) :
    x.getLsbD i = y.getLsbD i := by
  have := congrArg (·.getLsbD i) hxy
  simpa [getLsbD_base, h] using this

theorem toNat_offset (k : ℕ) (x : BitVec w) : (offset k x).toNat = x.toNat % 2 ^ k := by
  apply Nat.eq_of_testBit_eq
  intro i
  rw [Nat.testBit_mod_two_pow, BitVec.testBit_toNat, BitVec.testBit_toNat, getLsbD_offset,
    Bool.and_comm]

theorem toNat_base (k : ℕ) (x : BitVec w) : (base k x).toNat = x.toNat / 2 ^ k * 2 ^ k := by
  apply Nat.eq_of_testBit_eq
  intro i
  rw [Nat.testBit_mul_two_pow, Nat.testBit_div_two_pow, BitVec.testBit_toNat, getLsbD_base]
  by_cases hk : k ≤ i
  · simp [hk, Nat.sub_add_cancel hk, BitVec.testBit_toNat]
  · simp [hk]

/-- Two addresses with one base and one offset are one address. -/
theorem ext {k : ℕ} {x y : BitVec w} (hb : base k x = base k y) (ho : offset k x = offset k y) :
    x = y := by
  apply BitVec.eq_of_toNat_eq
  have h₁ := congrArg BitVec.toNat hb
  have h₂ := congrArg BitVec.toNat ho
  rw [toNat_base, toNat_base] at h₁
  rw [toNat_offset, toNat_offset] at h₂
  rw [← Nat.div_add_mod x.toNat (2 ^ k), ← Nat.div_add_mod y.toNat (2 ^ k), h₂,
    Nat.mul_comm, h₁, Nat.mul_comm]

/-- One base is one block number. -/
theorem base_eq_iff {k : ℕ} {x y : BitVec w} :
    base k x = base k y ↔ x.toNat / 2 ^ k = y.toNat / 2 ^ k := by
  rw [BitVec.toNat_eq, toNat_base, toNat_base]
  exact Nat.mul_left_inj (Nat.two_pow_pos k).ne'

@[simp] theorem base_base (k : ℕ) (x : BitVec w) : base k (base k x) = base k x := by
  apply BitVec.eq_of_getLsbD_eq
  intro i _
  simp [getLsbD_base]

@[simp] theorem offset_base (k : ℕ) (x : BitVec w) : offset k (base k x) = 0#w := by
  apply BitVec.eq_of_getLsbD_eq
  intro i _
  by_cases h : i < k
  · simp [getLsbD_base, getLsbD_offset, Nat.not_le.mpr h]
  · simp [getLsbD_offset, h]

@[simp] theorem base_or_offset (k : ℕ) (x : BitVec w) : base k x ||| offset k x = x := by
  apply BitVec.eq_of_getLsbD_eq
  intro i _
  rcases Nat.lt_or_ge i k with h | h
  · simp [getLsbD_base, getLsbD_offset, h, Nat.not_le.mpr h]
  · simp [getLsbD_base, getLsbD_offset, h]

/-- Putting an offset in a block keeps the block. -/
@[simp] theorem base_join (k : ℕ) (x y : BitVec w) :
    base k (base k x ||| offset k y) = base k x := by
  apply BitVec.eq_of_getLsbD_eq
  intro i _
  by_cases h : k ≤ i
  · simp [getLsbD_base, getLsbD_offset, h, Nat.not_lt.mpr h]
  · simp [getLsbD_base, h]

/-- Putting an offset in a block gives that offset. -/
@[simp] theorem offset_join (k : ℕ) (x y : BitVec w) :
    offset k (base k x ||| offset k y) = offset k y := by
  apply BitVec.eq_of_getLsbD_eq
  intro i _
  by_cases h : i < k
  · simp [getLsbD_base, getLsbD_offset, h, Nat.not_le.mpr h]
  · simp [getLsbD_offset, h]

theorem toNat_join (k : ℕ) (x y : BitVec w) :
    (base k x ||| offset k y).toNat = x.toNat / 2 ^ k * 2 ^ k + y.toNat % 2 ^ k := by
  have hb := toNat_base k (base k x ||| offset k y)
  have ho := toNat_offset k (base k x ||| offset k y)
  rw [base_join, toNat_base] at hb
  rw [offset_join, toNat_offset] at ho
  rw [hb, ho, Nat.mul_comm, Nat.div_add_mod]

/-- A step that stays in the block does not carry out of the address
space. -/
theorem toNat_add_of_lt {k n : ℕ} {x : BitVec w} (hk : k ≤ w)
    (h : x.toNat % 2 ^ k + n < 2 ^ k) : (x + BitVec.ofNat w n).toNat = x.toNat + n := by
  have hx : x.toNat / 2 ^ k < 2 ^ (w - k) := by
    rw [Nat.div_lt_iff_lt_mul (Nat.two_pow_pos k), ← Nat.pow_add, Nat.sub_add_cancel hk]
    exact x.isLt
  have hlt : x.toNat + n < 2 ^ w := by
    have hd := Nat.div_add_mod x.toNat (2 ^ k)
    have hle : 2 ^ k * (x.toNat / 2 ^ k + 1) ≤ 2 ^ k * 2 ^ (w - k) :=
      Nat.mul_le_mul_left _ hx
    rw [← Nat.pow_add, Nat.add_sub_cancel' hk, Nat.mul_add, Nat.mul_one] at hle
    omega
  rw [BitVec.toNat_add, BitVec.toNat_ofNat, Nat.add_mod_mod, Nat.mod_eq_of_lt hlt]

/-- A step that stays in the block keeps the base. -/
theorem base_add {k n : ℕ} {x : BitVec w} (hk : k ≤ w) (h : x.toNat % 2 ^ k + n < 2 ^ k) :
    base k (x + BitVec.ofNat w n) = base k x := by
  rw [base_eq_iff, toNat_add_of_lt hk h]
  conv_lhs => rw [← Nat.div_add_mod x.toNat (2 ^ k), Nat.add_assoc]
  rw [Nat.mul_add_div (Nat.two_pow_pos k), Nat.div_eq_of_lt h, Nat.add_zero]

/-- A step that stays in the block is a step of the offset. -/
theorem join_add {k n : ℕ} {x y : BitVec w} (hk : k ≤ w) (h : y.toNat % 2 ^ k + n < 2 ^ k) :
    base k x ||| offset k (y + BitVec.ofNat w n) =
      (base k x ||| offset k y) + BitVec.ofNat w n := by
  have hm : (base k x ||| offset k y).toNat % 2 ^ k = y.toNat % 2 ^ k := by
    rw [← toNat_offset, offset_join, toNat_offset]
  apply ext (k := k)
  · rw [base_join, base_add hk (by rwa [hm]), base_join]
  · apply BitVec.eq_of_toNat_eq
    rw [offset_join, toNat_offset, toNat_offset, toNat_add_of_lt hk h,
      toNat_add_of_lt hk (by rwa [hm]), Nat.add_mod, ← hm, ← Nat.add_mod]

end Block
