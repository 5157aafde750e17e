import MrIss.Interp.Integer
/-!
# Rotate and shift

The instructions that rotate, shift and count, by the bits of what they
leave. Bits are counted from the most significant, as the fields of an
instruction that name them count.
-/

namespace MrIss

open EarlyReturn

/-! ## Rotations under masks -/

section

variable {x s mb me : Reg} {j : ℕ}

/-- `ROTL32` rotates. -/
theorem rotl32_eq (hs : s < 32) : rotl32 x s = x.rotateLeft s.toNat := by
  have hlt : s.toNat < 32 := hs
  have hsub : (32 - s).toNat = 32 - s.toNat :=
    BitVec.toNat_sub_of_le (BitVec.le_def.mpr (Nat.le_of_lt hlt))
  rw [rotl32, BitVec.shiftLeft_eq', BitVec.ushiftRight_eq', hsub]
  exact Word.shiftLeft_or_ushiftRight x hlt

/-- **`mkmask`** has the bits from one to the other, or round. -/
theorem getMsbD_mkmask (hmb : mb < 32) (hme : me < 32) (hj : j < 32) :
    (mkmask mb me).getMsbD j = Word.under mb.toNat me.toNat j := by
  have hmb' : mb.toNat < 32 := hmb
  have hme' : me.toNat < 32 := hme
  have hsub : ∀ y : Reg, y < 32 → (31 - y).toNat = 31 - y.toNat := fun y hy =>
    BitVec.toNat_sub_of_le (BitVec.le_def.mpr (Nat.le_of_lt_succ hy))
  unfold mkmask Word.under
  by_cases h : mb.toNat ≤ me.toNat
  · rw [if_pos (BitVec.le_def.mpr h), if_pos h,
      show (0x7fffffff#32 : Reg) = BitVec.allOnes 32 >>> 1 from rfl,
      show (0xffffffff#32 : Reg) = BitVec.allOnes 32 from rfl, BitVec.ushiftRight_eq',
      BitVec.ushiftRight_eq', ← BitVec.shiftRight_add, BitVec.getMsbD_and, BitVec.getMsbD_not,
      Word.getMsbD_allOnes_ushiftRight hj, Word.getMsbD_allOnes_ushiftRight hj, decide_eq_true hj]
    congr 1
    rw [Bool.true_and, ← decide_not, decide_eq_decide]
    omega
  · rw [if_neg (mt BitVec.le_def.mp h), if_neg h,
      show (0xfffffffe#32 : Reg) = BitVec.allOnes 32 <<< 1 from rfl,
      show (0xffffffff#32 : Reg) = BitVec.allOnes 32 from rfl, BitVec.shiftLeft_eq',
      BitVec.shiftLeft_eq', hsub _ hmb, hsub _ hme, ← BitVec.shiftLeft_add, BitVec.getMsbD_or,
      BitVec.getMsbD_not, Word.getMsbD_allOnes_shiftLeft, Word.getMsbD_allOnes_shiftLeft,
      decide_eq_true hj, Bool.true_and, ← decide_not, Bool.or_comm]
    congr 1 <;> rw [decide_eq_decide] <;> omega

/-- What is under the mask is rotated; the rest is kept. -/
theorem getMsbD_masked {a : Reg} (hs : s < 32) (hmb : mb < 32) (hme : me < 32) (hj : j < 32) :
    ((a &&& ~~~(mkmask mb me)) ||| (rotl32 x s &&& mkmask mb me)).getMsbD j =
      if Word.under mb.toNat me.toNat j then x.getMsbD ((j + s.toNat) % 32) else a.getMsbD j := by
  rw [rotl32_eq hs, BitVec.getMsbD_or, BitVec.getMsbD_and, BitVec.getMsbD_and, BitVec.getMsbD_not,
    getMsbD_mkmask hmb hme hj, BitVec.getMsbD_rotateLeft, Nat.add_comm, decide_eq_true hj]
  cases Word.under mb.toNat me.toNat j <;> simp

end

/-! ## Shifts -/

section

variable (s b : Reg)

/-- The low six bits, and the low five where the sixth is clear. -/
theorem toNat_and_3f : (b &&& 0x3f).toNat = b.toNat % 64 :=
  Word.toNat_and_low b (k := 6) (by decide)

theorem toNat_and_1f : (b &&& 0x1f).toNat = b.toNat % 32 :=
  Word.toNat_and_low b (k := 5) (by decide)

theorem and_20_iff : (b &&& 0x20 != 0) = decide (32 ≤ b.toNat % 64) := by
  have h : (b &&& 0x20 != 0) = b.getLsbD 5 := Word.and_twoPow_bne b (by decide : 5 < 32)
  rw [h, BitVec.getLsbD, Nat.testBit_eq_decide_div_mod_eq, decide_eq_decide]
  omega

/-- `slw`. -/
theorem toNat_slw : (if b &&& 0x3f &&& 0x20 != 0 then 0 else s <<< (b &&& 0x1f)).toNat =
    s.toNat * 2 ^ (b.toNat % 64) % 2 ^ 32 := by
  rw [BitVec.and_assoc, show (0x3f &&& 0x20 : Reg) = 0x20 from rfl, and_20_iff]
  by_cases h : 32 ≤ b.toNat % 64
  · obtain ⟨k, hk⟩ := Nat.exists_eq_add_of_le h
    rw [if_pos (decide_eq_true h), hk, Nat.pow_add, Nat.mul_left_comm, Nat.mul_mod_right]
    rfl
  · rw [if_neg (by simpa using h), BitVec.shiftLeft_eq', BitVec.toNat_shiftLeft, toNat_and_1f,
      Nat.shiftLeft_eq, show b.toNat % 32 = b.toNat % 64 by omega]

/-- `srw`. -/
theorem toNat_srw : (if b &&& 0x20 != 0 then 0 else s >>> (b &&& 0x1f)).toNat =
    s.toNat / 2 ^ (b.toNat % 64) := by
  rw [and_20_iff]
  by_cases h : 32 ≤ b.toNat % 64
  · have hle : 2 ^ 32 ≤ 2 ^ (b.toNat % 64) := Nat.pow_le_pow_right (by decide) h
    rw [if_pos (decide_eq_true h), Nat.div_eq_of_lt (Nat.lt_of_lt_of_le s.isLt hle)]
    rfl
  · rw [if_neg (by simpa using h), BitVec.ushiftRight_eq', BitVec.toNat_ushiftRight, toNat_and_1f,
      Nat.shiftRight_eq_div_pow, show b.toNat % 32 = b.toNat % 64 by omega]

theorem sign_iff : (s &&& 0x80000000#32 != 0) = decide (s.toInt < 0) := by
  have h : (s &&& 0x80000000#32 != 0) = s.getLsbD 31 := Word.and_twoPow_bne s (by decide : 31 < 32)
  rw [h, ← Word.msb_eq_neg, BitVec.msb_eq_getLsbD_last]

/-- A one is shifted out of a negative number. -/
def Lost (n : ℕ) : Prop := s.toInt < 0 ∧ ∃ j < n, s.getLsbD j = true

variable {sh : Reg}

/-- `srawi`, and `sraw` by less than 32. -/
theorem sraBy_co (hsh : sh < 32) : (sraBy s sh).co = true ↔ Lost s sh.toNat := by
  have hlow : (s &&& ((1#32 <<< sh) - 1)).toNat = s.toNat % 2 ^ sh.toNat :=
    Word.toNat_and_low s hsh
  rw [sraBy, Bool.and_eq_true, sign_iff, decide_eq_true_iff, bne_iff_ne, ne_eq, ← BitVec.toNat_inj,
    hlow, show (0 : Reg).toNat = 0 from rfl, ← ne_eq, Word.mod_two_pow_ne_zero_iff]
  rfl

theorem sraBy_val : (sraBy s sh).val.toInt = s.toInt / 2 ^ sh.toNat := Word.toInt_sshiftRight s _

/-- A shift by 32 or more leaves the sign alone. -/
theorem toInt_div_of_ge {n : ℕ} (hn : 31 ≤ n) : s.toInt / 2 ^ n = s.toInt / 2 ^ 31 := by
  have hlo : -2 ^ 31 ≤ s.toInt := BitVec.le_toInt s
  have hhi : s.toInt < 2 ^ 31 := BitVec.toInt_lt
  have hsign : ∀ m : ℤ, 2 ^ 31 ≤ m → s.toInt / m = if s.toInt < 0 then -1 else 0 := by
    intro m hm
    split_ifs with h
    · exact ((Int.ediv_emod_unique (r := s.toInt + m) (by omega)).mpr (by omega)).1
    · exact Int.ediv_eq_zero_of_lt (by omega) (by omega)
  have hpow : (2 : ℤ) ^ 31 ≤ 2 ^ n := by exact_mod_cast Nat.pow_le_pow_right (by decide) hn
  rw [hsign _ hpow, hsign _ (Int.le_refl _)]

/-- `sraw`. -/
theorem sraw_val : (sraw s b).val.toInt = s.toInt / 2 ^ (b.toNat % 64) := by
  have hlt : (31 < b &&& 0x3f) ↔ 31 < b.toNat % 64 := by
    rw [BitVec.lt_def, toNat_and_3f]
    rfl
  by_cases h : 31 < b &&& 0x3f
  · rw [sraw, if_pos h, toInt_div_of_ge s (by have := hlt.mp h; omega)]
    exact Word.toInt_sshiftRight s 31
  · rw [sraw, if_neg h, sraBy_val, toNat_and_3f]

theorem sraw_co : (sraw s b).co = true ↔ Lost s (b.toNat % 64) := by
  have hlt : (31 < b &&& 0x3f) ↔ 31 < b.toNat % 64 := by
    rw [BitVec.lt_def, toNat_and_3f]
    rfl
  by_cases h : 31 < b &&& 0x3f
  · -- the sign itself is shifted out
    have hn := hlt.mp h
    rw [sraw, if_pos h, sign_iff, decide_eq_true_iff]
    refine ⟨fun hneg => ⟨hneg, 31, hn, ?_⟩, And.left⟩
    have hmsb := Word.msb_eq_neg s
    rw [decide_eq_true hneg, BitVec.msb_eq_getLsbD_last] at hmsb
    exact hmsb
  · have hsh : b &&& 0x3f < 32 := by
      rw [BitVec.lt_def, toNat_and_3f]
      have := mt hlt.mpr h
      show b.toNat % 64 < 32
      omega
    rw [sraw, if_neg h, sraBy_co s hsh, toNat_and_3f]

/-- `cntlzw`. -/
theorem cntlzw_counts {n : Reg}
    (hn : n = if s = 0 then 32 else 31 - BitVec.ofNat 32 (Nat.log2 s.toNat)) :
    n.toNat ≤ 32 ∧ (∀ j < n.toNat, s.getMsbD j = false) ∧
      (n.toNat < 32 → s.getMsbD n.toNat = true) := by
  by_cases h : s = 0
  · subst h
    simp [hn]
  · obtain ⟨hlt, hzero, hone⟩ := Word.getMsbD_log2 h
    have hcount : n.toNat = 32 - 1 - Nat.log2 s.toNat := by
      rw [hn, if_neg h, BitVec.toNat_sub_of_le, BitVec.toNat_ofNat, Nat.mod_eq_of_lt (by omega)]
      · rfl
      · rw [BitVec.le_def, BitVec.toNat_ofNat, Nat.mod_eq_of_lt (by omega)]
        exact Nat.le_of_lt_succ hlt
    rw [hcount]
    exact ⟨by omega, hzero, fun _ => hone⟩

end

/-! ## The instructions -/

/-- The instructions that rotate, shift and count. -/
inductive RotOp where
  | rlwimi
  | rlwinm
  | rlwnm
  | slw
  | srw
  | sraw
  | srawi
  | cntlzw
  deriving DecidableEq, Repr

namespace RotOp

/-- Whether a word is one of the instruction's. -/
def encodes : RotOp → BitVec 32 → Bool
  | rlwimi, i => (getOpcode i).toNat == 20
  | rlwinm, i => (getOpcode i).toNat == 21
  | rlwnm, i => (getOpcode i).toNat == 23
  | slw, i => (getOpcode i).toNat == 31 && (xXOPC i).toNat == 24
  | srw, i => (getOpcode i).toNat == 31 && (xXOPC i).toNat == 536
  | sraw, i => (getOpcode i).toNat == 31 && (xXOPC i).toNat == 792
  | srawi, i => (getOpcode i).toNat == 31 && (xXOPC i).toNat == 824
  | cntlzw, i => (getOpcode i).toNat == 31 && (xXOPC i).toNat == 26

/-- What is rotated, shifted or counted. -/
def source (i : BitVec 32) (s : Machine) : Reg := s.gpr (xRS i)

/-- By how much. -/
def amount (o : RotOp) (i : BitVec 32) (s : Machine) : ℕ :=
  match o with
  | rlwimi | rlwinm | srawi => (mSH i).toNat
  | rlwnm => (s.gpr (xRB i)).toNat % 32
  | slw | srw | sraw => (s.gpr (xRB i)).toNat % 64
  | cntlzw => 0

/-- The source rotated left by an amount, under the mask of the word's MB and
ME, and the bits of another word outside it. -/
def Masked (i : BitVec 32) (x : Reg) (n : ℕ) (a val : Reg) : Prop :=
  ∀ j < 32, val.getMsbD j =
    if Word.under (mMB i).toNat (mME i).toNat j then x.getMsbD ((j + n) % 32) else a.getMsbD j

/-- **What a result is of the source.** -/
def Right (o : RotOp) (i : BitVec 32) (s : Machine) (val : Reg) : Prop :=
  let x := source i s
  let n := o.amount i s
  match o with
  | rlwimi => Masked i x n (s.gpr (xRA i)) val
  | rlwinm | rlwnm => Masked i x n 0 val
  | slw => val.toNat = x.toNat * 2 ^ n % 2 ^ 32
  | srw => val.toNat = x.toNat / 2 ^ n
  | sraw | srawi => val.toInt = x.toInt / 2 ^ n
  | cntlzw => val.toNat ≤ 32 ∧ (∀ j < val.toNat, x.getMsbD j = false) ∧
      (val.toNat < 32 → x.getMsbD val.toNat = true)

/-- **The carry:** of the instructions that shift right with the sign,
whether a one was shifted out of a negative number; of the others, none. -/
def Carry (o : RotOp) (i : BitVec 32) (s : Machine) (ca : Option Bool) : Prop :=
  match o with
  | sraw | srawi => ∃ co, ca = some co ∧ (co = true ↔ Lost (source i s) (o.amount i s))
  | _ => ca = none

/-! ### Their words -/

/-- The row of the table. -/
def row : RotOp → Row
  | rlwimi => .m 20 fun i => opRlwimi (mRA i) (mRS i) (mSH i) (mMB i) (mME i) (mRc i)
  | rlwinm => .m 21 fun i => opRlwinm (mRS i) (mSH i) (mMB i) (mME i) (mRA i) (mRc i)
  | rlwnm => .m 23 fun i => opRlwnm (mRB i) (mRS i) (mMB i) (mME i) (mRA i) (mRc i)
  | slw => .x 24 (argsSBA opSlw)
  | srw => .x 536 (argsSBA opSrw)
  | sraw => .x 792 (argsSBA opSraw)
  | srawi => .x 824 fun i => opSrawi (xRS i) (xSH i) (xRA i) (xRc i)
  | cntlzw => .x 26 (argsSA opCntlzw)

theorem row_mem (o : RotOp) : o.row ∈ logicalRows := by
  cases o <;> simp [row, logicalRows]

/-- A word of the instruction is decoded as the instruction. -/
theorem decode_eq (c : Config) {o : RotOp} {i : BitVec 32} (h : o.encodes i = true) :
    decode c i = o.row.call i := by
  have hrow : o.row ∈ table c := mem_table_of_logical o.row_mem
  cases o with
  | rlwimi | rlwinm | rlwnm => exact decode_m hrow (by simpa [encodes] using h)
  | slw | srw | sraw | srawi | cntlzw =>
    obtain ⟨hop, hxo⟩ : _ ∧ _ := by simpa [encodes] using h
    exact decode_x hrow hop hxo

/-- **What the call does.** -/
theorem call_leaves (o : RotOp) (i : BitVec 32) (s : Machine) :
    ∃ val ca t, o.row.call i s = .ok () t ∧ Leaves (xRA i) ⟨val, ca, none, xRc i != 0⟩ s t ∧
      o.Right i s val ∧ o.Carry i s ca := by
  have hra : xRA i < 32 := field_lt 16 i
  have hrs : xRS i < 32 := field_lt 21 i
  have hrb : xRB i < 32 := field_lt 11 i
  have hmb : mMB i < 32 := field_lt 6 i
  have hme : mME i < 32 := field_lt 1 i
  have hr (val : Reg) := resultTo_leaves hra (xRc i) val s
  have hs (r : Sum) := sumTo_leaves hra true (xRc i) 0 r s
  -- where no other word is kept, zeroes are
  have hzero (y m : Reg) : (0 &&& ~~~m) ||| y &&& m = y &&& m := by simp
  cases o
  case rlwimi =>
    have hsh : mSH i < 32 := field_lt 11 i
    obtain ⟨t, ht, hl⟩ := hr ((s.gpr (xRA i) &&& ~~~(mkmask (mMB i) (mME i))) |||
      (rotl32 (source i s) (mSH i) &&& mkmask (mMB i) (mME i)))
    refine ⟨_, _, t, ?_, hl, fun j hj => getMsbD_masked hsh hmb hme hj, rfl⟩
    show opRlwimi (xRA i) (xRS i) (mSH i) (mMB i) (mME i) (xRc i) s = .ok () t
    rw [opRlwimi, readGPR_bind s hra, readGPR_bind s hrs]
    exact ht
  case rlwinm =>
    have hsh : mSH i < 32 := field_lt 11 i
    obtain ⟨t, ht, hl⟩ := hr (rotl32 (source i s) (mSH i) &&& mkmask (mMB i) (mME i))
    refine ⟨_, _, t, ?_, hl, fun j hj => ?_, rfl⟩
    · show opRlwinm (xRS i) (mSH i) (mMB i) (mME i) (xRA i) (xRc i) s = .ok () t
      rw [opRlwinm, readGPR_bind s hrs]
      exact ht
    · rw [← hzero]
      exact getMsbD_masked hsh hmb hme hj
  case rlwnm =>
    have hsh : s.gpr (xRB i) &&& 0x1f < 32 := field_lt 0 _
    obtain ⟨t, ht, hl⟩ := hr (rotl32 (source i s) (s.gpr (xRB i) &&& 0x1f) &&&
      mkmask (mMB i) (mME i))
    refine ⟨_, _, t, ?_, hl, fun j hj => ?_, rfl⟩
    · show opRlwnm (xRB i) (xRS i) (mMB i) (mME i) (xRA i) (xRc i) s = .ok () t
      rw [opRlwnm, readGPR_bind s hrb, readGPR_bind s hrs]
      exact ht
    · rw [← hzero, amount, ← toNat_and_1f]
      exact getMsbD_masked hsh hmb hme hj
  case slw =>
    obtain ⟨t, ht, hl⟩ := hr _
    refine ⟨_, _, t, ?_, hl, toNat_slw (source i s) (s.gpr (xRB i)), rfl⟩
    show opSlw (xRS i) (xRB i) (xRA i) (xRc i) s = .ok () t
    rw [opSlw, logicX, readGPR_bind s hrs, readGPR_bind s hrb]
    exact ht
  case srw =>
    obtain ⟨t, ht, hl⟩ := hr _
    refine ⟨_, _, t, ?_, hl, toNat_srw (source i s) (s.gpr (xRB i)), rfl⟩
    show opSrw (xRS i) (xRB i) (xRA i) (xRc i) s = .ok () t
    rw [opSrw, logicX, readGPR_bind s hrs, readGPR_bind s hrb]
    exact ht
  case sraw =>
    obtain ⟨t, ht, hl⟩ := hs (MrIss.sraw (source i s) (s.gpr (xRB i)))
    refine ⟨_, _, t, ?_, hl, sraw_val _ _, _, rfl, sraw_co _ _⟩
    show opSraw (xRS i) (xRB i) (xRA i) (xRc i) s = .ok () t
    rw [opSraw, readGPR_bind s hrs, readGPR_bind s hrb]
    exact ht
  case srawi =>
    have hsh : xSH i < 32 := field_lt 11 i
    obtain ⟨t, ht, hl⟩ := hs (sraBy (source i s) (xSH i))
    refine ⟨_, _, t, ?_, hl, sraBy_val _, _, rfl, sraBy_co _ hsh⟩
    show opSrawi (xRS i) (xSH i) (xRA i) (xRc i) s = .ok () t
    rw [opSrawi, readGPR_bind s hrs]
    exact ht
  case cntlzw =>
    obtain ⟨t, ht, hl⟩ := hr _
    refine ⟨_, _, t, ?_, hl, cntlzw_counts (source i s) rfl, rfl⟩
    show opCntlzw (xRS i) (xRA i) (xRc i) s = .ok () t
    rw [opCntlzw, logicRS, readGPR_bind s hrs]
    exact ht

/-- **The family.** A word that is decoded as an instruction that rotates,
shifts or counts leaves the right result and the right carry, and nothing
else changes. -/
theorem decoded_rotate (c : Config) (o : RotOp) (i : BitVec 32) (h : o.encodes i = true)
    (s : Machine) : ∃ val ca t, decode c i s = .ok () t ∧
      Leaves (xRA i) ⟨val, ca, none, xRc i != 0⟩ s t ∧ o.Right i s val ∧ o.Carry i s ca := by
  rw [decode_eq c h]
  exact o.call_leaves i s

/-- `sraw` of the least number by 63. -/
theorem decoded_rotate_sraw : ∃ t, decode (.quiet .default) 0x7c832e30 (.holding 0x80000000 63) =
    .ok () t ∧ (t.gpr 3).toInt = -1 ∧ t.ca = true := by
  obtain ⟨val, ca, t, ht, hl, hval, co, rfl, hco⟩ := decoded_rotate (.quiet .default) sraw
    0x7c832e30 (by decide) (.holding 0x80000000 63)
  have hsrc : source 0x7c832e30 (.holding 0x80000000 63) = 0x80000000 := by decide
  have hn : sraw.amount 0x7c832e30 (.holding 0x80000000 63) = 63 := by decide
  have hlost : co = true := hco.mpr (by rw [hsrc, hn]; exact ⟨by decide, 31, by decide, by decide⟩)
  refine ⟨t, ht, ?_, hl.ca.trans hlost⟩
  rw [show t.gpr 3 = val from hl.target, show val.toInt = _ from hval, hsrc, hn]
  decide

end RotOp

end MrIss
