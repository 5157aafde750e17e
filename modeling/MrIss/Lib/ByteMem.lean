import Mathlib.Logic.Function.Basic
import MrIss.Lib.Block
/-!
# Byte memory read and written by words

A memory is a function from addresses to bytes. A little-endian host
reads and writes 16- and 32-bit words of it; a big-endian guest sees the
bytes of a word the other way round, which is what swapping them before a
write and after a read amounts to.
-/

namespace ByteMem

variable {w : ℕ}

/-- A byte-addressed memory. -/
abbrev Mem (w : ℕ) : Type := BitVec w → BitVec 8

/-- The 16-bit word at an address, least significant byte first. -/
def read16 (m : Mem w) (a : BitVec w) : BitVec 16 := m (a + 1#w) ++ m a

/-- The 32-bit word at an address, least significant byte first. -/
def read32 (m : Mem w) (a : BitVec w) : BitVec 32 := m (a + 3#w) ++ m (a + 2#w) ++ m (a + 1#w) ++ m a

/-- Replaces one byte. -/
def write8 (m : Mem w) (a : BitVec w) (v : BitVec 8) : Mem w := Function.update m a v

/-- Replaces a 16-bit word, least significant byte first. -/
def write16 (m : Mem w) (a : BitVec w) (v : BitVec 16) : Mem w :=
  write8 (write8 m a (v.extractLsb' 0 8)) (a + 1#w) (v.extractLsb' 8 8)

/-- Replaces a 32-bit word, least significant byte first. -/
def write32 (m : Mem w) (a : BitVec w) (v : BitVec 32) : Mem w :=
  write8 (write8 (write8 (write8 m a (v.extractLsb' 0 8)) (a + 1#w) (v.extractLsb' 8 8))
    (a + 2#w) (v.extractLsb' 16 8)) (a + 3#w) (v.extractLsb' 24 8)

/-- Exchanges the two bytes of a word. -/
def swap16 (v : BitVec 16) : BitVec 16 := v.extractLsb' 0 8 ++ v.extractLsb' 8 8

/-- Reverses the four bytes of a word. -/
def swap32 (v : BitVec 32) : BitVec 32 :=
  v.extractLsb' 0 8 ++ v.extractLsb' 8 8 ++ v.extractLsb' 16 8 ++ v.extractLsb' 24 8

/-! ## Swapping -/

@[simp] theorem swap32_swap32 (v : BitVec 32) : swap32 (swap32 v) = v := by
  unfold swap32
  apply BitVec.eq_of_getLsbD_eq
  intro i hi
  simp only [BitVec.getLsbD_append, BitVec.getLsbD_extractLsb']
  grind

/-- A swapped half-word read is the big-endian one. -/
theorem swap16_read16 (m : Mem w) (a : BitVec w) : swap16 (read16 m a) = m a ++ m (a + 1#w) := by
  unfold swap16 read16
  ext i hi
  simp only [BitVec.getElem_append, BitVec.getElem_extractLsb', BitVec.getLsbD_append]
  grind

/-- A swapped word read is the big-endian one. -/
theorem swap32_read32 (m : Mem w) (a : BitVec w) :
    swap32 (read32 m a) = m a ++ m (a + 1#w) ++ m (a + 2#w) ++ m (a + 3#w) := by
  unfold swap32 read32
  ext i hi
  simp only [BitVec.getElem_append, BitVec.getElem_extractLsb', BitVec.getLsbD_append]
  grind

/-- A swapped half-word write stores the most significant byte first. -/
theorem write16_swap16 (m : Mem w) (a : BitVec w) (v : BitVec 16) :
    write16 m a (swap16 v) =
      write8 (write8 m a (v.extractLsb' 8 8)) (a + 1#w) (v.extractLsb' 0 8) := by
  have h₀ : (swap16 v).extractLsb' 0 8 = v.extractLsb' 8 8 := by
    unfold swap16
    ext i hi
    simp only [BitVec.getElem_extractLsb', BitVec.getLsbD_append, BitVec.getLsbD_extractLsb']
    grind
  have h₁ : (swap16 v).extractLsb' 8 8 = v.extractLsb' 0 8 := by
    unfold swap16
    ext i hi
    simp only [BitVec.getElem_extractLsb', BitVec.getLsbD_append, BitVec.getLsbD_extractLsb']
    grind
  rw [write16, h₀, h₁]

/-- Byte `i` of a swapped word is byte `3 - i`. -/
theorem extract_swap32 (v : BitVec 32) :
    (swap32 v).extractLsb' 0 8 = v.extractLsb' 24 8 ∧
    (swap32 v).extractLsb' 8 8 = v.extractLsb' 16 8 ∧
    (swap32 v).extractLsb' 16 8 = v.extractLsb' 8 8 ∧
    (swap32 v).extractLsb' 24 8 = v.extractLsb' 0 8 := by
  unfold swap32
  refine ⟨?_, ?_, ?_, ?_⟩ <;>
  · ext i hi
    simp only [BitVec.getElem_extractLsb', BitVec.getLsbD_append, BitVec.getLsbD_extractLsb']
    grind

/-- A swapped word write stores the most significant byte first. -/
theorem write32_swap32 (m : Mem w) (a : BitVec w) (v : BitVec 32) :
    write32 m a (swap32 v) =
      write8 (write8 (write8 (write8 m a (v.extractLsb' 24 8)) (a + 1#w) (v.extractLsb' 16 8))
        (a + 2#w) (v.extractLsb' 8 8)) (a + 3#w) (v.extractLsb' 0 8) := by
  obtain ⟨h₀, h₁, h₂, h₃⟩ := extract_swap32 v
  rw [write32, h₀, h₁, h₂, h₃]

/-! ## Reading what was written -/

@[simp] theorem write8_same (m : Mem w) (a : BitVec w) (v : BitVec 8) : write8 m a v a = v :=
  Function.update_self ..

theorem write8_of_ne {m : Mem w} {a x : BitVec w} {v : BitVec 8} (h : x ≠ a) :
    write8 m a v x = m x :=
  Function.update_of_ne h ..

/-- The four bytes of a word: a byte that is none of them is untouched by
a write of the word. -/
theorem write32_of_ne {m : Mem w} {a x : BitVec w} {v : BitVec 32} (h₀ : x ≠ a) (h₁ : x ≠ a + 1#w)
    (h₂ : x ≠ a + 2#w) (h₃ : x ≠ a + 3#w) : write32 m a v x = m x := by
  rw [write32, write8_of_ne h₃, write8_of_ne h₂, write8_of_ne h₁, write8_of_ne h₀]

/-- The word of an aligned address. -/
theorem base_aligned_add {a : BitVec w} (hw : 2 ≤ w) (ha : Block.offset 2 a = 0#w) {n : ℕ}
    (hn : n < 4) : Block.base 2 (a + BitVec.ofNat w n) = a := by
  have hmod : a.toNat % 2 ^ 2 = 0 := by
    rw [← Block.toNat_offset, ha, BitVec.toNat_zero]
  rw [Block.base_add hw (by omega)]
  apply Block.ext (k := 2)
  · rw [Block.base_base]
  · rw [ha]
    apply BitVec.eq_of_toNat_eq
    rw [Block.toNat_offset, Block.toNat_base, Nat.mul_mod_left, BitVec.toNat_zero]

/-- A write of an aligned word is not seen outside it. -/
theorem write32_of_base_ne {m : Mem w} {a x : BitVec w} {v : BitVec 32} (hw : 2 ≤ w)
    (ha : Block.offset 2 a = 0#w) (h : Block.base 2 x ≠ a) : write32 m a v x = m x := by
  refine write32_of_ne ?_ ?_ ?_ ?_
  · rintro rfl
    exact h (by simpa using base_aligned_add hw ha (n := 0) (by omega))
  · rintro rfl
    exact h (base_aligned_add hw ha (n := 1) (by omega))
  · rintro rfl
    exact h (base_aligned_add hw ha (n := 2) (by omega))
  · rintro rfl
    exact h (base_aligned_add hw ha (n := 3) (by omega))

/-- Two aligned words share no byte. -/
theorem read32_write32_of_ne {m : Mem w} {a b : BitVec w} {v : BitVec 32} (hw : 2 ≤ w)
    (ha : Block.offset 2 a = 0#w) (hb : Block.offset 2 b = 0#w) (h : b ≠ a) :
    read32 (write32 m a v) b = read32 m b := by
  have key : ∀ n < 4, write32 m a v (b + BitVec.ofNat w n) = m (b + BitVec.ofNat w n) := by
    intro n hn
    exact write32_of_base_ne hw ha (by rwa [base_aligned_add hw hb hn])
  have h₀ := key 0 (by omega)
  rw [show b + BitVec.ofNat w 0 = b by simp] at h₀
  have h₁ : write32 m a v (b + 1#w) = m (b + 1#w) := key 1 (by omega)
  have h₂ : write32 m a v (b + 2#w) = m (b + 2#w) := key 2 (by omega)
  have h₃ : write32 m a v (b + 3#w) = m (b + 3#w) := key 3 (by omega)
  rw [read32, read32, h₀, h₁, h₂, h₃]

/-- Small distinct offsets from one address are distinct addresses. -/
theorem add_ofNat_ne {a : BitVec w} {i j : ℕ} (hi : i < 2 ^ w) (hj : j < 2 ^ w) (h : i ≠ j) :
    a + BitVec.ofNat w i ≠ a + BitVec.ofNat w j := by
  intro he
  have := (BitVec.add_right_inj a).mp he
  rw [BitVec.toNat_eq, BitVec.toNat_ofNat, BitVec.toNat_ofNat, Nat.mod_eq_of_lt hi,
    Nat.mod_eq_of_lt hj] at this
  exact h this

/-- The bytes a word write leaves at its four addresses. -/
theorem write32_bytes (m : Mem w) (a : BitVec w) (v : BitVec 32) (hw : 2 ≤ w) :
    write32 m a v a = v.extractLsb' 0 8 ∧ write32 m a v (a + 1#w) = v.extractLsb' 8 8 ∧
    write32 m a v (a + 2#w) = v.extractLsb' 16 8 ∧ write32 m a v (a + 3#w) = v.extractLsb' 24 8 := by
  have hpow : 4 ≤ 2 ^ w := by
    calc 4 = 2 ^ 2 := rfl
      _ ≤ 2 ^ w := Nat.pow_le_pow_right (by omega) hw
  have ne : ∀ i j : ℕ, i < 4 → j < 4 → i ≠ j → a + BitVec.ofNat w i ≠ a + BitVec.ofNat w j :=
    fun i j hi hj => add_ofNat_ne (by omega) (by omega)
  have a₀ : a + BitVec.ofNat w 0 = a := by simp
  have n01 : a ≠ a + 1#w := by simpa only [a₀] using ne 0 1 (by omega) (by omega) (by omega)
  have n02 : a ≠ a + 2#w := by simpa only [a₀] using ne 0 2 (by omega) (by omega) (by omega)
  have n03 : a ≠ a + 3#w := by simpa only [a₀] using ne 0 3 (by omega) (by omega) (by omega)
  have n12 : a + 1#w ≠ a + 2#w := ne 1 2 (by omega) (by omega) (by omega)
  have n13 : a + 1#w ≠ a + 3#w := ne 1 3 (by omega) (by omega) (by omega)
  have n23 : a + 2#w ≠ a + 3#w := ne 2 3 (by omega) (by omega) (by omega)
  refine ⟨?_, ?_, ?_, ?_⟩
  · rw [write32, write8_of_ne n03, write8_of_ne n02, write8_of_ne n01, write8_same]
  · rw [write32, write8_of_ne n13, write8_of_ne n12, write8_same]
  · rw [write32, write8_of_ne n23, write8_same]
  · rw [write32, write8_same]

/-- **A word reads back as it was written.** -/
theorem read32_write32 (m : Mem w) (a : BitVec w) (v : BitVec 32) (hw : 2 ≤ w) :
    read32 (write32 m a v) a = v := by
  obtain ⟨h₀, h₁, h₂, h₃⟩ := write32_bytes m a v hw
  rw [read32, h₀, h₁, h₂, h₃]
  apply BitVec.eq_of_getLsbD_eq
  intro i hi
  simp only [BitVec.getLsbD_append, BitVec.getLsbD_extractLsb']
  grind

/-- The 64-bit word at an address, least significant byte first. -/
def read64 (m : Mem w) (a : BitVec w) : BitVec 64 := read32 m (a + 4#w) ++ read32 m a

/-- The bytes from an address on. -/
def bytes (m : Mem w) (a : BitVec w) (n : ℕ) : List (BitVec 8) :=
  (List.range n).map fun j => m (a + BitVec.ofNat w j)

/-- Replaces the bytes from an address on. -/
def writeBytes (m : Mem w) (a : BitVec w) (bs : List (BitVec 8)) : Mem w :=
  fun x => bs[(x - a).toNat]?.getD (m x)

@[simp] theorem length_bytes (m : Mem w) (a : BitVec w) (n : ℕ) : (bytes m a n).length = n := by
  rw [bytes, List.length_map, List.length_range]

/-- The byte at the address, then the rest. -/
theorem bytes_succ (m : Mem w) (a : BitVec w) (n : ℕ) :
    bytes m a (n + 1) = m a :: bytes m (a + 1#w) n := by
  have hstep : ∀ j, m (a + BitVec.ofNat w (j + 1)) = m (a + 1#w + BitVec.ofNat w j) := fun j => by
    rw [BitVec.add_assoc, BitVec.ofNat_add_ofNat, Nat.add_comm 1 j]
  rw [bytes, List.range_succ_eq_map, List.map_cons, List.map_map, BitVec.add_zero]
  exact congrArg (m a :: ·) (List.map_congr_left fun j _ => hstep j)

theorem getElem?_bytes (m : Mem w) (a : BitVec w) {n j : ℕ} (hj : j < n) :
    (bytes m a n)[j]? = some (m (a + BitVec.ofNat w j)) := by
  rw [bytes, List.getElem?_map, List.getElem?_range hj]
  rfl

theorem append_eq_zero {v k : ℕ} (x : BitVec v) (y : BitVec k) :
    x ++ y = 0#(v + k) ↔ x = 0#v ∧ y = 0#k := by
  constructor
  · intro h
    constructor
    · ext i hi
      have := congrArg (BitVec.getLsbD · (k + i)) h
      simpa [BitVec.getLsbD_append, hi] using this
    · ext i hi
      have := congrArg (BitVec.getLsbD · i) h
      simpa [BitVec.getLsbD_append, hi] using this
  · rintro ⟨rfl, rfl⟩
    exact BitVec.zero_append_zero

theorem read32_eq_zero {m : Mem w} {a : BitVec w} :
    read32 m a = 0#32 ↔ m a = 0#8 ∧ m (a + 1#w) = 0#8 ∧ m (a + 2#w) = 0#8 ∧
      m (a + 3#w) = 0#8 := by
  have h₀ := append_eq_zero (m (a + 3#w) ++ m (a + 2#w) ++ m (a + 1#w)) (m a)
  have h₁ := append_eq_zero (m (a + 3#w) ++ m (a + 2#w)) (m (a + 1#w))
  have h₂ := append_eq_zero (m (a + 3#w)) (m (a + 2#w))
  rw [read32]
  tauto

/-- A word is zero where its bytes are. -/
theorem read64_eq_zero {m : Mem w} {a : BitVec w} :
    read64 m a = 0#64 ↔ ∀ j < 8, m (a + BitVec.ofNat w j) = 0#8 := by
  have key : read64 m a = 0#64 ↔ read32 m (a + 4#w) = 0#32 ∧ read32 m a = 0#32 :=
    append_eq_zero ..
  have hadd (i : ℕ) : a + 4#w + BitVec.ofNat w i = a + BitVec.ofNat w (4 + i) := by
    rw [BitVec.add_assoc, ← BitVec.ofNat_add]
  have h₅ : a + 4#w + 1#w = a + 5#w := hadd 1
  have h₆ : a + 4#w + 2#w = a + 6#w := hadd 2
  have h₇ : a + 4#w + 3#w = a + 7#w := hadd 3
  rw [key, read32_eq_zero, read32_eq_zero, h₅, h₆, h₇]
  constructor
  · rintro ⟨⟨b₄, b₅, b₆, b₇⟩, b₀, b₁, b₂, b₃⟩ j hj
    match j, hj with
    | 0, _ => simpa using b₀
    | 1, _ => exact b₁
    | 2, _ => exact b₂
    | 3, _ => exact b₃
    | 4, _ => exact b₄
    | 5, _ => exact b₅
    | 6, _ => exact b₆
    | 7, _ => exact b₇
  · intro h
    exact ⟨⟨h 4 (by omega), h 5 (by omega), h 6 (by omega), h 7 (by omega)⟩,
      by simpa using h 0 (by omega), h 1 (by omega), h 2 (by omega), h 3 (by omega)⟩

/-- Nothing is replaced past the bytes given. -/
theorem writeBytes_of_le {m : Mem w} {a x : BitVec w} {bs : List (BitVec 8)}
    (h : bs.length ≤ (x - a).toNat) : writeBytes m a bs x = m x := by
  rw [writeBytes, List.getElem?_eq_none h, Option.getD_none]

theorem writeBytes_add {m : Mem w} {a : BitVec w} {bs : List (BitVec 8)} {j : ℕ} (hj : j < 2 ^ w)
    {v : BitVec 8} (h : bs[j]? = some v) : writeBytes m a bs (a + BitVec.ofNat w j) = v := by
  have hsub : (a + BitVec.ofNat w j - a).toNat = j := by
    rw [BitVec.add_comm, BitVec.add_sub_cancel, BitVec.toNat_ofNat, Nat.mod_eq_of_lt hj]
  rw [writeBytes, hsub, h, Option.getD_some]

/-- One byte is replaced, then the rest. -/
theorem writeBytes_cons (m : Mem w) (a : BitVec w) (b : BitVec 8) {bs : List (BitVec 8)}
    (h : bs.length < 2 ^ w) :
    writeBytes m a (b :: bs) = writeBytes (write8 m a b) (a + 1#w) bs := by
  funext x
  obtain ⟨d, hd⟩ : ∃ d : ℕ, d = (x - a).toNat := ⟨_, rfl⟩
  have hlt : d < 2 ^ w := hd ▸ (x - a).isLt
  have hx : x = a + BitVec.ofNat w d := by
    rw [hd, BitVec.ofNat_toNat, BitVec.setWidth_eq, BitVec.add_comm, BitVec.sub_add_cancel]
  have hone : (1#w).toNat = 1 % 2 ^ w := BitVec.toNat_ofNat 1 w
  have hsub : (x - (a + 1#w)).toNat = (2 ^ w - 1 % 2 ^ w + d) % 2 ^ w := by
    rw [← BitVec.sub_sub, BitVec.toNat_sub, ← hd, hone]
  rw [writeBytes, writeBytes, ← hd, hsub]
  cases d with
  | zero =>
    have hxa : x = a := by rw [hx, BitVec.add_zero]
    rcases Nat.lt_or_ge 1 (2 ^ w) with h1 | h1
    · have hout : bs.length ≤ (2 ^ w - 1 % 2 ^ w + 0) % 2 ^ w := by
        rw [Nat.mod_eq_of_lt h1, Nat.mod_eq_of_lt (by omega)]
        omega
      rw [List.getElem?_eq_none hout, hxa, write8_same]
      rfl
    · have hbs : bs = [] := List.length_eq_zero_iff.mp (by omega)
      subst hbs
      rw [hxa, write8_same]
      rfl
  | succ d =>
    have hne : x ≠ a := by
      intro h0
      rw [h0, BitVec.sub_self, BitVec.toNat_zero] at hd
      omega
    have h1 : 1 < 2 ^ w := by omega
    have hmod : (2 ^ w - 1 % 2 ^ w + (d + 1)) % 2 ^ w = d := by
      rw [Nat.mod_eq_of_lt h1, show 2 ^ w - 1 + (d + 1) = 2 ^ w + d by omega, Nat.add_mod_left,
        Nat.mod_eq_of_lt (by omega)]
    rw [hmod, List.getElem?_cons_succ, write8_of_ne hne]

theorem writeBytes_singleton (m : Mem w) (a : BitVec w) (b : BitVec 8) :
    writeBytes m a [b] = write8 m a b :=
  writeBytes_cons m a b (Nat.two_pow_pos w)

/-- Bytes that follow others. -/
theorem writeBytes_append (m : Mem w) (a : BitVec w) {bs cs : List (BitVec 8)}
    (h : bs.length + cs.length ≤ 2 ^ w) :
    writeBytes m a (bs ++ cs) =
      writeBytes (writeBytes m a bs) (a + BitVec.ofNat w bs.length) cs := by
  induction bs generalizing m a with
  | nil =>
    have hnil : writeBytes m a [] = m := rfl
    rw [List.nil_append, List.length_nil, BitVec.add_zero, hnil]
  | cons b bs ih =>
    rw [List.length_cons] at h
    rw [List.cons_append, writeBytes_cons _ _ _ (by rw [List.length_append]; omega),
      writeBytes_cons _ _ _ (by omega), ih _ _ (by omega), List.length_cons, BitVec.add_assoc,
      Nat.add_comm bs.length 1, ← BitVec.ofNat_add_ofNat]

/-- What is replaced again, and more, is as if it had not been. -/
theorem writeBytes_covered (m : Mem w) (a : BitVec w) {bs cs : List (BitVec 8)}
    (h : bs.length ≤ cs.length) : writeBytes (writeBytes m a bs) a cs = writeBytes m a cs := by
  funext x
  rcases Nat.lt_or_ge (x - a).toNat cs.length with hlt | hge
  · simp only [writeBytes, List.getElem?_eq_getElem hlt, Option.getD_some]
  · rw [writeBytes_of_le hge, writeBytes_of_le (by omega), writeBytes_of_le hge]

/-- Two replacements, one of more bytes, that are the same. -/
theorem writeBytes_eq_iff {m : Mem w} {a : BitVec w} {bs cs : List (BitVec 8)}
    (h : bs.length ≤ cs.length) (hw : cs.length ≤ 2 ^ w) :
    writeBytes m a cs = writeBytes m a bs ↔
      ∀ j (hj : j < cs.length), cs[j] = bs[j]?.getD (m (a + BitVec.ofNat w j)) := by
  have hat (ds : List (BitVec 8)) (j : ℕ) (hj : j < 2 ^ w) :
      writeBytes m a ds (a + BitVec.ofNat w j) = ds[j]?.getD (m (a + BitVec.ofNat w j)) := by
    have hsub : (a + BitVec.ofNat w j - a).toNat = j := by
      rw [BitVec.add_comm, BitVec.add_sub_cancel, BitVec.toNat_ofNat, Nat.mod_eq_of_lt hj]
    rw [writeBytes, hsub]
  constructor
  · intro heq j hj
    have := congrFun heq (a + BitVec.ofNat w j)
    rw [hat _ _ (by omega), hat _ _ (by omega), List.getElem?_eq_getElem hj] at this
    exact this
  · intro hall
    funext x
    rcases Nat.lt_or_ge (x - a).toNat cs.length with hlt | hge
    · have hx : x = a + BitVec.ofNat w (x - a).toNat := by
        rw [BitVec.ofNat_toNat, BitVec.setWidth_eq, BitVec.add_comm, BitVec.sub_add_cancel]
      rw [hx, hat _ _ (by omega), hat _ _ (by omega), List.getElem?_eq_getElem hlt]
      exact hall _ hlt
    · rw [writeBytes_of_le hge, writeBytes_of_le (by omega)]

/-! ## Words as bytes -/

/-- A byte of a word, the most significant first. -/
def byteOf (v : BitVec 32) (j : ℕ) : BitVec 8 := v.extractLsb' (24 - 8 * j) 8

/-- The bytes of a word. -/
def ofWord (v : BitVec 32) : List (BitVec 8) :=
  [v.extractLsb' 24 8, v.extractLsb' 16 8, v.extractLsb' 8 8, v.extractLsb' 0 8]

theorem getElem?_ofWord (v : BitVec 32) {j : ℕ} (hj : j < 4) :
    (ofWord v)[j]? = some (byteOf v j) := by
  match j, hj with
  | 0, _ | 1, _ | 2, _ | 3, _ => rfl

@[simp] theorem length_ofWord (v : BitVec 32) : (ofWord v).length = 4 := rfl

/-- A swapped word read is the bytes at the address. -/
theorem ofWord_read32 (m : Mem w) (a : BitVec w) : ofWord (swap32 (read32 m a)) = bytes m a 4 := by
  have happ : ∀ b₀ b₁ b₂ b₃ : BitVec 8, ofWord (b₀ ++ b₁ ++ b₂ ++ b₃) = [b₀, b₁, b₂, b₃] := by
    intro b₀ b₁ b₂ b₃
    rw [ofWord, List.cons.injEq, List.cons.injEq, List.cons.injEq, List.cons.injEq]
    refine ⟨?_, ?_, ?_, ?_, rfl⟩ <;>
    · ext i hi
      simp only [BitVec.getElem_extractLsb', BitVec.getLsbD_append]
      grind
  have hbytes : bytes m a 4 = [m (a + 0#w), m (a + 1#w), m (a + 2#w), m (a + 3#w)] := rfl
  rw [swap32_read32, happ, hbytes, BitVec.add_zero]

/-- A swapped word write replaces the bytes at the address. -/
theorem write32_eq_writeBytes (m : Mem w) (a : BitVec w) (v : BitVec 32) (hw : 2 ≤ w) :
    write32 m a (swap32 v) = writeBytes m a (ofWord v) := by
  have hpow : 2 ^ 2 ≤ 2 ^ w := Nat.pow_le_pow_right (by decide) hw
  have hnil : ∀ (m : Mem w) (x : BitVec w), writeBytes m x [] = m := fun _ _ => rfl
  have h2 : a + 1#w + 1#w = a + 2#w := by rw [BitVec.add_assoc, BitVec.ofNat_add_ofNat]
  have h3 : a + 2#w + 1#w = a + 3#w := by rw [BitVec.add_assoc, BitVec.ofNat_add_ofNat]
  rw [write32_swap32, ofWord, writeBytes_cons _ _ _ (by simp; omega),
    writeBytes_cons _ _ _ (by simp; omega), writeBytes_cons _ _ _ (by simp; omega),
    writeBytes_cons _ _ _ (by simp), hnil, h2, h3]

end ByteMem
