import MrIss.Lib.ByteFile
/-!
# Memory addressed by numbers

A memory written and read by runs of bytes and by little-endian numbers.
What is written can be read back, and a read that a write does not reach
gives what it gave.
-/

namespace Arena

open ByteFile

/-- A memory addressed by numbers. -/
abbrev Mem : Type := ℕ → BitVec 8

/-- The bytes from an address on. -/
def read (m : Mem) (a n : ℕ) : Bytes := (List.range' a n).map m

/-- Writes bytes from an address on. -/
def write (m : Mem) (a : ℕ) (bs : Bytes) : Mem := fun x =>
  if a ≤ x then bs[x - a]?.getD (m x) else m x

/-- The number in the `n` bytes at an address. -/
def peek (m : Mem) (a n : ℕ) : ℕ := ofLE (read m a n)

/-- Writes a number to the `n` bytes at an address. -/
def poke (m : Mem) (a n v : ℕ) : Mem := write m a (toLE n v)

variable {m m' m'' : Mem} {a b n k v lo hi : ℕ} {bs : Bytes}

/-! ## Reading -/

@[simp] theorem length_read : (read m a n).length = n := by
  rw [read, List.length_map, List.length_range']

/-- Two runs in a row are one. -/
theorem read_add : read m a (n + k) = read m a n ++ read m (a + n) k := by
  rw [read, ← List.range'_append_1, List.map_append]
  rfl

/-- A read depends on the bytes it reads. -/
theorem read_congr (h : ∀ x, a ≤ x → x < a + n → m' x = m x) : read m' a n = read m a n := by
  refine List.map_congr_left fun x hx => ?_
  rw [List.mem_range'_1] at hx
  exact h x hx.1 hx.2

/-! ## Writing -/

theorem write_of_lt {x : ℕ} (h : x < a) : write m a bs x = m x := if_neg (by omega)

theorem write_of_le {x : ℕ} (h : a + bs.length ≤ x) : write m a bs x = m x := by
  rw [write, if_pos (by omega), List.getElem?_eq_none (by omega), Option.getD_none]

/-- **What is written is read back.** -/
theorem read_write : read (write m a bs) a bs.length = bs := by
  refine List.ext_getElem (by simp) fun i hi hi' => ?_
  have hbyte : (read (write m a bs) a bs.length)[i] = write m a bs (a + 1 * i) := by
    simp only [read, List.getElem_map, List.getElem_range']
  rw [hbyte, Nat.one_mul, write, if_pos (by omega), Nat.add_sub_cancel_left,
    List.getElem?_eq_getElem hi', Option.getD_some]

/-- A write elsewhere leaves a read alone. -/
theorem read_write_apart (h : b + n ≤ a ∨ a + bs.length ≤ b) :
    read (write m a bs) b n = read m b n := by
  refine read_congr fun x hle hlt => ?_
  rcases h with h | h
  · exact write_of_lt (by omega)
  · exact write_of_le (by omega)

/-! ## Numbers -/

/-- The number written is the one read. -/
theorem peek_poke (h : v < 256 ^ n) : peek (poke m a n v) a n = v := by
  have hread : read (poke m a n v) a (toLE n v).length = toLE n v := read_write
  rw [length_toLE] at hread
  rw [peek, hread, ofLE_toLE h]

/-- A number written elsewhere leaves a number alone. -/
theorem peek_poke_apart (h : b + k ≤ a ∨ a + n ≤ b) :
    peek (poke m a n v) b k = peek m b k := by
  rw [peek, poke, read_write_apart (by rwa [length_toLE]), peek]

/-! ## Memories that agree outside a range -/

/-- Outside the addresses from `lo` up to `hi`, nothing has changed. -/
def Within (lo hi : ℕ) (m m' : Mem) : Prop := ∀ x, x < lo ∨ hi ≤ x → m' x = m x

namespace Within

theorem refl : Within lo hi m m := fun _ _ => rfl

theorem trans (h : Within lo hi m m') (h' : Within lo hi m' m'') : Within lo hi m m'' :=
  fun x hx => (h' x hx).trans (h x hx)

/-- A larger range says less. -/
theorem mono {lo' hi' : ℕ} (h : Within lo hi m m') (hlo : lo' ≤ lo) (hhi : hi ≤ hi') :
    Within lo' hi' m m' := fun x hx => h x (by omega)

theorem write (hlo : lo ≤ a) (hhi : a + bs.length ≤ hi) : Within lo hi m (write m a bs) := by
  intro x hx
  rcases hx with hx | hx
  · exact write_of_lt (by omega)
  · exact write_of_le (by omega)

theorem poke (hlo : lo ≤ a) (hhi : a + n ≤ hi) : Within lo hi m (poke m a n v) :=
  write hlo (by rwa [length_toLE])

/-- What lies outside is read as it was. -/
theorem read_eq (h : Within lo hi m m') (hn : a + n ≤ lo ∨ hi ≤ a) : read m' a n = read m a n :=
  read_congr fun x hle hlt => h x (by omega)

theorem peek_eq (h : Within lo hi m m') (hn : a + n ≤ lo ∨ hi ≤ a) : peek m' a n = peek m a n := by
  rw [peek, h.read_eq hn, peek]

end Within

end Arena
