import Mathlib.Algebra.Ring.Nat
import Mathlib.Data.List.Basic
/-!
# Files of bytes

A file is the list of its bytes, read and written at an offset. A write
that reaches past the end makes the file longer; what lies between the old
end and the write reads as zero.
-/

namespace ByteFile

/-- Bytes, in a file or out of it. -/
abbrev Bytes : Type := List (BitVec 8)

/-- Reads up to `n` bytes. -/
def pread (f : Bytes) (off n : ℕ) : Bytes := (f.drop off).take n

/-- Writes bytes; to write none is to do nothing. -/
def pwrite (f : Bytes) (off : ℕ) (bs : Bytes) : Bytes :=
  if bs.isEmpty then f
  else (f ++ List.replicate (off - f.length) 0).take off ++ bs ++ f.drop (off + bs.length)

variable {f bs as : Bytes} {off n : ℕ}

/-! ## Reading -/

theorem length_pread : (pread f off n).length = min n (f.length - off) := by
  rw [pread, List.length_take, List.length_drop]

theorem getElem?_pread {i : ℕ} (hi : i < n) : (pread f off n)[i]? = f[off + i]? := by
  rw [pread, List.getElem?_take_of_lt hi, List.getElem?_drop]

/-! ## Writing -/

@[simp] theorem pwrite_nil (f : Bytes) (off : ℕ) : pwrite f off [] = f := rfl

/-- A write inside the file replaces what was there. -/
theorem pwrite_inside (h : off + bs.length ≤ f.length) :
    pwrite f off bs = f.take off ++ bs ++ f.drop (off + bs.length) := by
  cases bs with
  | nil => simp
  | cons b bs =>
    rw [pwrite, if_neg (by simp), Nat.sub_eq_zero_of_le (by omega), List.replicate_zero,
      List.append_nil]

theorem length_pwrite_inside (h : off + bs.length ≤ f.length) :
    (pwrite f off bs).length = f.length := by
  rw [pwrite_inside h, List.length_append, List.length_append, List.length_take, List.length_drop]
  omega

/-- What a write puts in the file. -/
theorem getElem?_pwrite_of_mem {i : ℕ} (hi : i < bs.length) :
    (pwrite f off bs)[off + i]? = bs[i]? := by
  have hne : bs ≠ [] := by
    rintro rfl
    simp at hi
  have hlen : ((f ++ List.replicate (off - f.length) 0).take off).length = off := by
    rw [List.length_take, List.length_append, List.length_replicate]
    omega
  rw [pwrite, if_neg (by simpa using hne), List.append_assoc,
    List.getElem?_append_right (by omega), hlen, Nat.add_sub_cancel_left,
    List.getElem?_append_left hi]

/-- What a write leaves alone: the bytes of the file that it does not
cover. -/
theorem getElem?_pwrite_of_not_mem {i : ℕ} (hi : i < off ∨ off + bs.length ≤ i)
    (hf : i < f.length) : (pwrite f off bs)[i]? = f[i]? := by
  by_cases hne : bs.isEmpty
  · rw [pwrite, if_pos hne]
  · have hlen : ((f ++ List.replicate (off - f.length) 0).take off).length = off := by
      rw [List.length_take, List.length_append, List.length_replicate]
      omega
    rw [pwrite, if_neg hne, List.append_assoc]
    rcases hi with hi | hi
    · rw [List.getElem?_append_left (by omega), List.getElem?_take_of_lt hi,
        List.getElem?_append_left hf]
    · rw [List.getElem?_append_right (by omega), hlen, List.getElem?_append_right (by omega),
        List.getElem?_drop]
      congr 1
      omega

/-- A write where the last one ended. -/
theorem pwrite_append (as rest bs : Bytes) :
    pwrite (as ++ rest) as.length bs = as ++ bs ++ rest.drop bs.length := by
  cases bs with
  | nil => simp
  | cons b bs =>
    rw [pwrite, if_neg (by simp), List.append_assoc as rest, List.take_left,
      List.drop_append, List.drop_of_length_le (by omega), List.nil_append,
      Nat.add_sub_cancel_left]

/-! ## Numbers -/

/-- The low `n` bytes of a number, the least significant one first. -/
def toLE : ℕ → ℕ → Bytes
  | 0, _ => []
  | n + 1, v => BitVec.ofNat 8 v :: toLE n (v / 256)

/-- The number that bytes stand for. -/
def ofLE : Bytes → ℕ
  | [] => 0
  | b :: bs => b.toNat + 256 * ofLE bs

@[simp] theorem length_toLE (n v : ℕ) : (toLE n v).length = n := by
  induction n generalizing v with
  | zero => rfl
  | succ n ih => rw [toLE, List.length_cons, ih]

theorem ofLE_toLE {n v : ℕ} (h : v < 256 ^ n) : ofLE (toLE n v) = v := by
  induction n generalizing v with
  | zero =>
    rw [Nat.pow_zero] at h
    rw [toLE, ofLE]
    omega
  | succ n ih =>
    rw [Nat.pow_succ] at h
    rw [toLE, ofLE, ih (by omega), BitVec.toNat_ofNat]
    omega

theorem ofLE_lt (bs : Bytes) : ofLE bs < 256 ^ bs.length := by
  induction bs with
  | nil => decide
  | cons b bs ih =>
    have hb := b.isLt
    rw [ofLE, List.length_cons, Nat.pow_succ]
    omega

theorem ofLE_replicate_zero (n : ℕ) : ofLE (List.replicate n 0) = 0 := by
  induction n with
  | zero => rfl
  | succ n ih => rw [List.replicate_succ, ofLE, ih]; rfl

/-- A 64-bit word as bytes. -/
def le64 (v : BitVec 64) : Bytes := toLE 8 v.toNat

@[simp] theorem length_le64 (v : BitVec 64) : (le64 v).length = 8 := length_toLE ..

@[simp] theorem ofLE_le64 (v : BitVec 64) : BitVec.ofNat 64 (ofLE (le64 v)) = v := by
  rw [le64, ofLE_toLE (show v.toNat < 256 ^ 8 from v.isLt), BitVec.ofNat_toNat, BitVec.setWidth_eq]

end ByteFile
