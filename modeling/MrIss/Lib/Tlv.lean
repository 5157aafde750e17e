import MrIss.Lib.ByteFile
/-!
# Chunks of named data

A format of chunks one after another: a name and a length, of 64 bits
each, and as many bytes of data as the length says. Reading takes chunk
after chunk to the end of the file, and fails where one is cut short.
-/

namespace Tlv

open ByteFile

/-- A chunk. -/
structure Chunk where
  name : BitVec 64
  data : Bytes
  fits : data.length < 2 ^ 64
  deriving DecidableEq

/-- A chunk as it lies in a file. -/
def Chunk.encode (k : Chunk) : Bytes :=
  le64 k.name ++ le64 (BitVec.ofNat 64 k.data.length) ++ k.data

/-- A file of chunks. -/
def encode (ks : List Chunk) : Bytes := ks.flatMap Chunk.encode

theorem fits_take {bs : Bytes} {len : ℕ} (h : len = ofLE ((bs.drop 8).take 8)) :
    ((bs.drop 16).take len).length < 2 ^ 64 := by
  have hlt := ofLE_lt ((bs.drop 8).take 8)
  have hle : 256 ^ ((bs.drop 8).take 8).length ≤ 256 ^ 8 :=
    Nat.pow_le_pow_right (by omega) (List.length_take_le ..)
  rw [List.length_take]
  omega

/-- The chunk at the front of a file, and what follows it. -/
def next (bs : Bytes) : Option (Chunk × Bytes) :=
  let len := ofLE ((bs.drop 8).take 8)
  if 16 + len ≤ bs.length then
    some (⟨BitVec.ofNat 64 (ofLE (bs.take 8)), (bs.drop 16).take len, fits_take rfl⟩,
      bs.drop (16 + len))
  else none

/-- What follows a chunk is shorter. -/
theorem next_length {bs rest : Bytes} {k : Chunk} (h : next bs = some (k, rest)) :
    rest.length < bs.length := by
  unfold next at h
  dsimp only at h
  split at h
  · cases h
    rw [List.length_drop]
    omega
  · cases h

/-- Reads a file of chunks. -/
def read (bs : Bytes) : Option (List Chunk) :=
  if bs = [] then some []
  else match _h : next bs with
    | none => none
    | some (k, rest) => (read rest).map (k :: ·)
  termination_by bs.length
  decreasing_by exact next_length _h

/-! ## Round trips -/

@[simp] theorem encode_nil : encode [] = [] := rfl

@[simp] theorem encode_cons (k : Chunk) (ks : List Chunk) :
    encode (k :: ks) = k.encode ++ encode ks := rfl

theorem encode_append (ks ks' : List Chunk) : encode (ks ++ ks') = encode ks ++ encode ks' :=
  List.flatMap_append

@[simp] theorem Chunk.length_encode (k : Chunk) : k.encode.length = 16 + k.data.length := by
  simp only [encode, List.length_append, length_le64]

@[simp] theorem read_nil : read [] = some [] := by
  rw [read, if_pos rfl]

theorem read_of_next {bs rest : Bytes} {k : Chunk} (h : next bs = some (k, rest)) :
    read bs = (read rest).map (k :: ·) := by
  have hne : bs ≠ [] := by
    rintro rfl
    cases h
  rw [read, if_neg hne]
  split
  · next hn => rw [hn] at h; cases h
  · next hn => rw [hn] at h; cases h; rfl

/-- The front chunk is read back. -/
theorem next_encode (k : Chunk) (rest : Bytes) : next (k.encode ++ rest) = some (k, rest) := by
  have hname : (k.encode ++ rest).take 8 = le64 k.name := by
    rw [Chunk.encode, List.append_assoc, List.append_assoc, List.take_left' (length_le64 _)]
  have hlen : ((k.encode ++ rest).drop 8).take 8 = le64 (BitVec.ofNat 64 k.data.length) := by
    rw [Chunk.encode, List.append_assoc, List.append_assoc, List.drop_left' (length_le64 _),
      List.take_left' (length_le64 _)]
  have hdrop : (k.encode ++ rest).drop 16 = k.data ++ rest := by
    rw [Chunk.encode, List.append_assoc, List.drop_left' (by simp)]
  have hval : ofLE (le64 (BitVec.ofNat 64 k.data.length)) = k.data.length := by
    have hlt := k.fits
    rw [le64, BitVec.toNat_ofNat, Nat.mod_eq_of_lt hlt, ofLE_toLE]
    exact hlt
  have hrest : (k.encode ++ rest).drop (16 + k.data.length) = rest := by
    rw [List.drop_left' k.length_encode]
  simp only [next, hname, hlen, hval, hdrop, hrest, ofLE_le64, List.take_left]
  rw [if_pos (by rw [List.length_append, k.length_encode]; omega)]

/-- **Chunks are read back,** and then what follows them. -/
theorem read_encode_append (ks : List Chunk) (rest : Bytes) :
    read (encode ks ++ rest) = (read rest).map (ks ++ ·) := by
  induction ks with
  | nil => simp
  | cons k ks ih =>
    rw [encode_cons, List.append_assoc, read_of_next (next_encode k _), ih, Option.map_map]
    rfl

theorem read_encode (ks : List Chunk) : read (encode ks) = some ks := by
  have h := read_encode_append ks []
  rwa [List.append_nil, read_nil, Option.map_some, List.append_nil] at h

/-- Bytes that are all zero read, if at all, as a chunk without a name and
others after it. -/
theorem read_zeros {n : ℕ} (hn : n ≠ 0) {ks : List Chunk}
    (h : read (List.replicate n 0) = some ks) : ∃ k ∈ ks, k.name = 0#64 := by
  cases hnext : next (List.replicate n 0) with
  | none =>
    rw [read, if_neg (by simpa using hn)] at h
    split at h
    · cases h
    · next hs => rw [hnext] at hs; cases hs
  | some kr =>
    obtain ⟨k, rest⟩ := kr
    rw [read_of_next hnext, Option.map_eq_some_iff] at h
    obtain ⟨ks', -, rfl⟩ := h
    refine ⟨k, List.mem_cons_self, ?_⟩
    unfold next at hnext
    dsimp only at hnext
    split at hnext
    · cases hnext
      rw [List.take_replicate, ofLE_replicate_zero]
    · cases hnext

end Tlv
