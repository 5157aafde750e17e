import MrIss.Lib.Crc
/-!
# The SD card's frames

A command and most responses are frames of 48 bits, in two words of a
register bank: a start bit, a direction bit, six bits of command, 32 bits of
payload, a CRC of seven bits and an end bit. The identification and the
data of the card come in 128 bits with a CRC of their own. Both CRCs are
taken a byte at a time, by a table.
-/

namespace MrIss

namespace Sd

open Crc

abbrev Byte : Type := BitVec 8

/-! ## The CRC -/

/-- `crc7_tab`. -/
def crc7Tab : List Byte := 
  [0x00, 0x12, 0x24, 0x36, 0x48, 0x5a, 0x6c, 0x7e, 0x90, 0x82, 0xb4, 0xa6, 0xd8, 0xca,
  0xfc, 0xee, 0x32, 0x20, 0x16, 0x04, 0x7a, 0x68, 0x5e, 0x4c, 0xa2, 0xb0, 0x86, 0x94,
  0xea, 0xf8, 0xce, 0xdc, 0x64, 0x76, 0x40, 0x52, 0x2c, 0x3e, 0x08, 0x1a, 0xf4, 0xe6,
  0xd0, 0xc2, 0xbc, 0xae, 0x98, 0x8a, 0x56, 0x44, 0x72, 0x60, 0x1e, 0x0c, 0x3a, 0x28,
  0xc6, 0xd4, 0xe2, 0xf0, 0x8e, 0x9c, 0xaa, 0xb8, 0xc8, 0xda, 0xec, 0xfe, 0x80, 0x92,
  0xa4, 0xb6, 0x58, 0x4a, 0x7c, 0x6e, 0x10, 0x02, 0x34, 0x26, 0xfa, 0xe8, 0xde, 0xcc,
  0xb2, 0xa0, 0x96, 0x84, 0x6a, 0x78, 0x4e, 0x5c, 0x22, 0x30, 0x06, 0x14, 0xac, 0xbe,
  0x88, 0x9a, 0xe4, 0xf6, 0xc0, 0xd2, 0x3c, 0x2e, 0x18, 0x0a, 0x74, 0x66, 0x50, 0x42,
  0x9e, 0x8c, 0xba, 0xa8, 0xd6, 0xc4, 0xf2, 0xe0, 0x0e, 0x1c, 0x2a, 0x38, 0x46, 0x54,
  0x62, 0x70, 0x82, 0x90, 0xa6, 0xb4, 0xca, 0xd8, 0xee, 0xfc, 0x12, 0x00, 0x36, 0x24,
  0x5a, 0x48, 0x7e, 0x6c, 0xb0, 0xa2, 0x94, 0x86, 0xf8, 0xea, 0xdc, 0xce, 0x20, 0x32,
  0x04, 0x16, 0x68, 0x7a, 0x4c, 0x5e, 0xe6, 0xf4, 0xc2, 0xd0, 0xae, 0xbc, 0x8a, 0x98,
  0x76, 0x64, 0x52, 0x40, 0x3e, 0x2c, 0x1a, 0x08, 0xd4, 0xc6, 0xf0, 0xe2, 0x9c, 0x8e,
  0xb8, 0xaa, 0x44, 0x56, 0x60, 0x72, 0x0c, 0x1e, 0x28, 0x3a, 0x4a, 0x58, 0x6e, 0x7c,
  0x02, 0x10, 0x26, 0x34, 0xda, 0xc8, 0xfe, 0xec, 0x92, 0x80, 0xb6, 0xa4, 0x78, 0x6a,
  0x5c, 0x4e, 0x30, 0x22, 0x14, 0x06, 0xe8, 0xfa, 0xcc, 0xde, 0xa0, 0xb2, 0x84, 0x96,
  0x2e, 0x3c, 0x0a, 0x18, 0x66, 0x74, 0x42, 0x50, 0xbe, 0xac, 0x9a, 0x88, 0xf6, 0xe4,
  0xd2, 0xc0, 0x1c, 0x0e, 0x38, 0x2a, 0x54, 0x46, 0x70, 0x62, 0x8c, 0x9e, 0xa8, 0xba,
  0xc4, 0xd6, 0xe0, 0xf2]

/-- `crc7_tab[e]`. -/
def crc7Entry (e : Byte) : Byte := crc7Tab.getD e.toNat 0

/-- `sd_crc7`: the CRC of the lower 40 bits, "pre-shifted << 1". -/
def sdCrc7 (v : BitVec 64) : Byte :=
  ((fun p : BitVec 64 × Byte => (p.1 <<< 8, crc7Entry (p.2 ^^^ (p.1 >>> 32).setWidth 8)))^[5]
    (v, 0)).2

/-- `sd_crc7_120`. -/
def sdCrc7_120 (v : ℕ → Byte) : Byte :=
  (List.range 15).foldl (fun c i => crc7Entry (c ^^^ v (14 - i))) 0

/-! ## Responses -/

/-- `cid` before its CRC, by the offset of a byte. -/
def cidBytes : ℕ → Byte
  | 15 => 0x69
  | 14 => 0x45
  | 13 => 0x4d
  | 12 => 0x4d
  | 11 => 0x79
  | 10 => 0x53
  | 9 => 0x44
  | 8 => 0x20
  | 7 => 123
  | 6 => 0x61
  | 5 => 0x62
  | 4 => 0x63
  | 3 => 0x64
  | 2 => 0x01
  | 1 => 0x55
  | _ => 0

/-- The last lines of `makeCID` and `makeCSD`. -/
def withCrc (r : ℕ → Byte) : ℕ → Byte :=
  Function.update r 0 (sdCrc7_120 (fun i => r (i + 1)) ||| 1)

def makeCID : ℕ → Byte := withCrc cidBytes

/-- `csd` before its CRC, for a size `s` in units of 512 KB. -/
def csdBytes (s : BitVec 32) : ℕ → Byte
  | 15 => 0x40
  | 14 => 0x0e
  | 13 => 0
  | 12 => 0x0b
  | 11 => 0x5b
  | 10 => 0x59
  | 9 => 0x00
  | 8 => ((s &&& 0xff0000) >>> 16).setWidth 8
  | 7 => ((s &&& 0xff00) >>> 8).setWidth 8
  | 6 => (s &&& 0xff).setWidth 8
  | 5 => 0x7f
  | 4 => 0x80
  | 3 => 0x0a
  | 2 => 0x40
  | 1 => 0x00
  | _ => 0

def makeCSD (blocks : BitVec 32) : ℕ → Byte := withCrc (csdBytes (blocks / 1024 - 1))

/-- `makeResponse`: what goes to the two words. -/
def makeResponse (cmd payload : BitVec 32) : BitVec 32 × BitVec 32 :=
  let content : BitVec 64 :=
    ((cmd.setWidth 64 &&& 0x3f) <<< 32) ||| payload.setWidth 64 ||| ((0 : BitVec 64) <<< 38)
  let crc := sdCrc7 content
  let content := (content <<< 8) ||| crc.setWidth 64 ||| 1
  ((content &&& 0xffffffff).setWidth 32, (content >>> 32).setWidth 32)

/-- `cmd` in `checkForWork`. -/
def commandOf (cb1 : BitVec 32) : BitVec 32 := (cb1 >>> 8) &&& 0x3f

/-- `arg` in `checkForWork`. -/
def argumentOf (cb0 cb1 : BitVec 32) : BitVec 32 := (cb1 <<< 24) ||| (cb0 >>> 8)

/-! ## The polynomial -/

/-- `x ^ 3 + 1`, below the `x ^ 7` of CRC-7. -/
def crc7Poly : BitVec 7 := 0b0001001

open Polynomial in
theorem divisor_crc7Poly : divisor crc7Poly = X ^ 7 + X ^ 3 + 1 := by
  have hpoly : toPoly crc7Poly = X ^ 3 + 1 := by
    simp [toPoly, crc7Poly, bit, Finset.sum_range_succ]
    ring
  rw [divisor, hpoly, add_assoc]

/-- **The table is the polynomial's,** entry by entry. -/
theorem crc7Entry_eq (e : Byte) : crc7Entry e = entry crc7Poly e := by
  have hall : ∀ i : Fin 256, crc7Entry (BitVec.ofFin i) = entry crc7Poly (BitVec.ofFin i) := by
    decide +kernel
  exact hall e.toFin

/-- The table's fold has the CRC, one bit up. -/
theorem foldl_crc7Entry (ds : List Byte) :
    ds.foldl (fun c d => crc7Entry (c ^^^ d)) 0 = lift 8 (crc crc7Poly (ds.flatMap bits)) := by
  simp only [crc7Entry_eq]
  exact foldl_entry_zero (by decide) (by decide) crc7Poly ds

/-- A CRC in the upper bits of a byte whose lowest bit is then set. -/
theorem lift_or_one (r : BitVec 7) : lift 8 r ||| 1 = r ++ 1#1 := by
  have hall : ∀ i : Fin 128,
      lift 8 (BitVec.ofFin (w := 7) i) ||| 1 = BitVec.ofFin (w := 7) i ++ 1#1 := by decide
  exact hall r.toFin

theorem bits_bytes (v : BitVec 40) :
    bits v = ([32, 24, 16, 8, 0].map fun k => v.extractLsb' k 8).flatMap bits := by
  simp [bits, List.range_succ]

/-! ## The frames -/

/-- The byte that a round of `sd_crc7` takes. -/
theorem round_byte {v : BitVec 64} {k : ℕ} (hk : k < 5) :
    ((v <<< (8 * k)) >>> 32).setWidth 8 = (v.setWidth 40).extractLsb' (32 - 8 * k) 8 := by
  refine BitVec.eq_of_getLsbD_eq fun i hi => ?_
  simp only [BitVec.getLsbD_setWidth, BitVec.getLsbD_ushiftRight, BitVec.getLsbD_shiftLeft,
    BitVec.getLsbD_extractLsb']
  grind

/-- `sd_crc7` is the CRC of the lower 40 bits. -/
theorem sdCrc7_eq (v : BitVec 64) : sdCrc7 v = lift 8 (crc crc7Poly (bits (v.setWidth 40))) := by
  have hrun : ∀ k,
      (fun p : BitVec 64 × Byte => (p.1 <<< 8, crc7Entry (p.2 ^^^ (p.1 >>> 32).setWidth 8)))^[k]
        (v, 0) = (v <<< (8 * k), ((List.range k).map fun j =>
          ((v <<< (8 * j)) >>> 32).setWidth 8).foldl (fun c d => crc7Entry (c ^^^ d)) 0) := by
    intro k
    induction k with
    | zero =>
      rw [Nat.mul_zero, BitVec.shiftLeft_zero]
      rfl
    | succ k ih =>
      rw [Function.iterate_succ_apply', ih, List.range_succ, List.map_append, List.foldl_append,
        Nat.mul_succ, BitVec.shiftLeft_add]
      rfl
  have hbytes : ((List.range 5).map fun j => ((v <<< (8 * j)) >>> 32).setWidth 8) =
      [32, 24, 16, 8, 0].map fun k => (v.setWidth 40).extractLsb' k 8 :=
    List.map_congr_left fun k hk => round_byte (List.mem_range.mp hk)
  rw [sdCrc7, hrun, bits_bytes, ← foldl_crc7Entry, hbytes]

/-- `sd_crc7_120` is the CRC of 15 bytes, the last first. -/
theorem sdCrc7_120_eq (v : ℕ → Byte) :
    sdCrc7_120 v =
      lift 8 (crc crc7Poly (((List.range 15).map fun i => v (14 - i)).flatMap bits)) := by
  rw [← foldl_crc7Entry, List.foldl_map, sdCrc7_120]

/-- The upper 120 bits of what a register of 16 bytes sends. -/
def upper (r : ℕ → Byte) : List Bool := ((List.range 15).map fun i => r (15 - i)).flatMap bits

/-- The CRC in the lowest byte is that of the bits above. -/
def Checks (r : ℕ → Byte) : Prop := (r 0).extractLsb' 1 7 = crc crc7Poly (upper r)

theorem withCrc_zero (r : ℕ → Byte) : withCrc r 0 = crc crc7Poly (upper (withCrc r)) ++ 1#1 := by
  have hupper : ((List.range 15).map fun i => r (14 - i + 1)) =
      (List.range 15).map fun i => withCrc r (15 - i) := by
    refine List.map_congr_left fun i hi => ?_
    have hlt := List.mem_range.mp hi
    rw [withCrc, Function.update_of_ne (by omega)]
    congr 1
    omega
  rw [upper, ← hupper, ← lift_or_one]
  conv_lhs => rw [withCrc, Function.update_self, sdCrc7_120_eq]

theorem checks_withCrc (r : ℕ → Byte) : Checks (withCrc r) := by
  rw [Checks, withCrc_zero, BitVec.extractLsb'_append_eq_left]

/-- The first 40 bits of a response. -/
def head (cmd payload : BitVec 32) : BitVec 40 := 0#2 ++ cmd.extractLsb' 0 6 ++ payload

theorem content_eq (cmd payload : BitVec 32) :
    ((cmd.setWidth 64 &&& 0x3f) <<< 32) ||| payload.setWidth 64 ||| ((0 : BitVec 64) <<< 38) =
      (head cmd payload).setWidth 64 := by
  have hmask : ∀ i, (0x3f : BitVec 64).getLsbD i = decide (i < 6) := by
    intro i
    rw [show (0x3f : BitVec 64) = BitVec.ofNat 64 (2 ^ 6 - 1) from rfl, BitVec.getLsbD_ofNat,
      Nat.testBit_two_pow_sub_one]
    grind
  refine BitVec.eq_of_getLsbD_eq fun i hi => ?_
  simp only [head, BitVec.getLsbD_or, BitVec.getLsbD_shiftLeft, BitVec.getLsbD_and, hmask,
    BitVec.getLsbD_setWidth, BitVec.getLsbD_append, BitVec.getLsbD_extractLsb',
    BitVec.getLsbD_zero]
  grind

/-- A byte behind 40 bits. -/
theorem append_byte (h : BitVec 40) (b : Byte) :
    (h.setWidth 64 <<< 8) ||| b.setWidth 64 = 0#16 ++ (h ++ b) := by
  refine BitVec.eq_of_getLsbD_eq fun i hi => ?_
  simp only [BitVec.getLsbD_or, BitVec.getLsbD_shiftLeft, BitVec.getLsbD_setWidth,
    BitVec.getLsbD_append, BitVec.getLsbD_zero]
  grind

/-- The halves of a double word, together. -/
theorem halves (v : BitVec 64) :
    (v >>> 32).setWidth 32 ++ (v &&& 0xffffffff).setWidth 32 = v := by
  have hmask : ∀ i, (0xffffffff : BitVec 64).getLsbD i = decide (i < 32) := by
    intro i
    rw [show (0xffffffff : BitVec 64) = BitVec.ofNat 64 (2 ^ 32 - 1) from rfl,
      BitVec.getLsbD_ofNat, Nat.testBit_two_pow_sub_one]
    grind
  refine BitVec.eq_of_getLsbD_eq fun i hi => ?_
  simp only [BitVec.getLsbD_append, BitVec.getLsbD_setWidth, BitVec.getLsbD_ushiftRight,
    BitVec.getLsbD_and, hmask]
  grind

/-- **The two words of a response:** start, direction, command, payload, CRC
and end. -/
theorem makeResponse_eq (cmd payload : BitVec 32) :
    (makeResponse cmd payload).2 ++ (makeResponse cmd payload).1 =
      0#16 ++ (head cmd payload ++ (crc crc7Poly (bits (head cmd payload)) ++ 1#1)) := by
  have hone (b : Byte) : b.setWidth 64 ||| (1 : BitVec 64) = (b ||| 1).setWidth 64 := by
    rw [BitVec.setWidth_or]
    rfl
  have hhead : ((head cmd payload).setWidth 64).setWidth 40 = head cmd payload := by
    rw [BitVec.setWidth_setWidth_of_le _ (by decide)]
    exact BitVec.setWidth_eq _
  simp only [makeResponse]
  rw [halves, content_eq, BitVec.or_assoc, hone, append_byte, sdCrc7_eq, hhead, lift_or_one]

/-- The frame in the two words of a response. -/
def frameOf (r : BitVec 32 × BitVec 32) : BitVec 48 := (r.2 ++ r.1).setWidth 48

theorem frameOf_makeResponse (cmd payload : BitVec 32) :
    frameOf (makeResponse cmd payload) =
      head cmd payload ++ (crc crc7Poly (bits (head cmd payload)) ++ 1#1) := by
  rw [frameOf, makeResponse_eq]
  exact BitVec.setWidth_append_eq_right

/-- The two words, cut from what they are together. -/
theorem words_eq (cmd payload : BitVec 32) : ∃ b : Byte,
    (makeResponse cmd payload).2 = (0#16 ++ (head cmd payload ++ b)).extractLsb' 32 32 ∧
      (makeResponse cmd payload).1 = (0#16 ++ (head cmd payload ++ b)).extractLsb' 0 32 := by
  refine ⟨crc crc7Poly (bits (head cmd payload)) ++ 1#1, ?_, ?_⟩
  · rw [← makeResponse_eq, BitVec.extractLsb'_append_eq_left]
  · rw [← makeResponse_eq, BitVec.extractLsb'_append_eq_right]

/-- What `checkForWork` takes from the words is what they were made of. -/
theorem fields (cmd payload : BitVec 32) :
    (makeResponse cmd payload).2 >>> 16 = 0 ∧
      commandOf (makeResponse cmd payload).2 = cmd &&& 0x3f ∧
        argumentOf (makeResponse cmd payload).1 (makeResponse cmd payload).2 = payload := by
  obtain ⟨b, h2, h1⟩ := words_eq cmd payload
  have hmask : ∀ i, (0x3f : BitVec 32).getLsbD i = decide (i < 6) := by
    intro i
    rw [show (0x3f : BitVec 32) = BitVec.ofNat 32 (2 ^ 6 - 1) from rfl, BitVec.getLsbD_ofNat,
      Nat.testBit_two_pow_sub_one]
    grind
  rw [h2, h1]
  refine ⟨?_, ?_, ?_⟩ <;> refine BitVec.eq_of_getLsbD_eq fun i hi => ?_ <;>
    simp only [commandOf, argumentOf, head, BitVec.getLsbD_or, BitVec.getLsbD_shiftLeft,
      BitVec.getLsbD_ushiftRight, BitVec.getLsbD_and, hmask, BitVec.getLsbD_append,
      BitVec.getLsbD_extractLsb', BitVec.getLsbD_zero]
  · grind
  · grind
  · grind

open Polynomial in
/-- **The frames are well formed.** Folded over any bytes, the table gives
the CRC of their bits, one bit up: the remainder by `X ^ 7 + X ^ 3 + 1` that
long division leaves. Every response is a frame of 48 bits, with start,
direction and end bits as they must be, a CRC that checks and the command
and payload that `checkForWork` would take from it; identification and data
of the card have a CRC that checks, whatever the size. -/
theorem framed :
    (∀ ds : List Byte,
      let c := crc crc7Poly (ds.flatMap bits)
      ds.foldl (fun c d => crc7Entry (c ^^^ d)) 0 = c.setWidth 8 <<< 1 ∧
        c = remainder crc7Poly (ds.flatMap bits ++ List.replicate 7 false) ∧
          toPoly c = (ofBits (ds.flatMap bits) * X ^ 7) %ₘ (X ^ 7 + X ^ 3 + 1)) ∧
    (∀ cmd payload : BitVec 32,
      let r := makeResponse cmd payload
      let frame := frameOf r
      r.2 >>> 16 = 0 ∧ frame.getMsbD 0 = false ∧ frame.getMsbD 1 = false ∧
        frame.extractLsb' 1 7 = crc crc7Poly (bits (frame.extractLsb' 8 40)) ∧
          frame.getLsbD 0 = true ∧ commandOf r.2 = cmd &&& 0x3f ∧ argumentOf r.1 r.2 = payload) ∧
    Checks makeCID ∧ ∀ blocks : BitVec 32, Checks (makeCSD blocks) := by
  refine ⟨fun ds => ⟨foldl_crc7Entry ds, rfl, ?_⟩, fun cmd payload => ?_, checks_withCrc _,
    fun _ => checks_withCrc _⟩
  · rw [toPoly_crc (by decide), divisor_crc7Poly]
  · obtain ⟨hrest, hcommand, hargument⟩ := fields cmd payload
    dsimp only
    rw [frameOf_makeResponse]
    have hstart (b : Byte) {k : ℕ} (hk : k < 2) : (head cmd payload ++ b).getMsbD k = false := by
      rw [BitVec.getMsbD_append, head, BitVec.getMsbD_append, BitVec.getMsbD_append]
      simp only [BitVec.getMsbD_zero]
      grind
    have hend (h : BitVec 40) (c : BitVec 7) : (h ++ (c ++ 1#1)).getLsbD 0 = true := by
      rw [BitVec.getLsbD_append, BitVec.getLsbD_append]
      rfl
    refine ⟨hrest, hstart _ (by decide), hstart _ (by decide), ?_, hend _ _, hcommand, hargument⟩
    · have hfirst (b : Byte) : (head cmd payload ++ b).extractLsb' 8 40 = head cmd payload :=
        BitVec.extractLsb'_append_eq_left
      rw [hfirst]
      generalize crc crc7Poly (bits (head cmd payload)) = c
      refine BitVec.eq_of_getLsbD_eq fun i hi => ?_
      simp only [BitVec.getLsbD_extractLsb', BitVec.getLsbD_append]
      grind

end Sd

end MrIss
