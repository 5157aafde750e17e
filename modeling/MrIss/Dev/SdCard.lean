import MrIss.Dev.SdFrame
import MrIss.Lib.ByteFile
/-!
# The SD card

`DevSDCard` answers commands and transfers data of an image file. It has one
variable for the state, others for the last command, and an offset into the
image in 32 bits; a read or a write looks at all of them.
-/

namespace MrIss

namespace Sd

open ByteFile

/-- `SD_STATE_*`. -/
inductive SdState where
  | IDLE
  | READY
  | IDENT
  | STBY
  | TRAN
  | DATA
  | RCV
  | PRG
  | DIS
  deriving DecidableEq, Repr

/-- The number of a state. -/
def SdState.code : SdState → BitVec 32
  | IDLE => 0
  | READY => 1
  | IDENT => 2
  | STBY => 3
  | TRAN => 4
  | DATA => 5
  | RCV => 6
  | PRG => 7
  | DIS => 8

/-- What a command is answered with, or that it is not known. -/
inductive RType where
  | unknown
  /-- "Good cmd, but no response." -/
  | R0
  | R1
  | R1b
  | CID
  | CSD
  | R3
  | R6
  | R7
  deriving DecidableEq, Repr

/-- What is written to the four words of a response. -/
inductive Response where
  | unchanged
  | short (r : BitVec 32 × BitVec 32)
  | long (r : ℕ → Byte)

/-- How a transfer ends: with the data, with none and no error, or with none
and an error. -/
inductive Reply where
  | done
  | idle
  | bad
  deriving DecidableEq, Repr

/-- `DevSDCard`; `fd` says whether an image is open. -/
structure DevSDCard where
  fd : Bool
  imageBlocks : BitVec 32
  acmdPending : Bool
  state : SdState
  width : ℕ
  lastCmd : BitVec 32
  lastArg : BitVec 32
  lastAcmd : Bool
  offset : BitVec 32
  blockCount : BitVec 32
  deriving DecidableEq

namespace DevSDCard

/-- `DevSDCard::init` with an image of `size` bytes, which can be opened. -/
def init (c : DevSDCard) (size : ℕ) : DevSDCard :=
  { c with
    fd := true, imageBlocks := BitVec.ofNat 32 (size / 512), acmdPending := false,
    state := .IDLE, width := 1, lastCmd := 0, lastArg := 0, offset := 0, blockCount := 0 }

def getStatus (c : DevSDCard) : BitVec 32 :=
  (c.state.code <<< 9) ||| (if c.acmdPending then 1 <<< 5 else 0) ||| (1 <<< 8)

/-! ## Commands -/

/-- The answers of the commands. -/
def rType : ℕ → RType
  | 0 => .R0
  | 2 => .CID
  | 3 => .R6
  | 6 => .R1
  | 7 => .R1b
  | 8 => .R7
  | 9 => .CSD
  | 12 => .R1b
  | 13 => .R1
  | 17 => .R1
  | 18 => .R1
  | 23 => .R1
  | 24 => .R1
  | 25 => .R1
  | 55 => .R1
  | _ => .unknown

/-- The answers of the application commands. -/
def aType : ℕ → RType
  | 6 => .R1
  | 13 => .R1
  | 41 => .R3
  | 51 => .R1
  | _ => .unknown

/-- A command of a transfer at a block. -/
def toData (c : DevSDCard) (arg : BitVec 32) : DevSDCard :=
  { c with offset := arg * 512, state := .DATA }

/-- What a command changes. -/
def run (c : DevSDCard) (arg : BitVec 32) : ℕ → DevSDCard
  | 0 => { c with state := .IDLE }
  | 2 => { c with state := .IDENT }
  | 3 => { c with state := .STBY }
  | 6 => { c with state := .DATA }
  | 7 => { c with state := .TRAN }
  | 12 => { c with state := .TRAN }
  | 17 => c.toData arg
  | 18 => c.toData arg
  | 23 => { c with blockCount := arg }
  | 24 => c.toData arg
  | 25 => c.toData arg
  | 55 => { c with acmdPending := true }
  | _ => c

/-- What an application command changes. -/
def runApp (c : DevSDCard) (arg : BitVec 32) : ℕ → DevSDCard
  | 6 =>
    if arg &&& 1 = 0 then { c with width := if arg &&& 2 = 0 then 1 else 4 } else c
  | 13 => { c with state := .DATA }
  | 41 => { c with state := .READY }
  | 51 => { c with state := .DATA }
  | _ => c

/-- The words of a response. -/
def respond (c : DevSDCard) (cmd arg : BitVec 32) : RType → Response
  | .unknown | .R0 => .unchanged
  | .R1 | .R1b => .short (makeResponse cmd c.getStatus)
  | .CID => .long makeCID
  | .CSD => .long (makeCSD c.imageBlocks)
  | .R3 => .short (makeResponse cmd (0x80000000 ||| 0x40000000 ||| 0x00ff8000))
  | .R6 => .short (makeResponse cmd 0xbeef0000)
  | .R7 => .short (makeResponse cmd (arg &&& 0xfff))

/-- The card after a command, its response unread. -/
def after (c : DevSDCard) (cmd arg : BitVec 32) : DevSDCard :=
  let c' := { c with lastCmd := cmd, lastArg := arg, lastAcmd := c.acmdPending }
  if c.acmdPending then { c'.runApp arg cmd.toNat with acmdPending := false }
  else c'.run arg cmd.toNat

/-- The answer that a command gets. -/
def answer (c : DevSDCard) (cmd : BitVec 32) : RType :=
  if c.acmdPending then aType cmd.toNat else rType cmd.toNat

/-- **`command`**: whether it was accepted, the response, and the card. -/
def command (c : DevSDCard) (cmd arg : BitVec 32) : Bool × Response × DevSDCard :=
  if c.fd = false then (false, .unchanged, c)
  else
    let c' := c.after cmd arg
    match c.answer cmd with
    | .unknown | .R0 => (false, .unchanged, c')
    | t => (true, c'.respond cmd arg t, c')

/-! ## Transfers -/

def writeSCR : Bytes := [0x02, 0x05, 0x80, 0x02, 0, 0, 0, 0]

def writeStatus (width : ℕ) : Bytes :=
  [if width = 4 then 0x80 else 0x00, 0, 0, 0, 0, 0, 0, 0, 0x04, 0xff, 0x10] ++
    List.replicate 53 0

def writeSwitchStatus : Bytes := [0, 2] ++ List.replicate 62 0

/-- The end of a transfer. -/
def toTran (c : DevSDCard) : DevSDCard := { c with state := .TRAN }

/-- Bytes of the image, which are written to memory even if they are not
enough. -/
def readImage (c : DevSDCard) (image : Bytes) (n : ℕ) : Reply × Bytes × DevSDCard :=
  let bs := pread image c.offset.toNat n
  if bs.length ≠ n then (.bad, bs, c.toTran) else (.done, bs, c.toTran)

/-- **`read`**: its reply, the bytes it writes to `data_out`, and the card. -/
def read (c : DevSDCard) (image : Bytes) (size : BitVec 32) : Reply × Bytes × DevSDCard :=
  if c.state ≠ .DATA then (.idle, [], c)
  else if c.lastAcmd ∧ c.lastCmd = 51 then (.done, writeSCR, c.toTran)
  else if c.lastAcmd ∧ c.lastCmd = 13 then (.done, writeStatus c.width, c.toTran)
  else if c.lastAcmd = false ∧ c.lastCmd = 6 then (.done, writeSwitchStatus, c.toTran)
  else if c.lastAcmd = false ∧ c.lastCmd = 17 then c.readImage image 512
  else if c.lastAcmd = false ∧ c.lastCmd = 18 then c.readImage image size.toNat
  else (.bad, [], c.toTran)

/-- The first bytes of a transfer from memory. -/
def taken (data : ℕ → Byte) (n : ℕ) : Bytes := (List.range n).map data

/-- **`write`**: its reply, the image, and the card. -/
def write (c : DevSDCard) (image : Bytes) (data : ℕ → Byte) (size : BitVec 32) :
    Reply × Bytes × DevSDCard :=
  if c.state ≠ .DATA then (.idle, image, c)
  else if c.lastAcmd = false ∧ c.lastCmd = 24 then
    (.done, pwrite image c.offset.toNat (taken data 512), c.toTran)
  else if c.lastAcmd = false ∧ c.lastCmd = 25 then
    (.done, pwrite image c.offset.toNat (taken data size.toNat), c.toTran)
  else (.bad, image, c.toTran)

variable {c : DevSDCard} {cmd arg size : BitVec 32} {image : Bytes} {data : ℕ → Byte}

@[simp] theorem length_taken (data : ℕ → Byte) (n : ℕ) : (taken data n).length = n := by
  rw [taken, List.length_map, List.length_range]

@[simp] theorem toTran_state (c : DevSDCard) : c.toTran.state = .TRAN := rfl
@[simp] theorem toData_offset (c : DevSDCard) (arg : BitVec 32) :
    (c.toData arg).offset = arg * 512 := rfl

/-! ## What a command leaves -/

/-- Where a command accepts: the card has an image, and an answer for it. -/
theorem command_ok : (c.command cmd arg).1 = true ↔
    c.fd = true ∧ c.answer cmd ≠ .unknown ∧ c.answer cmd ≠ .R0 := by
  unfold command
  cases hfd : c.fd with
  | false => simp
  | true =>
    cases h : c.answer cmd <;> simp

theorem command_card (hfd : c.fd = true) : (c.command cmd arg).2.2 = c.after cmd arg := by
  unfold command
  rw [if_neg (by simp [hfd])]
  cases h : c.answer cmd <;> rfl

/-- The command that was last, and whether it was one of the application. -/
theorem after_last (c : DevSDCard) (cmd arg : BitVec 32) :
    (c.after cmd arg).lastCmd = cmd ∧ (c.after cmd arg).lastArg = arg ∧
      (c.after cmd arg).lastAcmd = c.acmdPending ∧ (c.after cmd arg).fd = c.fd ∧
        (c.after cmd arg).imageBlocks = c.imageBlocks := by
  unfold after
  cases c.acmdPending with
  | true =>
    rw [if_pos rfl]
    unfold runApp
    split <;> (try split) <;> exact ⟨rfl, rfl, rfl, rfl, rfl⟩
  | false =>
    rw [if_neg (by simp)]
    unfold run
    split <;> exact ⟨rfl, rfl, rfl, rfl, rfl⟩

/-- A command of a transfer at a block, on a card that waits for no
application command. -/
theorem after_transfer (hpend : c.acmdPending = false) (arg : BitVec 32)
    (hcmd : cmd = 17 ∨ cmd = 18 ∨ cmd = 24 ∨ cmd = 25) :
    c.after cmd arg =
      { c with
        lastCmd := cmd, lastArg := arg, lastAcmd := false, offset := arg * 512,
        state := .DATA } := by
  unfold after
  rw [hpend, if_neg (by simp)]
  rcases hcmd with rfl | rfl | rfl | rfl <;> rfl

/-! ## Writes -/

/-- How many bytes a write command writes. -/
def writeLen (cmd size : BitVec 32) : ℕ := if cmd = 24 then 512 else size.toNat

/-- An image that has changed in `[lo, lo + n)`, to the bytes written. -/
def Placed (image image' : Bytes) (data : ℕ → Byte) (lo n : ℕ) : Prop :=
  image'.length = image.length ∧ ∀ i < image.length,
    image'[i]? = if lo ≤ i ∧ i < lo + n then some (data (i - lo)) else image[i]?

/-- A range of an image; an empty one is in any. -/
def Inside (image : Bytes) (lo n : ℕ) : Prop := n = 0 ∨ lo + n ≤ image.length

/-- **A write stays where it was put**: if it succeeds, exactly the bytes of
its blocks have changed, which are in the image, and if they are not, it
fails and the image is as before. -/
def WritesWell (c : DevSDCard) (cmd arg size : BitVec 32) (image : Bytes) (data : ℕ → Byte) :
    Prop :=
  let r := (c.command cmd arg).2.2.write image data size
  let lo := 512 * arg.toNat
  let n := writeLen cmd size
  (r.1 = .done → Inside image lo n ∧ Placed image r.2.1 data lo n) ∧
    (¬ Inside image lo n → r.1 ≠ .done ∧ r.2.1 = image)

/-- What a write command writes, at the offset that 32 bits hold. -/
theorem write_eq (hfd : c.fd = true) (hpend : c.acmdPending = false)
    (hcmd : cmd = 24 ∨ cmd = 25) (arg size : BitVec 32) (image : Bytes) (data : ℕ → Byte) :
    ((c.command cmd arg).2.2.write image data size).1 = .done ∧
      ((c.command cmd arg).2.2.write image data size).2.1 =
        pwrite image (arg * 512).toNat (taken data (writeLen cmd size)) := by
  rw [command_card hfd, after_transfer hpend arg (by tauto), write, if_neg (by simp)]
  rcases hcmd with rfl | rfl
  · rw [if_pos (by simp), writeLen, if_pos rfl]
    exact ⟨rfl, by dsimp only⟩
  · rw [if_neg (by simp), if_pos (by simp), writeLen, if_neg (by decide)]
    exact ⟨rfl, rfl⟩

/-- Without a carry the offset is that of the block. -/
theorem offset_eq (h : arg.toNat < 2 ^ 23) : (arg * 512).toNat = 512 * arg.toNat := by
  have h512 : (512 : BitVec 32).toNat = 512 := rfl
  rw [BitVec.toNat_mul, h512]
  omega

theorem placed_pwrite {lo n : ℕ} (h : lo + n ≤ image.length) :
    Placed image (pwrite image lo (taken data n)) data lo n := by
  refine ⟨length_pwrite_inside (by simpa using h), fun i hi => ?_⟩
  by_cases hin : lo ≤ i ∧ i < lo + n
  · obtain ⟨j, rfl⟩ := Nat.exists_eq_add_of_le hin.1
    rw [if_pos hin, getElem?_pwrite_of_mem (by rw [length_taken]; omega), Nat.add_sub_cancel_left,
      taken, List.getElem?_map, List.getElem?_range (by omega), Option.map_some]
  · rw [if_neg hin, getElem?_pwrite_of_not_mem (by rw [length_taken]; omega) hi]

/-- **Where writes stay.** Whatever a card of an open image wrote before, and
for every write command and size: in images of a length every write stays
where it was put if and only if there is nothing to write, or the block is
below 2^23 and its bytes are in the image. -/
theorem writes_well_iff (c : DevSDCard) (hfd : c.fd = true) (hpend : c.acmdPending = false)
    (cmd arg size : BitVec 32) (hcmd : cmd = 24 ∨ cmd = 25) (length : ℕ) :
    (∀ (image : Bytes) (data : ℕ → Byte), image.length = length →
        WritesWell c cmd arg size image data) ↔
      writeLen cmd size = 0 ∨
        (arg.toNat < 2 ^ 23 ∧ 512 * arg.toNat + writeLen cmd size ≤ length) := by
  unfold WritesWell
  generalize hn : writeLen cmd size = n
  constructor
  · intro h
    by_contra hbad
    obtain ⟨hn0, hbad⟩ := not_or.1 hbad
    -- ones into an image of zeros: where they end up can be seen
    have hlen : (List.replicate length (0 : Byte)).length = length := List.length_replicate
    have hw := (h (List.replicate length 0) (fun _ => 1) hlen).1
    obtain ⟨hdone, himage⟩ := write_eq hfd hpend hcmd arg size (List.replicate length 0)
      fun _ => 1
    rw [himage, hn] at hw
    obtain ⟨hinside, -, hbytes⟩ := hw hdone
    have hin : 512 * arg.toNat + n ≤ length := by
      rcases hinside with h0 | hle
      · exact absurd h0 hn0
      · rwa [hlen] at hle
    have hbig : 2 ^ 23 ≤ arg.toNat := by
      by_contra hlt
      exact hbad ⟨by omega, hin⟩
    have hoff : (arg * 512).toNat < 512 * arg.toNat := by
      have hlt := (arg * 512).isLt
      omega
    have hone := hbytes (arg * 512).toNat (by rw [hlen]; omega)
    rw [if_neg (by omega), List.getElem?_replicate, if_pos (by omega)] at hone
    have hput : (pwrite (List.replicate length 0) (arg * 512).toNat
        (taken (fun _ => 1) n))[(arg * 512).toNat + 0]? = (taken (fun _ => 1) n)[0]? :=
      getElem?_pwrite_of_mem (by rw [length_taken]; omega)
    rw [Nat.add_zero, hone, taken, List.getElem?_map, List.getElem?_range (by omega)] at hput
    exact absurd (Option.some.inj hput) (by decide)
  · intro hcond image data hlen
    obtain ⟨hdone, himage⟩ := write_eq hfd hpend hcmd arg size image data
    dsimp only
    rw [himage, hn]
    rcases hcond with rfl | ⟨hsmall, hle⟩
    · have hsame : pwrite image (arg * 512).toNat (taken data 0) = image := pwrite_nil _ _
      rw [hsame]
      refine ⟨fun _ => ⟨.inl rfl, rfl, fun i _ => ?_⟩, fun hout => absurd (.inl rfl) hout⟩
      rw [if_neg (by omega)]
    · rw [offset_eq hsmall]
      have hle' : 512 * arg.toNat + n ≤ image.length := by omega
      exact ⟨fun _ => ⟨.inr hle', placed_pwrite hle'⟩, fun hout => absurd (.inr hle') hout⟩

/-- A card before its first image. -/
def blank : DevSDCard where
  fd := false
  imageBlocks := 0
  acmdPending := false
  state := .IDLE
  width := 1
  lastCmd := 0
  lastArg := 0
  lastAcmd := false
  offset := 0
  blockCount := 0

/-- Block 2 of four. -/
theorem writes_well_iff_second :
    WritesWell (blank.init 2048) 24 2 512 (List.replicate 2048 0) fun _ => 1 :=
  (writes_well_iff (blank.init 2048) rfl rfl 24 2 512 (.inl rfl) 2048).2
    (.inr ⟨by decide, by decide⟩) _ _ List.length_replicate

/-- **The block behind the last one** is written, and the image grows. -/
theorem written_behind :
    ((((blank.init 512).command 24 1).2.2.write (List.replicate 512 0) (fun _ => 1) 512).1 = .done) ∧
      ¬ WritesWell (blank.init 512) 24 1 512 (List.replicate 512 0) fun _ => 1 := by
  have hdone := (write_eq (c := blank.init 512) rfl rfl (.inl rfl) 1 512
    (List.replicate 512 0) fun _ => 1).1
  refine ⟨hdone, fun hw => ?_⟩
  rcases (hw.1 hdone).1 with h | h
  · exact absurd h (by decide)
  · rw [List.length_replicate] at h
    exact absurd h (by decide)

/-! ## The capacity that is advertised -/

/-- `C_SIZE` of the card's data, from the bytes of the response. -/
def cSize (r : ℕ → Byte) : BitVec 24 := r 8 ++ r 7 ++ r 6

/-- A block read: the 512 bytes of the image at its address. -/
def ReadsBlock (c : DevSDCard) (arg : BitVec 32) (image : Bytes) : Prop :=
  let r := (c.command 17 arg).2.2.read image 512
  r.1 = .done ∧ r.2.1.length = 512 ∧ r.2.1 = pread image (512 * arg.toNat) 512

/-- A byte cut by a mask and a shift. -/
theorem cut_byte (s : BitVec 32) (k : ℕ) :
    ((s &&& ((0xff : BitVec 32) <<< k)) >>> k).setWidth 8 = s.extractLsb' k 8 := by
  have hmask : ∀ i, (0xff : BitVec 32).getLsbD i = decide (i < 8) := by
    intro i
    rw [show (0xff : BitVec 32) = BitVec.ofNat 32 (2 ^ 8 - 1) from rfl, BitVec.getLsbD_ofNat,
      Nat.testBit_two_pow_sub_one]
    grind
  refine BitVec.eq_of_getLsbD_eq fun i hi => ?_
  simp only [BitVec.getLsbD_setWidth, BitVec.getLsbD_ushiftRight, BitVec.getLsbD_and,
    BitVec.getLsbD_shiftLeft, hmask, BitVec.getLsbD_extractLsb']
  grind

/-- The size that the card's data has is in units of 1024 blocks, less
one. -/
theorem cSize_makeCSD (blocks : BitVec 32) :
    cSize (makeCSD blocks) = (blocks / 1024 - 1).setWidth 24 := by
  generalize hs : blocks / 1024 - 1 = s
  have h8 : makeCSD blocks 8 = s.extractLsb' 16 8 := by
    rw [← cut_byte, ← hs]
    rfl
  have h7 : makeCSD blocks 7 = s.extractLsb' 8 8 := by
    rw [← cut_byte, ← hs]
    rfl
  have h6 : makeCSD blocks 6 = s.extractLsb' 0 8 := by
    rw [← cut_byte, ← hs]
    rfl
  rw [cSize, h8, h7, h6]
  refine BitVec.eq_of_getLsbD_eq fun i hi => ?_
  simp only [BitVec.getLsbD_append, BitVec.getLsbD_extractLsb', BitVec.getLsbD_setWidth]
  grind

/-- The blocks that are advertised: those of whole units, or 2^34 where there
is no unit. -/
theorem capacity_eq (blocks : BitVec 32) :
    ((cSize (makeCSD blocks)).toNat + 1) * 1024 =
      if 1024 ≤ blocks.toNat then blocks.toNat / 1024 * 1024 else 2 ^ 34 := by
  have hlt := blocks.isLt
  have h1024 : (1024 : BitVec 32).toNat = 1024 := rfl
  have h1 : (1 : BitVec 32).toNat = 1 := rfl
  have hdiv : (blocks / 1024).toNat = blocks.toNat / 1024 := by
    rw [BitVec.toNat_udiv, h1024]
  rw [cSize_makeCSD, BitVec.toNat_setWidth, BitVec.toNat_sub, h1, hdiv]
  split <;> omega

/-- The response to CMD9 is the card's data. -/
theorem command_csd (hfd : c.fd = true) (hpend : c.acmdPending = false) (rca : BitVec 32) :
    (c.command 9 rca).2.1 = .long (makeCSD c.imageBlocks) := by
  rw [command, if_neg (by simp [hfd]), answer, hpend, if_neg (by simp)]
  have hblocks : (c.after 9 rca).imageBlocks = c.imageBlocks := (after_last c 9 rca).2.2.2.2
  rw [← hblocks]
  rfl

/-- What a block read delivers, from the offset that 32 bits hold. -/
theorem read_eq (hfd : c.fd = true) (hpend : c.acmdPending = false) (arg : BitVec 32)
    (image : Bytes) :
    (((c.command 17 arg).2.2.read image 512).1 = .done ↔
        (pread image (arg * 512).toNat 512).length = 512) ∧
      ((c.command 17 arg).2.2.read image 512).2.1 = pread image (arg * 512).toNat 512 := by
  rw [command_card hfd, after_transfer hpend arg (by tauto), read, if_neg (by simp),
    if_neg (by simp), if_neg (by simp), if_neg (by simp), if_pos (by simp), readImage]
  dsimp only
  by_cases h : (pread image (arg * 512).toNat 512).length = 512
  · rw [if_neg (not_not.2 h)]
    exact ⟨⟨fun _ => h, fun _ => rfl⟩, rfl⟩
  · rw [if_pos h]
    exact ⟨⟨nofun, fun hn => absurd hn h⟩, rfl⟩

/-- Two parts of an image that can be told apart. -/
theorem exists_halves (length k : ℕ) : ∃ image : Bytes, image.length = length ∧
    (∀ i < k, i < length → image[i]? = some 0) ∧ (k < length → image[k]? = some 1) := by
  refine ⟨List.replicate (min length k) 0 ++ List.replicate (length - k) 1, ?_, ?_, ?_⟩
  · rw [List.length_append, List.length_replicate, List.length_replicate]
    omega
  · intro i hi hlen
    rw [List.getElem?_append_left (by rw [List.length_replicate]; omega), List.getElem?_replicate,
      if_pos (by omega)]
  · intro hk
    rw [List.getElem?_append_right (by rw [List.length_replicate]; omega), List.length_replicate,
      List.getElem?_replicate, if_pos (by omega)]

/-- Block 2^23 is where the offset starts again. -/
theorem not_readsBlock (hfd : c.fd = true) (hpend : c.acmdPending = false) (length : ℕ) :
    ∃ image : Bytes, image.length = length ∧ ¬ ReadsBlock c (BitVec.ofNat 32 (2 ^ 23)) image := by
  obtain ⟨image, hlen, hzero, hone⟩ := exists_halves length (2 ^ 32)
  refine ⟨image, hlen, fun ⟨_, hfull, hbytes⟩ => ?_⟩
  have harg : 512 * (BitVec.ofNat 32 (2 ^ 23)).toNat = 2 ^ 32 := rfl
  have hoff : (BitVec.ofNat 32 (2 ^ 23) * 512 : BitVec 32).toNat = 0 := rfl
  rw [(read_eq hfd hpend _ image).2, hoff, harg] at hbytes
  rw [(read_eq hfd hpend _ image).2, hoff, hbytes, length_pread, hlen] at hfull
  have hlong : 2 ^ 32 < length := by omega
  -- the first bytes of what was delivered and of what was asked for
  have hfirst := congrArg (fun bs : Bytes => bs[0]?) hbytes
  simp only [getElem?_pread (by omega : 0 < 512), Nat.add_zero] at hfirst
  rw [hzero 0 (by omega) (by omega), hone hlong] at hfirst
  exact absurd (Option.some.inj hfirst) (by decide)

/-- **Where the capacity can be read.** On a card of an image of a length
every block below the capacity that CMD9 advertises is read by CMD17, as it
is in the image, if and only if the blocks, counted in 32 bits, make up at
least one unit of 1024 and at most 8192. -/
theorem readable_iff (c : DevSDCard) (length : ℕ) (hfd : c.fd = true)
    (hpend : c.acmdPending = false) (hblocks : c.imageBlocks = BitVec.ofNat 32 (length / 512))
    (rca : BitVec 32) :
    (∀ (image : Bytes) (csd : ℕ → Byte) (arg : BitVec 32), image.length = length →
        (c.command 9 rca).2.1 = .long csd → arg.toNat < ((cSize csd).toNat + 1) * 1024 →
          ReadsBlock (c.command 9 rca).2.2 arg image) ↔
      1024 ≤ length / 512 % 2 ^ 32 ∧ length / 512 % 2 ^ 32 / 1024 ≤ 8192 := by
  have hcsd := command_csd hfd hpend rca
  have hafter : (c.command 9 rca).2.2 = { c with lastCmd := 9, lastArg := rca, lastAcmd := false } := by
    rw [command_card hfd, after, hpend, if_neg (by simp)]
    rfl
  have hn : c.imageBlocks.toNat = length / 512 % 2 ^ 32 := by rw [hblocks, BitVec.toNat_ofNat]
  have hcap := capacity_eq c.imageBlocks
  rw [hn] at hcap
  rw [hafter, hcsd]
  constructor
  · intro h
    by_contra hbad
    obtain ⟨image, hlen, hnot⟩ := not_readsBlock
      (c := { c with lastCmd := 9, lastArg := rca, lastAcmd := false }) hfd hpend length
    refine hnot (h image _ _ hlen rfl ?_)
    rw [hcap]
    have hval : (BitVec.ofNat 32 (2 ^ 23)).toNat = 2 ^ 23 := rfl
    rw [hval]
    split <;> omega
  · rintro ⟨hone, hmany⟩ image csd arg hlen hr harg
    obtain rfl : makeCSD c.imageBlocks = csd := Response.long.inj hr
    rw [hcap, if_pos hone] at harg
    have hsmall : arg.toNat < 2 ^ 23 := by omega
    have hread := read_eq (c := { c with lastCmd := 9, lastArg := rca, lastAcmd := false }) hfd hpend
      arg image
    have hfull : (pread image (512 * arg.toNat) 512).length = 512 := by
      rw [length_pread, hlen]
      omega
    rw [offset_eq hsmall] at hread
    exact ⟨hread.1.2 hfull, by rw [hread.2]; exact hfull, hread.2⟩

/-- The last of 2048 blocks. -/
theorem readable_iff_mb :
    ReadsBlock ((blank.init 1048576).command 9 0).2.2 2047 (List.replicate 1048576 0) :=
  (readable_iff (blank.init 1048576) 1048576 rfl rfl rfl 0).2 ⟨by decide, by decide⟩ _
    (makeCSD 2048) 2047 List.length_replicate (command_csd (c := blank.init 1048576) rfl rfl 0)
    (by rw [capacity_eq]; decide)

/-- **Less than a unit**: 1000 blocks are advertised as 2^34, of which block
1000 cannot be read. -/
theorem advertised_unread :
    ((blank.init 512000).command 9 0).2.1 = .long (makeCSD 1000) ∧
      ((cSize (makeCSD 1000)).toNat + 1) * 1024 = 2 ^ 34 ∧
        ¬ ReadsBlock ((blank.init 512000).command 9 0).2.2 1000 (List.replicate 512000 0) := by
  refine ⟨command_csd (c := blank.init 512000) rfl rfl 0, capacity_eq 1000, fun ⟨hdone, _, _⟩ => ?_⟩
  have hfull := (read_eq (c := ((blank.init 512000).command 9 0).2.2) rfl rfl 1000
    (List.replicate 512000 0)).1.1 hdone
  have hoff : (1000 * 512 : BitVec 32).toNat = 512000 := rfl
  rw [hoff, length_pread, List.length_replicate] at hfull
  exact absurd hfull (by decide)

end DevSDCard

end Sd

end MrIss
