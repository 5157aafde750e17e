import MrIss.Jit.Code
import MrIss.Lib.Chain
import MrIss.Mmu.Model
/-!
# The block store

Blocks are allocated one after another in a buffer of 4MB, and found by a
hash table whose chains run through their headers; when the buffer runs
out, everything is forgotten. `createBlock` builds a block for the current
PC out of the words that it fetches from there on.

The trace keeps what the program does not: which blocks have been created,
with the words their calls are of, when the store was reset, and when
`createBlock` went back to `retry`; the newest first.
-/

namespace MrIss

namespace Jit

open EarlyReturn
open Arena (peek poke)

/-- `BS_CODE_SIZE`. -/
def bsCodeSize : ℕ := 4 * 1024 * 1024

/-- `BS_FUMES`. -/
def bsFumes : ℕ := 1024

/-- `BS_GRACE`. -/
def bsGrace : ℕ := 100

/-- `ALIGN_TO`, to a power of two. -/
def alignTo (x y : ℕ) : ℕ := (x + (y - 1)) / y * y

/-- The size of a header, aligned. -/
def headerlen : ℕ := alignTo 24 64

/-- `BLOCK_CODEPTR`. -/
def blockCodeptr (b : ℕ) : ℕ := b + headerlen

/-- `block_buffer`, as `initBlockStore` sets it: an aligned address in
storage that the simulator has. -/
structure Buffer where
  base : ℕ
  aligned : 4096 ∣ base
  pos : 0 < base
  fits : base + bsCodeSize ≤ 2 ^ 64

/-! ## Headers -/

def getNext (m : Arena.Mem) (b : ℕ) : ℕ := peek m b 8

def getPc (m : Arena.Mem) (b : ℕ) : VA := BitVec.ofNat 32 (peek m (b + 8) 4)

def getPcPa (m : Arena.Mem) (b : ℕ) : PA := BitVec.ofNat 32 (peek m (b + 12) 4)

def getMsr (m : Arena.Mem) (b : ℕ) : Reg := BitVec.ofNat 32 (peek m (b + 16) 4)

def setNext (m : Arena.Mem) (b next : ℕ) : Arena.Mem := poke m b 8 next

def setPc (m : Arena.Mem) (b : ℕ) (pc : VA) : Arena.Mem := poke m (b + 8) 4 pc.toNat

def setPcPa (m : Arena.Mem) (b : ℕ) (pcPa : PA) : Arena.Mem := poke m (b + 12) 4 pcPa.toNat

def setMsr (m : Arena.Mem) (b : ℕ) (msr : Reg) : Arena.Mem := poke m (b + 16) 4 msr.toNat

def setCodelen (m : Arena.Mem) (b codelen : ℕ) : Arena.Mem := poke m (b + 20) 4 (codelen % 2 ^ 32)

/-! ## State -/

/-- A block as it was created. -/
structure Made where
  ptr : ℕ
  pc : VA
  pcPa : PA
  msr : Reg
  /-- What the calls are of: the words, and where each was fetched. -/
  insts : List (VA × BitVec 32)
  deriving DecidableEq, Repr

/-- What has happened to the store. -/
inductive Event where
  | reset
  | retry
  | created (b : Made)
  deriving DecidableEq, Repr

/-- The globals of the store; zero is the null pointer, and for
`last_block` the dummy block. -/
structure BlockStore where
  mem : Arena.Mem
  blockBufferLast : ℕ
  bsHashmap : BitVec 32 → ℕ
  lastBlock : ℕ
  trace : List Event

/-- The blocks created since the last reset, the newest first. -/
def live : List Event → List Made
  | [] => []
  | .reset :: _ => []
  | .retry :: evs => live evs
  | .created b :: evs => b :: live evs

/-- `HASH_IDX`. -/
def hashIdx (va : PA) (msr : Reg) : BitVec 32 := ((va >>> 2) ^^^ (va >>> 13) ^^^ msr) &&& 32767

variable (buf : Buffer)

/-- `resetBlockstore`. -/
def resetBlockstore (s : BlockStore) : BlockStore :=
  { s with
    blockBufferLast := buf.base
    lastBlock := 0
    bsHashmap := fun _ => 0
    trace := .reset :: s.trace }

/-- `initBlockStore`; `m` is what the storage holds. -/
def initBlockStore (m : Arena.Mem) : BlockStore := resetBlockstore buf ⟨m, 0, fun _ => 0, 0, []⟩

/-- `bs_hm_insert`. -/
def bsHmInsert (pcPa : PA) (msr : Reg) (block : ℕ) (s : BlockStore) : BlockStore :=
  let i := hashIdx pcPa msr
  let b := s.bsHashmap i
  { s with
    mem := if b ≠ 0 then setNext s.mem block b else s.mem
    bsHashmap := Function.update s.bsHashmap i block }

/-- `bs_hm_lookup`; `none` where more than `fuel` nodes would be looked
at. -/
def bsHmLookup (fuel : ℕ) (pcPa : PA) (msr : Reg) (s : BlockStore) : Option (ℕ × BlockStore) := do
  let hit := fun b => getPcPa s.mem b == pcPa && getMsr s.mem b == msr
  let b ← Chain.walk (getNext s.mem) hit fuel (s.bsHashmap (hashIdx pcPa msr))
  pure (b, if b = 0 then s else { s with lastBlock := b })

/-- The test at the head of `allocBlock`, which is made again after the
reset, of an empty buffer then. -/
def makeRoom (s : BlockStore) : BlockStore :=
  if bsCodeSize - bsFumes < s.blockBufferLast - buf.base then resetBlockstore buf s else s

/-- The header of a block as `allocBlock` fills it in. -/
def setHeader (m : Arena.Mem) (b : ℕ) (pc : VA) (pcPa : PA) (msr : Reg) : Arena.Mem :=
  setNext (setCodelen (setMsr (setPcPa (setPc m b pc) b pcPa) b msr) b 0) b 0

/-- The bytes that there are for the code of the next block. -/
def bytesAvail (s : BlockStore) : ℕ :=
  let avail : ℤ := bsCodeSize - bsGrace - (s.blockBufferLast - buf.base) - headerlen
  (avail % 2 ^ 32).toNat

/-- `allocBlock`: the block, the bytes for its code, and the store. -/
def allocBlock (pc : VA) (pcPa : PA) (msr : Reg) (s : BlockStore) : ℕ × ℕ × BlockStore :=
  let s := makeRoom buf s
  let b := s.blockBufferLast
  let s := bsHmInsert pcPa msr b { s with mem := setHeader s.mem b pc pcPa msr }
  (b, bytesAvail buf s, s)

/-- `amendBlockSize`. -/
def amendBlockSize (b realSize : ℕ) (s : BlockStore) : BlockStore :=
  { s with
    blockBufferLast := alignTo (s.blockBufferLast + (headerlen + realSize)) 64
    mem := setCodelen s.mem b realSize }

/-! ## Creating a block -/

section

variable (c : Config) (d : Decoder)

/-- A block being generated: the cursor, and what calls have been generated
for; their number is `cur_blk_nr_instrs`. -/
structure Gen where
  cursor : Cursor
  insts : List (VA × BitVec 32)

/-- The body of the loop of `createBlock`: a call for one word. -/
def Gen.add (pc : VA) (inst : BitVec 32) (g : Gen) : Gen × ℕ :=
  let (cursor, ends) := d.decodeInstrGenerateCall inst g.cursor
  (⟨cursor, g.insts ++ [(pc, inst)]⟩, ends)

/-- The loop of `createBlock`, of at most `limit` rounds. -/
def generate (priv : Bool) : ℕ → VA → BitVec 32 → Gen → MmuM Gen
  | 0, _, _, g => pure g
  | limit + 1, pc, inst, g => do
    let (g, ends) := g.add d pc inst
    if g.cursor.oomAbort then pure g
    -- the block ends at the end of a page, whatever the instruction
    else if (pc + 4) &&& 0xfff = 0 ∨ ends ≠ 0 then pure g
    else
      match ← Mmu.loadInst32 c (pc + 4) priv with
      | .error _ => pure g
      | .ok inst => generate priv limit (pc + 4) inst g

/-- How a pass of `createBlock` ends. -/
inductive Attempt where
  /-- Returns a block, or zero where the PC faults. -/
  | done (block : ℕ) (s : BlockStore)
  /-- `goto retry`. -/
  | retry (s : BlockStore)

/-- What follows the loop of `createBlock`. -/
def finish (p : CpuState) (pcPa : PA) (b codelen : ℕ) (s : BlockStore) (g : Gen) : Attempt :=
  if g.cursor.oomAbort then
    let s := resetBlockstore buf { s with mem := g.cursor.mem }
    .retry { s with trace := .retry :: s.trace }
  else
    let cursor := finaliseBlock g.insts.length g.cursor
    let s := amendBlockSize b (codelen - cursor.codelen) { s with mem := cursor.mem }
    .done b { s with trace := .created ⟨b, p.user.pc, pcPa, p.os.msr, g.insts⟩ :: s.trace }

/-- A pass of `createBlock`, from `retry` on. -/
def attempt (p : CpuState) (s : BlockStore) : MmuM Attempt := do
  let pc := p.user.pc
  match ← Mmu.loadInst32 c pc p.isPrivileged with
  | .error _ => pure (.done 0 s)
  | .ok inst =>
    match ← Mmu.translateAddr c pc true true p.isPrivileged with
    | .error _ => pure (.done 0 s)
    | .ok pa =>
      let pcPa := pa.setWidth 32
      let (b, codelen, s) := allocBlock buf pc pcPa p.os.msr s
      let cursor := startBlock ⟨s.mem, blockCodeptr b, codelen, false⟩
      let g ← generate c d p.isPrivileged 1000 pc inst ⟨cursor, []⟩
      pure (finish buf p pcPa b codelen s g)

/-- `createBlock`; `none` where it goes to `retry` more than `fuel`
times. -/
def createBlock (p : CpuState) : ℕ → BlockStore → MmuM (Option (ℕ × BlockStore))
  | fuel, s => do
    match ← attempt buf c d p s with
    | .done b s => pure (some (b, s))
    | .retry s =>
      match fuel with
      | 0 => pure none
      | fuel + 1 => createBlock p fuel s

/-! ## Runs -/

/-- What is done with the store. -/
inductive Label where
  | create (block : ℕ)
  | lookup (pcPa : PA) (msr : Reg) (block : ℕ)
  | reset
  deriving DecidableEq, Repr

/-- The operations; a block is created for any CPU, any MMU and any
memory. -/
inductive Step : BlockStore → Label → BlockStore → Prop where
  | create {s t : BlockStore} {b fuel : ℕ} (p : CpuState) (m m' : Mem)
      (h : createBlock buf c d p fuel s m = .ok (some (b, t)) m') : Step s (.create b) t
  | lookup {s t : BlockStore} {b fuel : ℕ} {pcPa : PA} {msr : Reg}
      (h : bsHmLookup fuel pcPa msr s = some (b, t)) : Step s (.lookup pcPa msr b) t
  | reset {s : BlockStore} : Step s .reset (resetBlockstore buf s)

end

end Jit

end MrIss
