import MrIss.Bus
/-!
# The MMU

Registers, the four direct-mapped uTLB arrays, `translateEA` and
`translateAddr`, and the loads and stores that go through them. The two
build switches the code reads, `UPDATE_RC` and `MEM_OP_ALIGNMENT`, are
fields of `Build`.
-/

namespace MrIss

open EarlyReturn

/-- `fault_t`, but for `FAULT_NONE`. -/
inductive Fault where
  | noPage
  | noSegment
  | perms
  /-- An instruction fetch from a segment with N = 1. -/
  | permsNX
  | align
  deriving DecidableEq, Repr

/-- `MEM_OP_ALIGNMENT`. -/
inductive Alignment where
  /-- 0: no unaligned access. -/
  | strict
  /-- 1: unaligned accesses within a 64-bit boundary. -/
  | within64
  /-- 2: any alignment. -/
  | any
  deriving DecidableEq, Repr

/-- The switches of a build. -/
structure Build where
  updateRC : Bool
  alignment : Alignment
  deriving DecidableEq, Repr

/-- The build that the Makefile makes by default. -/
def Build.default : Build := ⟨true, .within64⟩

/-- What a simulator is built and set up with. -/
structure Config where
  build : Build
  map : PagedBus
  io : IoModel

/-- A BAT register pair, unpacked; addresses are stored unshifted. Writing
`brpn` clears its low bits. The constructor does not set it: memory is taken
to have held a value without them. -/
structure Bat where
  bepi : BitVec 32
  blShift : BitVec 32
  vs : Bool
  vp : Bool
  brpn : BitVec 32
  wimg : BitVec 32
  pp : BitVec 32
  brpn_low : Block.offset 17 brpn = 0#32
  deriving DecidableEq, Repr

/-- A segment register, unpacked. -/
structure Seg where
  vsid : BitVec 32
  ks : Bool
  kp : Bool
  n : Bool
  deriving DecidableEq, Repr

/-- `mmuperms_t`. -/
structure MmuPerms where
  r : Bool
  w : Bool
  clean : Bool
  deriving DecidableEq, Repr

namespace MmuPerms

/-- `PPCMMU_PERMS_ANY`. -/
def any : MmuPerms := ⟨true, true, false⟩

/-- The bits of `field`. -/
def field (p : MmuPerms) : BitVec 8 :=
  (if p.r then 1#8 else 0#8) ||| (if p.w then 2#8 else 0#8) ||| (if p.clean then 4#8 else 0#8)

/-- The permissions that a field holds. -/
def ofField (f : BitVec 8) : MmuPerms := ⟨f.getLsbD 0, f.getLsbD 1, f.getLsbD 2⟩

@[simp] theorem ofField_field (p : MmuPerms) : ofField p.field = p := by
  obtain ⟨r, w, clean⟩ := p
  cases r <;> cases w <;> cases clean <;> rfl

end MmuPerms

/-- `m_fls`: the number of the highest set bit, counted from 1. -/
def mFls (x : BitVec 32) : BitVec 32 :=
  if x = 0 then 0 else BitVec.ofNat 32 (Nat.log2 x.toNat + 1)

namespace Bat

/-- What an upper BAT register sets. -/
def setUpper (b : Bat) (val : BitVec 32) : Bat :=
  { b with
    bepi := val &&& 0xfffe0000#32
    blShift := mFls ((val >>> 2) &&& 0x7ff#32)
    vs := val &&& 2#32 != 0#32
    vp := val &&& 1#32 != 0#32 }

/-- What a lower BAT register sets. -/
def setLower (b : Bat) (val : BitVec 32) : Bat :=
  { b with
    brpn := val &&& 0xfffe0000#32
    wimg := val &&& 0x78#32
    pp := val &&& 3#32
    brpn_low := Block.offset_base 17 val }

/-- An upper BAT register, read back. -/
def getUpper (b : Bat) : BitVec 32 :=
  b.bepi ||| (((1#32 <<< b.blShift.toNat) - 1) <<< 2) ||| (if b.vs then 2 else 0) |||
    (if b.vp then 1 else 0)

/-- A lower BAT register, read back. -/
def getLower (b : Bat) : BitVec 32 := b.brpn ||| b.wimg ||| b.pp

/-- The address bits a BAT compares. -/
def amask (b : Bat) : BitVec 32 := 0xfffe0000#32 <<< b.blShift.toNat

/-- Whether a BAT fits the privilege and contains the address. -/
def hits (b : Bat) (addr : VA) (priv : Bool) : Bool :=
  !((priv && !b.vs) || (!priv && !b.vp)) && (b.vp || b.vs) &&
    (addr ^^^ b.bepi) &&& b.amask == 0#32

/-- What a BAT that hits gives; with PP = 0 no access, and no address. -/
def gives (b : Bat) (addr : VA) : PA × MmuPerms :=
  if b.pp = 0#32 then (0#32, ⟨false, false, false⟩)
  else (b.brpn ||| (addr &&& ~~~b.amask), ⟨true, b.pp == 2#32, false⟩)

end Bat

namespace Seg

/-- A segment register, read back. -/
def get (s : Seg) : BitVec 32 :=
  s.vsid ||| (if s.ks then 1#32 <<< 30 else 0) ||| (if s.kp then 1#32 <<< 29 else 0) |||
    (if s.n then 1#32 <<< 28 else 0)

end Seg

/-- `utlb_t`: bit 0 of `ea` says that the entry was made with translation
on, bit 1 that it is valid; the low bits of `pa` are permissions. -/
structure Utlb where
  ea : BitVec 32
  pa : BitVec 64
  deriving DecidableEq, Repr

namespace Utlb

/-- What an entry for the address is recognised by. -/
def tag (addr : VA) (tr : Bool) : BitVec 32 :=
  Block.base 12 addr ||| 2#32 ||| (if tr then 1#32 else 0#32)

/-- `utlb_t::set`. -/
def set (addr : VA) (tr : Bool) (pa : HVA) (perms : MmuPerms) : Utlb where
  ea := tag addr tr
  pa := Block.base 12 pa ||| perms.field.setWidth 64

/-- `getPerms`. -/
def getPerms (t : Utlb) : MmuPerms := .ofField (t.pa.setWidth 8)

/-- `getPA`. -/
def getPA (t : Utlb) : HVA := Block.base 12 t.pa

end Utlb

/-- The four uTLB arrays: privileged or not, instruction or data. -/
inductive UtlbArray where
  | pi
  | pd
  | ui
  | ud
  deriving DecidableEq, Repr

/-- `select_utlb`. -/
def selectUtlb (inD priv : Bool) : UtlbArray :=
  if priv && inD then .pi else if priv && !inD then .pd else if !priv && inD then .ui else .ud

/-- The MMU. Writing SDR1 clears the low bits of `htab_phys`, and memory is
taken to have held a value without them before. -/
structure Mmu where
  enabledI : Bool
  enabledD : Bool
  htabPhys : PA
  htabMask : BitVec 32
  htabPhys_low : Block.offset 16 htabPhys = 0#32
  utlb : UtlbArray → BitVec 7 → Utlb
  ibat : Fin 4 → Bat
  dbat : Fin 4 → Bat
  segreg : Fin 16 → Seg
  generationCount : BitVec 32

namespace Mmu

/-- Whether translation is on for a side. -/
def enabled (m : Mmu) (inD : Bool) : Bool := if inD then m.enabledI else m.enabledD

/-- The BATs of a side. -/
def bats (m : Mmu) (inD : Bool) : Fin 4 → Bat := if inD then m.ibat else m.dbat

/-! ## The uTLB -/

/-- `PPCMMU_ADDR_TO_IDX`. -/
def addrToIdx (addr : VA) : BitVec 7 := (addr >>> 12).setWidth 7

def iutlbInv (m : Mmu) : Mmu :=
  { m with utlb := fun a => match a with
    | .pi | .ui => fun _ => ⟨0, 0⟩
    | .pd | .ud => m.utlb a }

def dutlbInv (m : Mmu) : Mmu :=
  { m with utlb := fun a => match a with
    | .pi | .ui => m.utlb a
    | .pd | .ud => fun _ => ⟨0, 0⟩ }

def utlbLookup (m : Mmu) (inD priv : Bool) (addr : VA) : Option (HVA × MmuPerms) :=
  let t := m.utlb (selectUtlb inD priv) (addrToIdx addr)
  if t.ea = Utlb.tag addr (m.enabled inD) then
    some (t.getPA ||| Block.offset 12 (addr.setWidth 64), t.getPerms)
  else none

/-- Puts an entry in the uTLB. -/
def utlbSet (m : Mmu) (inD priv : Bool) (addr : VA) (pa : HVA) (perms : MmuPerms) : Mmu :=
  { m with
    utlb := Function.update m.utlb (selectUtlb inD priv)
      (Function.update (m.utlb (selectUtlb inD priv)) (addrToIdx addr)
        (Utlb.set addr (m.enabled inD) pa perms)) }

/-! ## Registers -/

/-- A constructed MMU: translation off, no BAT valid, nothing in the uTLB;
`m` is what the memory held before. -/
def construct (m : Mmu) : Mmu :=
  { m with
    enabledI := false
    enabledD := false
    ibat := fun i => { m.ibat i with vs := false, vp := false }
    dbat := fun i => { m.dbat i with vs := false, vp := false }
    utlb := fun _ _ => ⟨0, 0⟩
    generationCount := 0 }

/-- Invalidates both sides and starts a new generation. -/
def flush (m : Mmu) : Mmu :=
  { m.iutlbInv.dutlbInv with generationCount := m.generationCount + 1 }

def setSDR1 (m : Mmu) (val : BitVec 32) : Mmu :=
  flush { m with
    htabPhys := val &&& 0xffff0000#32
    htabMask := val &&& 0x1ff#32
    htabPhys_low := Block.offset_base 16 val }

/-- The setters of one BAT register: the side's uTLBs go. -/
def setIBATupper (m : Mmu) (bat : Fin 4) (val : BitVec 32) : Mmu :=
  { m.iutlbInv with
    ibat := Function.update m.ibat bat ((m.ibat bat).setUpper val)
    generationCount := m.generationCount + 1 }

def setIBATlower (m : Mmu) (bat : Fin 4) (val : BitVec 32) : Mmu :=
  { m.iutlbInv with
    ibat := Function.update m.ibat bat ((m.ibat bat).setLower val)
    generationCount := m.generationCount + 1 }

def setDBATupper (m : Mmu) (bat : Fin 4) (val : BitVec 32) : Mmu :=
  { m.dutlbInv with
    dbat := Function.update m.dbat bat ((m.dbat bat).setUpper val)
    generationCount := m.generationCount + 1 }

def setDBATlower (m : Mmu) (bat : Fin 4) (val : BitVec 32) : Mmu :=
  { m.dutlbInv with
    dbat := Function.update m.dbat bat ((m.dbat bat).setLower val)
    generationCount := m.generationCount + 1 }

def getIBATupper (m : Mmu) (bat : Fin 4) : BitVec 32 := (m.ibat bat).getUpper

def getIBATlower (m : Mmu) (bat : Fin 4) : BitVec 32 := (m.ibat bat).getLower

def getDBATupper (m : Mmu) (bat : Fin 4) : BitVec 32 := (m.dbat bat).getUpper

def getDBATlower (m : Mmu) (bat : Fin 4) : BitVec 32 := (m.dbat bat).getLower

def setSegmentReg (m : Mmu) (sr : Fin 16) (val : BitVec 32) : Mmu :=
  flush { m with
    segreg := Function.update m.segreg sr
      { vsid := val &&& 0x00ffffff#32
        ks := val.getLsbD 30
        kp := val.getLsbD 29
        n := val.getLsbD 28 } }

def getSegmentReg (m : Mmu) (sr : Fin 16) : BitVec 32 := (m.segreg sr).get

def tlbia (m : Mmu) : Mmu := m.flush

/-- Invalidates everything, as `tlbia` does. -/
def tlbie (m : Mmu) : Mmu := m.flush

def setIRDR (m : Mmu) (ir dr : Bool) : Mmu := { m with enabledI := ir, enabledD := dr }

/-! ## Translation -/

/-- `matchBAT`: the first BAT of the side that hits decides, also where it
gives no access. -/
def matchBAT (m : Mmu) (addr : VA) (inD priv : Bool) : Option (PA × MmuPerms) :=
  (((List.finRange 4).map (m.bats inD)).find? (·.hits addr priv)).map (·.gives addr)

/-- The segment register of an address. -/
def segOf (m : Mmu) (addr : VA) : Seg := m.segreg ((addr >>> 28).setWidth 4).toFin

/-- The page index of an address. -/
def pgidx (addr : VA) : BitVec 32 := (addr >>> 12) &&& 0xffff#32

/-- The address of a PTEG. -/
def ptegAddr (m : Mmu) (hashfn : BitVec 32) : PA :=
  m.htabPhys ||| ((hashfn <<< 6) &&& ((m.htabMask <<< 16) ||| 0xffc0#32))

/-- The entries the two rounds of the hash lookup visit, in their order:
the eight of the primary PTEG, then with H set the eight of the secondary
one. -/
def pteSlots (m : Mmu) (addr : VA) : List (PA × BitVec 32) :=
  let hashfn := ((m.segOf addr).vsid &&& 0x7ffff#32) ^^^ pgidx addr
  [(hashfn, 0#32), (~~~hashfn, 0x40#32)].flatMap fun h =>
    (List.range 8).map fun pte => (m.ptegAddr h.1 + BitVec.ofNat 32 (pte * 8), h.2)

/-- Whether the first word of an entry is the one looked for. -/
def pteMatches (m : Mmu) (addr : VA) (wantH ptel : BitVec 32) : Bool :=
  ptel &&& 0x80000000#32 != 0#32 && ptel &&& 0x40#32 == wantH &&
    ptel &&& 0x7fffff80#32 == (m.segOf addr).vsid <<< 7 && ptel &&& 0x3f#32 == pgidx addr >>> 10

end Mmu

namespace Seg

/-- The rights a page's PP bits give under the segment's key: to read, and
to write. -/
def pageRights (sr : Seg) (priv : Bool) (pp : BitVec 32) : Bool × Bool :=
  let uw := (!sr.kp && decide (pp < 3#32)) || (sr.kp && pp == 2#32)
  let kw := (!sr.ks && decide (pp < 3#32)) || (sr.ks && pp == 2#32)
  if priv then (!(sr.ks && pp == 0#32), kw) else (!(sr.kp && pp == 0#32), uw)

end Seg

/-- What the second word of a matching entry gives an access: the address,
the permissions, and the word to write back where R or C is to be set. -/
structure PteUse where
  addr : PA
  perms : MmuPerms
  update : Option (BitVec 32)

/-- The body of the hash hit. -/
def pteUse (b : Build) (sr : Seg) (addr : VA) (rnW priv : Bool) (pteh : BitVec 32) : PteUse :=
  let r := pteh &&& 0x100#32 != 0#32
  let c := pteh &&& 0x80#32 != 0#32
  let pp := pteh &&& 3#32
  let rights := sr.pageRights priv pp
  let updateR := !r
  let updateC := b.updateRC && !rnW && rights.2 && !c
  { addr := (pteh &&& 0xfffff000#32) ||| (addr &&& 0xfff#32)
    perms :=
      { r := rights.1
        w := rights.2 && (b.updateRC || c)
        clean := b.updateRC && !(c || updateC) }
    update :=
      if b.updateRC && (updateR || updateC) then
        some (pteh ||| (if updateC then 0x180#32 else 0x100#32))
      else none }

/-- The MMU, with the system behind it. -/
structure Mem where
  mmu : Mmu
  sys : Sys

/-- A statement of the MMU. -/
abbrev MmuM : Type → Type := Prog Abort Mem

/-- A statement of the bus, made by the MMU. -/
def onBus {α : Type} : SysM α → MmuM α := Prog.zoom Mem.sys fun s t => { s with sys := t }

namespace Mmu

variable (c : Config)

/-- `utlbInsert`: an entry leads to the host address of RAM, or to the
guest address marked with `PPCMMU_HVA_IO_BIT`. -/
def utlbInsert (inD priv : Bool) (addr : VA) (outAddr : PA) (perms : MmuPerms) : MmuM Unit := do
  let hostAddr ← onBus (c.map.bus.getDirectMap outAddr)
  let pa := hostAddr.getD (outAddr.setWidth 64 ||| 1#64 <<< 63)
  Prog.modify fun s => { s with mmu := s.mmu.utlbSet inD priv addr pa perms }

/-- The search of the hash table. -/
def findPte (addr : VA) : MmuM (Option PA) := do
  let m ← Prog.gets Mem.mmu
  Prog.firstM (fun slot => do
    let ptel ← onBus (c.map.bus.read32 c.io slot.1)
    pure (if m.pteMatches addr slot.2 (ByteMem.swap32 ptel) then some slot.1 else none))
    (m.pteSlots addr)

/-- `translateEA`: puts the translation in the uTLB and returns it. -/
def translateEA (addr : VA) (inD rnW priv : Bool) : MmuM (Except Fault (PA × MmuPerms)) := do
  let m ← Prog.gets Mem.mmu
  if !m.enabled inD then
    utlbInsert c inD priv addr addr MmuPerms.any
    pure (.ok (addr, MmuPerms.any))
  else match m.matchBAT addr inD priv with
    | some (pa, perms) =>
      if !perms.r && !perms.w then pure (.error .perms)
      else
        utlbInsert c inD priv addr pa perms
        pure (.ok (pa, perms))
    | none =>
      if inD && (m.segOf addr).n then pure (.error .permsNX)
      else match ← findPte c addr with
        | none => pure (.error .noPage)
        | some pte =>
          let pteh ← onBus (c.map.bus.read32 c.io (pte + 4))
          let u := pteUse c.build (m.segOf addr) addr rnW priv (ByteMem.swap32 pteh)
          match u.update with
          | some v => onBus (c.map.bus.write32 c.io (pte + 4) (ByteMem.swap32 v))
          | none => pure ()
          utlbInsert c inD priv addr u.addr u.perms
          pure (.ok (u.addr, u.perms))

/-- `checkPerms`. -/
def checkPerms (b : Build) (perms : MmuPerms) (rnW inD : Bool) : Bool :=
  if inD || rnW then perms.r else perms.w && !(b.updateRC && perms.clean)

/-- `checkFaultWasCleanliness`. -/
def checkFaultWasCleanliness (b : Build) (perms : MmuPerms) (rnW inD : Bool) : Bool :=
  b.updateRC && !rnW && !inD && perms.w && perms.clean

/-- `translateAddr` from its label `do_lookup` on; `fuel` bounds how often
it goes back there. -/
def doLookup (addr : VA) (inD rnW priv : Bool) : ℕ → MmuM (Except Fault HVA)
  | 0 => Prog.abort .lookupLoop
  | fuel + 1 => do
    match ← translateEA c addr inD rnW priv with
    | .error f => pure (.error f)
    | .ok _ =>
      let m ← Prog.gets Mem.mmu
      match m.utlbLookup inD priv addr with
      | none => Prog.abort (.tlbMissAfterInsert addr)
      | some (pa, perms) =>
        if checkPerms c.build perms rnW inD then pure (.ok pa)
        else if checkFaultWasCleanliness c.build perms rnW inD then
          doLookup addr inD rnW priv fuel
        else pure (.error .perms)

/-- `translateAddr`: the uTLB first; then, or where an entry is not
writable for its C bit alone, `do_lookup`. -/
def translateAddr (addr : VA) (inD rnW priv : Bool) : MmuM (Except Fault HVA) := do
  let m ← Prog.gets Mem.mmu
  match m.utlbLookup inD priv addr with
  | none => doLookup c addr inD rnW priv 2
  | some (pa, perms) =>
    if checkPerms c.build perms rnW inD then pure (.ok pa)
    else if checkFaultWasCleanliness c.build perms rnW inD then
      doLookup c addr inD rnW priv 2
    else pure (.error .perms)

/-! ## Loads and stores -/

/-- `IS_DIRECT`: a host address to dereference. -/
def isDirect (pa : HVA) : Bool := !pa.getLsbD 63

/-- The alignment check that follows an access. -/
def alignFault (b : Build) (size : Size) (pa : HVA) : Bool :=
  match size, b.alignment with
  | .byte, _ => false
  | .half, .strict => pa &&& 1#64 != 0#64
  | .half, .within64 => pa &&& 1#64 != 0#64 && pa &&& 7#64 == 7#64
  | .word, .strict => pa &&& 3#64 != 0#64
  | .word, .within64 => pa &&& 3#64 != 0#64 && decide (4#64 < pa &&& 7#64)
  | _, .any => false

/-- What is read at the address of a translation: the host's memory, or
the bus's answer; the guest is big-endian. -/
def readPA (size : Size) (pa : HVA) : MmuM (BitVec 32) := onBus <|
  match size with
  | .byte => do
    let v ← if isDirect pa then Prog.gets fun s => s.mem pa
      else c.map.bus.read8 c.io (pa.setWidth 32)
    pure (v.setWidth 32)
  | .half => do
    let v ← if isDirect pa then Prog.gets fun s => ByteMem.read16 s.mem pa
      else c.map.bus.read16 c.io (pa.setWidth 32)
    pure ((ByteMem.swap16 v).setWidth 32)
  | .word => do
    let v ← if isDirect pa then Prog.gets fun s => ByteMem.read32 s.mem pa
      else c.map.bus.read32 c.io (pa.setWidth 32)
    pure (ByteMem.swap32 v)

/-- What is written there. -/
def writePA (size : Size) (pa : HVA) (val : BitVec 32) : MmuM Unit := onBus <|
  match size with
  | .byte =>
    if isDirect pa then
      Prog.modify fun s => { s with mem := ByteMem.write8 s.mem pa (val.setWidth 8) }
    else c.map.bus.write8 c.io (pa.setWidth 32) (val.setWidth 8)
  | .half =>
    if isDirect pa then
      Prog.modify fun s =>
        { s with mem := ByteMem.write16 s.mem pa (ByteMem.swap16 (val.setWidth 16)) }
    else c.map.bus.write16 c.io (pa.setWidth 32) (ByteMem.swap16 (val.setWidth 16))
  | .word =>
    if isDirect pa then
      Prog.modify fun s => { s with mem := ByteMem.write32 s.mem pa (ByteMem.swap32 val) }
    else c.map.bus.write32 c.io (pa.setWidth 32) (ByteMem.swap32 val)

/-- A data load; narrow values come zero-extended. The check comes last,
and what was read is dropped where it fails. -/
def load (size : Size) (addr : VA) (priv : Bool) : MmuM (Except Fault (BitVec 32)) := do
  match ← translateAddr c addr false true priv with
  | .error f => pure (.error f)
  | .ok pa =>
    let v ← readPA c size pa
    pure (if alignFault c.build size pa then .error .align else .ok v)

/-- A data store. The check comes after the write. -/
def store (size : Size) (addr : VA) (val : BitVec 32) (priv : Bool) :
    MmuM (Except Fault Unit) := do
  match ← translateAddr c addr false false priv with
  | .error f => pure (.error f)
  | .ok pa =>
    writePA c size pa val
    pure (if alignFault c.build size pa then .error .align else .ok ())

/-- An instruction fetch: a word, not checked for alignment. -/
def loadInst32 (addr : VA) (priv : Bool) : MmuM (Except Fault (BitVec 32)) := do
  match ← translateAddr c addr true true priv with
  | .error f => pure (.error f)
  | .ok pa =>
    let v ← readPA c .word pa
    pure (.ok v)

def load32 := load c .word

def load16 := load c .half

def load8 := load c .byte

def store16 := store c .half

def store8 := store c .byte

end Mmu

end MrIss
