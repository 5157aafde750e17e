import MrIss.Interp.Base
/-!
# Loads, stores and cache instructions

The generated bodies compute their address, make the access, check for a
fault and only then write registers. `loadTo`, `storeFrom` and `touch` are
their three shapes; the others are written by hand in the source.
-/

namespace MrIss

open EarlyReturn

variable (c : Config)

/-! ## Addresses -/

/-- `RA0 + D`. -/
def eaD (ra0 d : Reg) : InterpM VA := do
  let a ← readGPROZ ra0
  pure (a + d)

/-- `RA + D`, of the forms that update RA. -/
def eaDU (ra d : Reg) : InterpM VA := do
  let a ← readGPR ra
  pure (a + d)

/-- `RA0 + RB`. -/
def eaX (ra0 rb : Reg) : InterpM VA := do
  let a ← readGPROZ ra0
  let b ← readGPR rb
  pure (a + b)

/-- `RA + RB`, of the forms that update RA. -/
def eaXU (ra rb : Reg) : InterpM VA := do
  let a ← readGPR ra
  let b ← readGPR rb
  pure (a + b)

/-! ## Loads -/

/-- A load: `ext` is made of the value, and the forms that update write the
address to `upd`. -/
def loadTo (size : Size) (ext : Reg → Reg) (rt : Reg) (upd : Option Reg) (ea : InterpM VA) :
    InterpM Unit := do
  let x ← ea
  let v ← loadX c size x
  mfcheck true
  writeGPR rt (ext v)
  upd.elim (pure ()) fun ra => writeGPR ra x
  incPC

def opLbz (ra0 d rt : Reg) := loadTo c .byte id rt none (eaD ra0 d)
def opLbzu (ra d rt : Reg) := loadTo c .byte id rt (some ra) (eaDU ra d)
def opLbzx (ra0 rb rt : Reg) := loadTo c .byte id rt none (eaX ra0 rb)
def opLbzux (ra rb rt : Reg) := loadTo c .byte id rt (some ra) (eaXU ra rb)
def opLha (ra0 d rt : Reg) := loadTo c .half sxt16 rt none (eaD ra0 d)
def opLhau (ra d rt : Reg) := loadTo c .half sxt16 rt (some ra) (eaDU ra d)
def opLhax (ra0 rb rt : Reg) := loadTo c .half sxt16 rt none (eaX ra0 rb)
def opLhaux (ra rb rt : Reg) := loadTo c .half sxt16 rt (some ra) (eaXU ra rb)
def opLhbrx (ra0 rb rt : Reg) := loadTo c .half bswap16 rt none (eaX ra0 rb)
def opLhz (ra0 d rt : Reg) := loadTo c .half id rt none (eaD ra0 d)
def opLhzu (ra d rt : Reg) := loadTo c .half id rt (some ra) (eaDU ra d)
def opLhzx (ra0 rb rt : Reg) := loadTo c .half id rt none (eaX ra0 rb)
def opLhzux (ra rb rt : Reg) := loadTo c .half id rt (some ra) (eaXU ra rb)
def opLwbrx (ra0 rb rt : Reg) := loadTo c .word bswap32 rt none (eaX ra0 rb)
def opLwz (ra0 d rt : Reg) := loadTo c .word id rt none (eaD ra0 d)
def opLwzu (ra d rt : Reg) := loadTo c .word id rt (some ra) (eaDU ra d)
def opLwzx (ra0 rb rt : Reg) := loadTo c .word id rt none (eaX ra0 rb)
def opLwzux (ra rb rt : Reg) := loadTo c .word id rt (some ra) (eaXU ra rb)

/-! ## Stores -/

/-- A store. -/
def storeFrom (size : Size) (conv : Reg → Reg) (rs : Reg) (upd : Option Reg) (ea : InterpM VA) :
    InterpM Unit := do
  let v ← readGPR rs
  let x ← ea
  storeX c size x (conv v)
  mfcheck false
  upd.elim (pure ()) fun ra => writeGPR ra x
  incPC

def opStb (rs ra0 d : Reg) := storeFrom c .byte id rs none (eaD ra0 d)
def opStbu (rs ra d : Reg) := storeFrom c .byte id rs (some ra) (eaDU ra d)
def opStbx (rs ra0 rb : Reg) := storeFrom c .byte id rs none (eaX ra0 rb)
def opStbux (rs ra rb : Reg) := storeFrom c .byte id rs (some ra) (eaXU ra rb)
def opSth (rs ra0 d : Reg) := storeFrom c .half id rs none (eaD ra0 d)
def opSthbrx (rs ra0 rb : Reg) := storeFrom c .half bswap16 rs none (eaX ra0 rb)
def opSthu (rs ra d : Reg) := storeFrom c .half id rs (some ra) (eaDU ra d)
def opSthx (rs ra0 rb : Reg) := storeFrom c .half id rs none (eaX ra0 rb)
def opSthux (rs ra rb : Reg) := storeFrom c .half id rs (some ra) (eaXU ra rb)
def opStw (rs ra0 d : Reg) := storeFrom c .word id rs none (eaD ra0 d)
def opStwbrx (rs ra0 rb : Reg) := storeFrom c .word bswap32 rs none (eaX ra0 rb)
def opStwu (rs ra d : Reg) := storeFrom c .word id rs (some ra) (eaDU ra d)
def opStwx (rs ra0 rb : Reg) := storeFrom c .word id rs none (eaX ra0 rb)
def opStwux (rs ra rb : Reg) := storeFrom c .word id rs (some ra) (eaXU ra rb)

/-! ## Reservations -/

/-- `lwarx`: the reservation is made before the check for a fault. -/
def opLwarx (ra0 rb _eh rt : Reg) : InterpM Unit := do
  let a ← readGPROZ ra0
  let b ← readGPR rb
  let addr := a + b
  let v ← loadX c .word addr
  Prog.modify fun s => { s with
    interp := { s.interp with
      reservationAddress := addr
      reservationGencount := s.interp.excGenerationCount } }
  record (.lwarx addr)
  mfcheck true
  writeGPR rt v
  incPC

/-- The store of `stwcx.`, made while the reservation holds; a fault leaves
the function. -/
def condStore (base : VA) (v : Reg) : InterpM Unit := do
  storeX c .word base v
  let i ← Prog.gets Machine.interp
  record (.stwcxStore base i.memAccessFault)
  mfcheck false

/-- Whether the reservation holds for an address. -/
def InterpState.reserved (i : InterpState) (base : VA) : Bool :=
  base == i.reservationAddress && i.reservationGencount == i.excGenerationCount

/-- `stwcx.`. -/
def opStwcx (rs ra0 rb : Reg) : InterpM Unit := do
  let a ← readGPROZ ra0
  let b ← readGPR rb
  let v ← readGPR rs
  let so ← Prog.gets (·.cpu.user.getXERSO)
  let base := a + b
  let i ← Prog.gets Machine.interp
  Prog.when (i.reserved base) (condStore c base v)
  blowReservation
  record .stwcx
  let cr ← readCR
  writeCR (writeCRField cr 0 (if i.reserved base then so ||| 2 else so))
  incPC

/-! ## Several registers -/

/-- The loop of `lmw`, with `left` registers to go from `n` on. -/
def lmwLoop : ℕ → Reg → VA → InterpM Unit
  | 0, _, _ => pure ()
  | left + 1, n, base => do
    let v ← loadX c .word base
    mfcheck true
    writeGPR n v
    lmwLoop left (n + 1) (base + 4)

def opLmw (rt d ra0 : Reg) : InterpM Unit := do
  let a ← readGPROZ ra0
  lmwLoop c (32 - rt.toNat) rt (a + d)
  incPC

/-- The loop of `stmw`. -/
def stmwLoop : ℕ → Reg → VA → InterpM Unit
  | 0, _, _ => pure ()
  | left + 1, n, base => do
    let v ← readGPR n
    storeX c .word base v
    mfcheck false
    stmwLoop left (n + 1) (base + 4)

def opStmw (rs d ra0 : Reg) : InterpM Unit := do
  let a ← readGPROZ ra0
  stmwLoop c (32 - rs.toNat) rs (a + d)
  incPC

/-! ## Strings -/

/-- The loop of `lswi` and `lswx`: `words` iterations from byte `n` of
`numbytes`. -/
def lswLoop (base : VA) (numbytes : ℕ) : ℕ → ℕ → Reg → InterpM Unit
  | 0, _, _ => pure ()
  | words + 1, n, reg => do
    let v ← loadX c .word (base + BitVec.ofNat 32 n)
    mfcheck true
    writeGPR reg (if numbytes - n < 4 then v &&& (0xffffffff#32 >>> (8 * (numbytes - n))) else v)
    lswLoop base numbytes words (n + 4) ((reg + 1) &&& 0x1f)

/-- The inner loop of `stswi` and `stswx`: `bytes` iterations from byte
`i`, each of which stores the register as a word. -/
def stswBytes (addr : VA) (v : Reg) : ℕ → ℕ → InterpM Unit
  | 0, _ => pure ()
  | bytes + 1, i => do
    storeX c .word (addr + BitVec.ofNat 32 i) v
    mfcheck false
    stswBytes addr v bytes (i + 1)

/-- The loop of `stswi` and `stswx`. -/
def stswLoop (base : VA) (numbytes : ℕ) : ℕ → ℕ → Reg → InterpM Unit
  | 0, _, _ => pure ()
  | words + 1, n, reg => do
    let v ← readGPR reg
    if numbytes - n < 4 then stswBytes c (base + BitVec.ofNat 32 n) v (numbytes - n) 0
    else do
      storeX c .word (base + BitVec.ofNat 32 n) v
      mfcheck false
    writeGPR reg v
    stswLoop base numbytes words (n + 4) ((reg + 1) &&& 0x1f)

/-- The iterations of a loop over `numbytes` bytes, four at a time. -/
def wordsOf (numbytes : ℕ) : ℕ := (numbytes + 3) / 4

/-- The number of bytes that NB says. -/
def numbytesOfNB (nb : Reg) : ℕ := if nb = 0 then 32 else nb.toNat

/-- The number of bytes that XER says. -/
def readXERSTR : InterpM ℕ := Prog.gets fun s => (s.cpu.user.xer &&& xerSTR).toNat

def opLswi (rt ra0 nb : Reg) : InterpM Unit := do
  let a ← readGPROZ ra0
  let n := numbytesOfNB nb
  lswLoop c a n (wordsOf n) 0 rt
  incPC

def opLswx (rt ra0 rb : Reg) : InterpM Unit := do
  let a ← readGPROZ ra0
  let b ← readGPR rb
  let n ← readXERSTR
  lswLoop c (a + b) n (wordsOf n) 0 rt
  incPC

def opStswi (rs ra0 nb : Reg) : InterpM Unit := do
  let a ← readGPROZ ra0
  let n := numbytesOfNB nb
  stswLoop c a n (wordsOf n) 0 rs
  incPC

def opStswx (rs ra0 rb : Reg) : InterpM Unit := do
  let a ← readGPROZ ra0
  let b ← readGPR rb
  let n ← readXERSTR
  stswLoop c (a + b) n (wordsOf n) 0 rs
  incPC

/-! ## Caches -/

/-- A cache instruction that loads a byte of the block, for the fault. -/
def touch (ra0 rb : Reg) : InterpM Unit := do
  let x ← eaX ra0 rb
  let _ ← loadX c .byte x
  mfcheck true
  incPC

def opDcbi (ra0 rb : Reg) : InterpM Unit := do
  checkYourPrivilege
  touch c ra0 rb

def opDcbf := touch c

def opDcbst := touch c

/-- A cache instruction that does nothing. -/
def cacheNop (ra0 rb : Reg) : InterpM Unit := do
  let _ ← readGPROZ ra0
  let _ ← readGPR rb
  incPC

def opDcba := cacheNop

def opDcbt (ra0 rb _th : Reg) := cacheNop ra0 rb

def opDcbtst (ra0 rb _th : Reg) := cacheNop ra0 rb

def opIcbt (_ct ra0 rb : Reg) := cacheNop ra0 rb

/-- The loop of `dcbz`, with `left` words to go from word `i` on. -/
def dcbzLoop (line : VA) : ℕ → ℕ → InterpM Unit
  | 0, _ => pure ()
  | left + 1, i => do
    storeX c .word (line + BitVec.ofNat 32 (i * 4)) 0
    mfcheck false
    dcbzLoop line left (i + 1)

def opDcbz (ra0 rb : Reg) : InterpM Unit := do
  let x ← eaX ra0 rb
  dcbzLoop c (x &&& ~~~31) 8 0
  incPC

/-- The fault of `icbi`'s translation is raised, and the function
returns. -/
def icbiCheck (va : VA) (res : Except Fault HVA) : InterpM Unit :=
  (faultOf res).elim (pure ()) fun f => do
    raiseMemException true false va f 0
    Prog.ret

def opIcbi (ra0 rb : Reg) : InterpM Unit := do
  let va ← eaX ra0 rb
  let res ← translating false (Mmu.translateAddr c va false true)
  icbiCheck va res
  incPC

end MrIss
