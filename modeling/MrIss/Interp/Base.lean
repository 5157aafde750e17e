import MrIss.Cpu.State
/-!
# What instructions are written with

The fields of an instruction word, the interpreter's accessors, and the
macros that the generated and the hand-written functions share.
-/

namespace MrIss

open EarlyReturn

/-! ## Instruction fields -/

/-- A field of an instruction word: the bits of `mask`, `sh` up. -/
def field (sh : ℕ) (mask : BitVec 32) (i : BitVec 32) : Reg := (i >>> sh) &&& mask

/-- The number of a register is below 32. -/
theorem field_lt (sh : ℕ) (i : BitVec 32) : field sh 0x1f i < 32 := by
  rw [BitVec.lt_def, field, BitVec.toNat_and]
  exact Nat.lt_of_le_of_lt Nat.and_le_right (by decide)

/-- A 16-bit immediate, sign-extended. -/
def fieldS16 (i : BitVec 32) : Reg := (i.setWidth 16).signExtend 32

def getOpcode := field 26 0x3f

def xXOPC := field 1 0x3ff
def xlXOPC := field 1 0x3ff
def scXOPC := field 1 1

def iLI := field 0 0x03fffffc
def iAA := field 1 1
def iLK := field 0 1

def bBO := field 21 0x1f
def bBI := field 16 0x1f
def bBD := field 0 0xfffc
def bAA := field 1 1
def bLK := field 0 1

def scLEV := field 5 0x7f

def dRA := field 16 0x1f
def dRA0 := field 16 0x1f
def dRT := field 21 0x1f
def dRS := field 21 0x1f
def dTO := field 21 0x1f
def dSI := fieldS16
def dUI := field 0 0xffff
def dD := fieldS16
def dBF := field 23 7

def xBF := field 23 7
def xRT := field 21 0x1f
def xRS := field 21 0x1f
def xTO := field 21 0x1f
def xL := field 21 3
def xRA := field 16 0x1f
def xRA0 := field 16 0x1f
def xE := field 16 0xf
def xRB := field 11 0x1f
def xNB := field 11 0x1f
def xSH := field 11 0x1f
def xEH := field 0 1
def xRc := field 0 1
def xTH := field 21 0x1f
def xCT := field 21 0xf
def xSR := field 16 0xf

def xlBT := field 21 0x1f
def xlBO := field 21 0x1f
def xlBA := field 16 0x1f
def xlBI := field 16 0x1f
def xlBH := field 11 3
def xlLK := field 0 1
def xlBB := field 11 0x1f
def xlBF := field 23 7
def xlBFA := field 18 7

def xfxRT := field 21 0x1f
def xfxRS := field 21 0x1f
def xfxSpr (i : BitVec 32) : Reg := ((i >>> 16) &&& 0x1f) ||| ((i >>> 6) &&& 0x3e0)
def xfxFXM := field 12 0xff

def xoRT := field 21 0x1f
def xoRA := field 16 0x1f
def xoRB := field 11 0x1f
def xoOE := field 10 1
def xoRc := field 0 1

def mRA := field 16 0x1f
def mRB := field 11 0x1f
def mRS := field 21 0x1f
def mSH := field 11 0x1f
def mMB := field 6 0x1f
def mME := field 1 0x1f
def mRc := field 0 1

/-! ## Register access -/

def readGPR (reg : Reg) : InterpM Reg := do
  Prog.assert (decide (reg < 32)) .assertGPR
  Prog.gets (·.cpu.user.gprs (Fin.ofNat 32 reg.toNat))

/-- `READ_GPR_OZ`: register 0 reads as zero. -/
def readGPROZ (roz : Reg) : InterpM Reg := if roz != 0 then readGPR roz else pure 0

/-- A register. -/
def Machine.gpr (s : Machine) (r : Reg) : Reg := s.cpu.user.gprs (Fin.ofNat 32 r.toNat)

theorem readGPR_apply {reg : Reg} (h : reg < 32) (s : Machine) :
    readGPR reg s = .ok (s.cpu.user.gprs (Fin.ofNat 32 reg.toNat)) s := by
  rw [readGPR, Prog.assert_of_true (decide_eq_true h)]
  rfl

theorem readGPROZ_apply {roz : Reg} (h : roz < 32) (s : Machine) : readGPROZ roz s =
    .ok (if roz != 0 then s.cpu.user.gprs (Fin.ofNat 32 roz.toNat) else 0) s := by
  unfold readGPROZ
  split
  · exact readGPR_apply h s
  · rfl

def writeGPR (reg : Reg) (val : Reg) : InterpM Unit := do
  Prog.assert (decide (reg < 32)) .assertGPR
  onUser fun u => { u with gprs := Function.update u.gprs (Fin.ofNat 32 reg.toNat) val }

def readCA : InterpM Reg := Prog.gets (·.cpu.user.getXERCA)

def writeCA (ca : Bool) : InterpM Unit := onUser (·.setXERCA ca)

def readCR : InterpM Reg := Prog.gets (·.cpu.user.cr)

def writeCR (val : Reg) : InterpM Unit := onUser fun u => { u with cr := val }

/-- A bit of CR, counted from the most significant. -/
def getCRb (bit : Reg) : InterpM Bool := do
  let cr ← readCR
  pure ((cr >>> (31 - bit)) &&& 1 != 0)

def readMSR : InterpM Reg := Prog.gets (·.cpu.os.msr)

/-- `WRITE_MSR`: the MMU is told IR and DR. -/
def writeMSR (val : Reg) : InterpM Unit := do
  onOs fun o => { o with msr := val }
  onMmu (·.setIRDR (val &&& msrIR != 0) (val &&& msrDR != 0))

def setPC (v : Reg) : InterpM Unit := onUser fun u => { u with pc := v }

def setLR (v : Reg) : InterpM Unit := onUser fun u => { u with lr := v }

def setCTR (v : Reg) : InterpM Unit := onUser fun u => { u with ctr := v }

def setXER (v : Reg) : InterpM Unit := onUser (·.setXER v)

def getPC : InterpM Reg := Prog.gets (·.cpu.user.pc)

def incPC : InterpM Unit := onUser fun u => { u with pc := u.pc + 4 }

/-! ## Flags -/

/-- `CMP` and `CMPu`, given the comparison: LT, GT or EQ, and SO. -/
def cmpWith (lt : Reg → Reg → Bool) (x y so : Reg) : Reg :=
  (if lt x y then 8 else if lt y x then 4 else 2) ||| so

def cmp := cmpWith BitVec.slt

def cmpu := cmpWith BitVec.ult

/-- `READ_CR_FIELD`; field 0 is the most significant. -/
def readCRField (x y : Reg) : Reg := (x >>> ((7 - y) * 4)) &&& 0xf

/-- `WRITE_CR_FIELD`. -/
def writeCRField (x y z : Reg) : Reg :=
  (x &&& ~~~(0xf#32 <<< ((7 - y) * 4))) ||| (z <<< ((7 - y) * 4))

/-- Field 0, read back. -/
theorem readCRField_writeCRField (x : Reg) {z : Reg} (hz : z < 16) :
    readCRField (writeCRField x 0 z) 0 = z := by
  change ((x &&& 0x0fffffff#32 ||| z <<< 28) >>> 28) &&& 0xf#32 = z
  have hx : (x &&& 0x0fffffff#32) >>> 28 = 0#32 := by
    rw [BitVec.ushiftRight_and_distrib]
    exact BitVec.and_zero
  rw [BitVec.ushiftRight_or_distrib, hx, BitVec.zero_or]
  apply BitVec.eq_of_toNat_eq
  rw [BitVec.toNat_and, show (0xf#32).toNat = 2 ^ 4 - 1 from rfl, Nat.and_two_pow_sub_one_eq_mod,
    BitVec.toNat_ushiftRight, BitVec.toNat_shiftLeft, Nat.shiftLeft_eq, Nat.shiftRight_eq_div_pow]
  rw [BitVec.lt_def] at hz
  have : z.toNat < 16 := hz
  omega

/-- `RBIT`; bit 0 is the most significant. -/
def rbit (x y : Reg) : Reg := (x >>> (31 - y)) &&& 1

/-- `WBIT`. -/
def wbit (x y z : Reg) : Reg := (x &&& ~~~(1#32 <<< (31 - y))) ||| ((z &&& 1) <<< (31 - y))

/-- `SET_CR0`. -/
def setCR0 (x : Reg) : InterpM Unit := do
  let u ← Prog.gets (·.cpu.user)
  writeCR (writeCRField u.cr 0 (cmp x 0 u.getXERSO))

/-- `SET_SO_OV`. -/
def setSoOv (x : Bool) : InterpM Unit := do
  onUser fun u => u.setXERSO (x || u.getXERSO != 0)
  onUser (·.setXEROV x)

def sxt8 (x : Reg) : Reg := (x.setWidth 8).signExtend 32

def sxt16 (x : Reg) : Reg := (x.setWidth 16).signExtend 32

def bswap16 (x : Reg) : Reg := ((x >>> 8) &&& 0xff) ||| ((x &&& 0xff) <<< 8)

def bswap32 (x : Reg) : Reg :=
  ((x >>> 24) &&& 0xff) ||| ((x >>> 8) &&& 0xff00) ||| ((x <<< 8) &&& 0xff0000) |||
    ((x <<< 24) &&& 0xff000000)

/-! ## Memory access -/

namespace Machine

/-- A call of the MMU that translates has left `t`; the trace has what IR
and DR were, in the MMU and in the MSR. -/
def translated (s : Machine) (inD : Bool) (t : Mem) : Machine :=
  { s with
    mem := t
    trace := .translate inD s.mem.mmu.enabledI s.mem.mmu.enabledD s.cpu.os.msr :: s.trace }

/-- What `LOADx` and `STOREx` keep of the fault they were given. -/
def accessed (s : Machine) (rnW : Bool) (addr : VA) (fault : Option Fault) : Machine :=
  { s with
    interp := { s.interp with
      memAccessFault := fault
      memAccessAddr := if fault.isSome then addr else s.interp.memAccessAddr }
    trace := .access rnW addr fault :: s.trace }

end Machine

/-- A call of the MMU that translates. -/
def translating {α : Type} (inD : Bool) (x : Bool → MmuM α) : InterpM α := do
  let priv ← Prog.gets (·.cpu.isPrivileged)
  Prog.zoom Machine.mem (fun s t => s.translated inD t) (x priv)

/-- The fault of a result. -/
def faultOf {α : Type} : Except Fault α → Option Fault
  | .ok _ => none
  | .error f => some f

section

variable (c : Config)

/-- `LOAD8`, `LOAD16`, `LOAD32`. What a faulting load returns is dropped
by the check that follows. -/
def loadX (size : Size) (addr : VA) : InterpM Reg := do
  let res ← translating false (Mmu.load c size addr)
  Prog.modify (·.accessed true addr (faultOf res))
  pure (res.toOption.getD 0)

/-- `STORE8`, `STORE16`, `STORE32`. -/
def storeX (size : Size) (addr : VA) (val : Reg) : InterpM Unit := do
  let res ← translating false (Mmu.store c size addr val)
  Prog.modify (·.accessed false addr (faultOf res))

end

/-- What a store leaves, by how the MMU's ends. -/
theorem storeX_apply (c : Config) (size : Size) (addr : VA) (val : Reg) (s : Machine) :
    storeX c size addr val s = match Mmu.store c size addr val s.cpu.isPrivileged s.mem with
      | .ok res m => .ok () ((s.translated false m).accessed false addr (faultOf res))
      | .ret m => .ret (s.translated false m)
      | .abort e m => .abort e (s.translated false m) := by
  have hrun : storeX c size addr val s = (Prog.zoom Machine.mem (fun s t => s.translated false t)
      (Mmu.store c size addr val s.cpu.isPrivileged) >>= fun res =>
        Prog.modify (·.accessed false addr (faultOf res))) s := rfl
  rw [hrun, Prog.bind_apply, Prog.zoom]
  cases Mmu.store c size addr val s.cpu.isPrivileged s.mem <;> rfl

/-- `MFCHECK`: a fault of the last access is raised, and the function
returns. -/
def mfcheck (rnW : Bool) : InterpM Unit := do
  let i ← Prog.gets Machine.interp
  match i.memAccessFault with
  | none => pure ()
  | some f =>
    raiseMemException rnW false i.memAccessAddr f i.inst
    Prog.ret

/-! ## Miscellaneous -/

/-- `CHECK_YOUR_PRIVILEGE`: "Todo: Raise program check". -/
def checkYourPrivilege : InterpM Unit := pure ()

/-- `CHECK_YOUR_HYP_PRIVILEGE`: "Todo: Raise program check". -/
def checkYourHypPrivilege : InterpM Unit := pure ()

/-- `SIM_QUIT`. -/
def simQuit : InterpM Unit :=
  Prog.modify fun s => { s with interp := { s.interp with wantBreak := true } }

/-- `blow_reservation`. -/
def blowReservation : InterpM Unit :=
  Prog.modify fun s =>
    { s with interp := { s.interp with excGenerationCount := s.interp.excGenerationCount + 1 } }

def opUnk : InterpM Unit := raisePROGException 0x80000

end MrIss
