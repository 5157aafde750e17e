import Mathlib.Logic.Function.Basic
import MrIss.Mmu.Model
/-!
# The machine's state

The processor's registers, grouped as the source groups them, what the
interpreter keeps beside them, and the MMU with the system behind it. The
trace is no part of the simulator: it records, latest first, the
translations, accesses, exceptions and reservations of a run, and nothing
reads it.
-/

namespace MrIss

open EarlyReturn

/-- `REG`. -/
abbrev Reg : Type := BitVec 32

/-- There are general-purpose registers to index. -/
instance neZero_gprs : NeZero 32 := ⟨by decide⟩

/-! ## Bits of XER and MSR -/

def xerSO : Reg := 0x80000000
def xerOV : Reg := 0x40000000
def xerCA : Reg := 0x20000000
def xerSTR : Reg := 0x0000007f

def msrDR : Reg := 0x10
def msrIR : Reg := 0x20
def msrIP : Reg := 0x40
def msrPR : Reg := 0x4000
def msrEE : Reg := 0x8000

/-! ## Registers -/

/-- User state. -/
structure UserState where
  gprs : Fin 32 → Reg
  pc : Reg
  ctr : Reg
  lr : Reg
  xer : Reg
  cr : Reg

namespace UserState

def setXER (u : UserState) (v : Reg) : UserState := { u with xer := v &&& 0xe000007f#32 }

/-- Sets or clears a bit of XER. -/
def setXERbit (u : UserState) (bit : Reg) (v : Bool) : UserState :=
  { u with xer := (u.xer &&& ~~~bit) ||| (if v then bit else 0) }

def setXERSO (u : UserState) (v : Bool) : UserState := u.setXERbit xerSO v

def setXEROV (u : UserState) (v : Bool) : UserState := u.setXERbit xerOV v

def setXERCA (u : UserState) (v : Bool) : UserState := u.setXERbit xerCA v

def getXERSO (u : UserState) : Reg := if u.xer &&& xerSO != 0 then 1 else 0

def getXERCA (u : UserState) : Reg := if u.xer &&& xerCA != 0 then 1 else 0

end UserState

/-- OS state, the registers of the implementation, and the time base. -/
structure OsState where
  msr : Reg
  sprg0 : Reg
  sprg1 : Reg
  sprg2 : Reg
  sprg3 : Reg
  srr0 : Reg
  srr1 : Reg
  dar : Reg
  dsisr : Reg
  dec : Reg
  sdr1 : Reg
  hid0 : Reg
  hid1 : Reg
  pir : Reg
  tb : BitVec 64

namespace OsState

/-- The time base counts once in `1 << TB_SHIFT` instructions. -/
def setTB (o : OsState) (t : BitVec 64) : OsState := { o with tb := t <<< 2 }

def getTB (o : OsState) : BitVec 64 := o.tb >>> 2

end OsState

/-- `PPCCPUState`. -/
structure CpuState where
  user : UserState
  os : OsState
  irqFlag : Bool
  cpuInstCount : BitVec 64

namespace CpuState

def isPrivileged (p : CpuState) : Bool := p.os.msr &&& msrPR == 0

def isIRQPending (p : CpuState) : Bool := p.os.msr &&& msrEE != 0 && p.irqFlag

def isDecrementerPending (p : CpuState) : Bool :=
  p.os.msr &&& msrEE != 0 && p.os.dec &&& 0x80000000#32 != 0

/-- `CPUTick`. -/
def cpuTick (p : CpuState) (t : BitVec 64) : CpuState :=
  let tb := p.os.tb + t
  { p with
    cpuInstCount := p.cpuInstCount + t
    os := { p.os with
      tb := tb
      dec := if tb &&& 3#64 == 0 then p.os.dec - 1 else p.os.dec } }

end CpuState

/-- What `PPCInterpreter` keeps. -/
structure InterpState where
  pc : VA
  inst : BitVec 32
  wantBreak : Bool
  memAccessFault : Option Fault
  memAccessAddr : VA
  excGenerationCount : BitVec 64
  reservationAddress : VA
  reservationGencount : BitVec 64

/-! ## The trace -/

/-- The exceptions that are raised. -/
inductive Exception where
  | dsi
  | isi
  | irq
  | align
  | prog
  | dec
  | sc
  deriving DecidableEq, Repr

/-- `exception_t`. -/
def Exception.vector : Exception → PA
  | .dsi => 0x300
  | .isi => 0x400
  | .irq => 0x500
  | .align => 0x600
  | .prog => 0x700
  | .dec => 0x900
  | .sc => 0xc00

/-- What a machine does that is recorded. -/
inductive Event where
  /-- The MMU is called to translate, for a fetch or for data; IR and DR
  as the MMU has them, and the MSR. -/
  | translate (inD enabledI enabledD : Bool) (msr : Reg)
  /-- A `LOADx` or `STOREx` has returned. -/
  | access (rnW : Bool) (addr : VA) (fault : Option Fault)
  | exception (e : Exception)
  /-- An `lwarx` has made its reservation. -/
  | lwarx (addr : VA)
  /-- An `stwcx.` whose reservation held has called `STORE32`. -/
  | stwcxStore (addr : VA) (fault : Option Fault)
  /-- An `stwcx.` has completed. -/
  | stwcx
  | rfi
  /-- A mapping of the MMU has been changed. -/
  | mapping
  deriving DecidableEq, Repr

/-- The events that reservations are about. -/
def Event.ofReservation : Event → Bool
  | .lwarx _ | .stwcxStore _ _ | .stwcx | .rfi => true
  | .translate .. | .access .. | .exception _ | .mapping => false

/-! ## The machine -/

structure Machine where
  cpu : CpuState
  interp : InterpState
  mem : Mem
  trace : List Event

/-- A statement of the interpreter. -/
abbrev InterpM : Type → Type := Prog Abort Machine

namespace Machine

def setUser (s : Machine) (u : UserState) : Machine := { s with cpu := { s.cpu with user := u } }

def setOs (s : Machine) (o : OsState) : Machine := { s with cpu := { s.cpu with os := o } }

def setMmu (s : Machine) (m : Mmu) : Machine := { s with mem := { s.mem with mmu := m } }

/-- A mapping has been changed. -/
def remapped (s : Machine) (m : Mmu) : Machine :=
  { s.setMmu m with trace := .mapping :: s.trace }

end Machine

/-- An assignment to user registers. -/
def onUser (f : UserState → UserState) : InterpM Unit :=
  Prog.modify fun s => s.setUser (f s.cpu.user)

/-- An assignment to the other registers. -/
def onOs (f : OsState → OsState) : InterpM Unit := Prog.modify fun s => s.setOs (f s.cpu.os)

/-- A call of the MMU that only sets its registers. -/
def onMmu (f : Mmu → Mmu) : InterpM Unit := Prog.modify fun s => s.setMmu (f s.mem.mmu)

/-- A call of the MMU that changes a mapping. -/
def remap (f : Mmu → Mmu) : InterpM Unit := Prog.modify fun s => s.remapped (f s.mem.mmu)

/-- Adds to the trace. -/
def record (e : Event) : InterpM Unit := Prog.modify fun s => { s with trace := e :: s.trace }

/-! ## Exceptions -/

namespace Machine

/-- `takeException`: the state it leaves. -/
def enter (s : Machine) (e : Exception) (newSrr1 : Reg) : Machine :=
  let msr := s.cpu.os.msr &&& msrIP
  { s with
    cpu := { s.cpu with
      user := { s.cpu.user with
        pc := (if msr &&& msrIP != 0 then 0xfff00000#32 else 0) + e.vector }
      os := { s.cpu.os with srr0 := s.cpu.user.pc &&& ~~~3#32, srr1 := newSrr1, msr := msr } }
    mem := { s.mem with mmu := s.mem.mmu.setIRDR (msr &&& msrIR != 0) (msr &&& msrDR != 0) }
    trace := .exception e :: s.trace }

variable (s : Machine) (e : Exception) (newSrr1 : Reg)

/-- A handler starts with translation off. -/
@[simp] theorem enter_enabledI : (s.enter e newSrr1).mem.mmu.enabledI = false := by
  change (s.cpu.os.msr &&& msrIP &&& msrIR != 0) = false
  rw [BitVec.and_assoc, show msrIP &&& msrIR = 0#32 by decide, BitVec.and_zero]
  rfl

@[simp] theorem enter_enabledD : (s.enter e newSrr1).mem.mmu.enabledD = false := by
  change (s.cpu.os.msr &&& msrIP &&& msrDR != 0) = false
  rw [BitVec.and_assoc, show msrIP &&& msrDR = 0#32 by decide, BitVec.and_zero]
  rfl

/-- A handler starts at its vector, under the prefix that IP says. -/
theorem enter_pc : (s.enter e newSrr1).cpu.user.pc =
    (if s.cpu.os.msr &&& msrIP = 0 then 0 else 0xfff00000#32) + e.vector := by
  change (if s.cpu.os.msr &&& msrIP &&& msrIP != 0 then 0xfff00000#32 else 0) + e.vector = _
  rw [BitVec.and_assoc, BitVec.and_self]
  by_cases h : s.cpu.os.msr &&& msrIP = 0 <;> simp [h]

end Machine

def takeException (e : Exception) (newSrr1 : Reg) : InterpM Unit :=
  Prog.modify (·.enter e newSrr1)

/-- An instruction storage interrupt: the cause replaces the top five bits
of the MSR in SRR1. -/
def raiseISI (cause : Reg) : InterpM Unit := do
  let srr1 ← Prog.gets (·.cpu.os.msr)
  takeException .isi ((srr1 &&& ~~~0xf8000000#32) ||| cause)

/-- A data storage interrupt. -/
def raiseDSI (rnW : Bool) (addr : VA) (cause : Reg) : InterpM Unit := do
  let srr1 ← Prog.gets (·.cpu.os.msr)
  onOs fun o => { o with dar := addr, dsisr := cause ||| (if rnW then 0 else 0x02000000#32) }
  takeException .dsi srr1

/-- DSISR of an alignment interrupt, from the instruction. -/
def alignDSISR (inst : BitVec 32) : Reg :=
  (if inst &&& 0x80000000#32 != 0 then
    ((inst >>> 12) &&& 0x4000#32) ||| ((inst >>> 17) &&& 0x3c00#32)
  else
    ((inst <<< 14) &&& 0x18000#32) ||| ((inst <<< 8) &&& 0x4000#32) |||
      ((inst <<< 3) &&& 0x3c00#32)) |||
    ((inst >>> 16) &&& 0x3e0#32) ||| ((inst >>> 16) &&& 0x1f#32)

def raiseMemException (rnW inD : Bool) (addr : VA) (fault : Fault) (inst : BitVec 32) :
    InterpM Unit :=
  match fault with
  | .noPage => if inD then raiseISI 0x40000000 else raiseDSI rnW addr 0x40000000
  | .perms => if inD then raiseISI 0x08000000 else raiseDSI rnW addr 0x08000000
  | .permsNX => do
    Prog.assert inD .assertNX
    raiseISI 0x10000000
  | .align => do
    let srr1 ← Prog.gets (·.cpu.os.msr)
    onOs fun o => { o with dar := addr, dsisr := alignDSISR inst }
    takeException .align srr1
  | .noSegment => Prog.abort .unhandledFault

def raiseIRQException : InterpM Unit := do
  let srr1 ← Prog.gets (·.cpu.os.msr)
  takeException .irq srr1

def raiseDECException : InterpM Unit := do
  let srr1 ← Prog.gets (·.cpu.os.msr)
  takeException .dec srr1

def raisePROGException (reason : Reg) : InterpM Unit := do
  let srr1 ← Prog.gets (·.cpu.os.msr)
  takeException .prog ((srr1 &&& 0x8000ffff#32) ||| reason)

def raiseSCException : InterpM Unit := do
  let srr1 ← Prog.gets (·.cpu.os.msr)
  takeException .sc srr1

end MrIss
