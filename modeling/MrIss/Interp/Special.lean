import MrIss.Interp.Base
/-!
# Special registers and system instructions

The cases of `mfspr` and `mtspr` are association lists from the number of
a register to what the case does; a number in no case ends the simulator.
-/

namespace MrIss

open EarlyReturn

/-! ## Barriers -/

def opEieio : InterpM Unit := incPC

def opIsync : InterpM Unit := incPC

def opSync (_l _e : Reg) : InterpM Unit := incPC

/-! ## The numbers of the registers -/

def sprXER : ℕ := 1
def sprLR : ℕ := 8
def sprCTR : ℕ := 9
def sprDSISR : ℕ := 18
def sprDAR : ℕ := 19
def sprDEC : ℕ := 22
def sprSDR1 : ℕ := 25
def sprSRR0 : ℕ := 26
def sprSRR1 : ℕ := 27
def sprTB : ℕ := 268
def sprTBU : ℕ := 269
def sprSPRG0 : ℕ := 272
def sprSPRG1 : ℕ := 273
def sprSPRG2 : ℕ := 274
def sprSPRG3 : ℕ := 275
def sprTBW : ℕ := 284
def sprTBUW : ℕ := 285
def sprPVR : ℕ := 287
def sprHID0 : ℕ := 1008
def sprHID1 : ℕ := 1009
def sprDABR : ℕ := 1013
def sprICInvSet : ℕ := 1021
def sprDCInvSet : ℕ := 1022
def sprPIR : ℕ := 1023
def sprDEBUG : ℕ := 1023

/-- `SPR_IBAT0U` to `SPR_IBAT7U`; each lower register is the next. -/
def sprIBATU : List ℕ := [528, 530, 532, 534, 560, 562, 564, 566]

/-- `SPR_DBAT0U` to `SPR_DBAT7U`. -/
def sprDBATU : List ℕ := [536, 538, 540, 542, 568, 570, 572, 574]

/-- The processor's version. -/
def mrPVR : Reg := 0xbb0a0001

/-! ## `mfspr` and `mftb` -/

/-- The case of `mfspr` that reads a user register. -/
def readUser (f : UserState → Reg) : InterpM Reg := Prog.gets fun s => f s.cpu.user

def readOs (f : OsState → Reg) : InterpM Reg := Prog.gets fun s => f s.cpu.os

/-- A privileged case of `mfspr`. -/
def readOsPriv (f : OsState → Reg) : InterpM Reg := do
  let v ← readOs f
  checkYourPrivilege
  pure v

/-- The cases of `mftb`, which `mfspr` has as well. -/
def tbCases : List (ℕ × InterpM Reg) :=
  [(sprTBU, readOs fun o => (o.getTB >>> 32).setWidth 32),
   (sprTB, readOs fun o => o.getTB.setWidth 32)]

/-- The cases of `mfspr`. -/
def mfsprCases : List (ℕ × InterpM Reg) :=
  [(sprLR, readUser (·.lr)),
   (sprCTR, readUser (·.ctr)),
   (sprXER, readUser (·.xer)),
   (sprPVR, pure mrPVR)] ++ tbCases ++
  [(sprSPRG3, readOs (·.sprg3)),
   (sprPIR, readOsPriv (·.pir)),
   (sprSPRG0, readOsPriv (·.sprg0)),
   (sprSPRG1, readOsPriv (·.sprg1)),
   (sprSPRG2, readOsPriv (·.sprg2)),
   (sprSDR1, readOsPriv (·.sdr1)),
   (sprSRR0, readOsPriv (·.srr0)),
   (sprSRR1, readOsPriv (·.srr1)),
   (sprDSISR, readOsPriv (·.dsisr)),
   (sprDAR, readOsPriv (·.dar)),
   (sprDEC, readOsPriv (·.dec)),
   (sprDABR, readOsPriv fun _ => 0),
   (sprHID0, readOsPriv (·.hid0)),
   (sprHID1, readOsPriv (·.hid1))]

/-- The case of a number. -/
def sprCase {α : Type} (cases : List (ℕ × α)) (spr : Reg) : Option α :=
  (cases.find? fun k => k.1 == spr.toNat).map Prod.snd

/-- The end of a function that reads a special register. -/
def sprTo (rt spr : Reg) (cases : List (ℕ × InterpM Reg)) : InterpM Unit := do
  let v ← (sprCase cases spr).elim (Prog.abort (.spr spr.toNat)) id
  writeGPR rt v
  incPC

def opMfspr (spr rt : Reg) : InterpM Unit := sprTo rt spr mfsprCases

def opMftb (spr rt : Reg) : InterpM Unit := sprTo rt spr tbCases

/-! ## `mtspr` -/

/-- A privileged case of `mtspr`. -/
def writePriv (f : Reg → InterpM Unit) (v : Reg) : InterpM Unit := do
  checkYourPrivilege
  f v

/-- `helper_DEBUG`: ends the simulation, or prints a character. -/
def helperDEBUG (val : Reg) : InterpM Unit :=
  if val &&& 0xff00 == 0x0000 then simQuit
  else if val &&& 0xff00 == 0x0100 then pure ()
  else Prog.abort .debug

/-- A call of a setter of a BAT register, with the setter's check of the
number. -/
def setBAT (f : Mmu → Fin 4 → BitVec 32 → Mmu) (bat : ℕ) (v : Reg) : InterpM Unit := do
  Prog.assert (decide (bat < 4)) .assertBat
  remap fun m => f m (Fin.ofNat 4 bat) v

/-- The cases of the BAT registers of one side. -/
def batCases (upper : List ℕ) (setUpper setLower : Mmu → Fin 4 → BitVec 32 → Mmu) :
    List (ℕ × (Reg → InterpM Unit)) :=
  upper.zipIdx.flatMap fun k =>
    [(k.1 + 1, writePriv (setBAT setLower k.2)), (k.1, writePriv (setBAT setUpper k.2))]

/-- The cases of `mtspr`. -/
def mtsprCases : List (ℕ × (Reg → InterpM Unit)) :=
  [(sprLR, setLR),
   (sprCTR, setCTR),
   (sprXER, setXER),
   (sprTBW, writePriv fun v => onOs fun o =>
     o.setTB (v.setWidth 64 ||| (o.getTB &&& 0xffffffff00000000#64))),
   (sprTBUW, writePriv fun v => onOs fun o =>
     o.setTB (v.setWidth 64 <<< 32 ||| (o.getTB &&& 0xffffffff#64)))] ++
  batCases sprIBATU Mmu.setIBATupper Mmu.setIBATlower ++
  batCases sprDBATU Mmu.setDBATupper Mmu.setDBATlower ++
  [(sprSPRG0, writePriv fun v => onOs fun o => { o with sprg0 := v }),
   (sprSPRG1, writePriv fun v => onOs fun o => { o with sprg1 := v }),
   (sprSPRG2, writePriv fun v => onOs fun o => { o with sprg2 := v }),
   (sprSPRG3, writePriv fun v => onOs fun o => { o with sprg3 := v }),
   (sprSRR0, writePriv fun v => onOs fun o => { o with srr0 := v }),
   (sprSRR1, writePriv fun v => onOs fun o => { o with srr1 := v }),
   (sprDSISR, writePriv fun v => onOs fun o => { o with dsisr := v }),
   (sprDAR, writePriv fun v => onOs fun o => { o with dar := v }),
   (sprSDR1, writePriv fun v => do
     onOs fun o => { o with sdr1 := v }
     remap (·.setSDR1 v)),
   (sprDEC, writePriv fun v => onOs fun o => { o with dec := v }),
   (sprDABR, writePriv fun _ => pure ()),
   (sprHID0, writePriv fun v => onOs fun o => { o with hid0 := v }),
   (sprHID1, writePriv fun v => onOs fun o => { o with hid1 := v }),
   (sprDEBUG, writePriv helperDEBUG),
   (sprDCInvSet, writePriv fun _ => pure ()),
   (sprICInvSet, writePriv fun _ => pure ())]

def opMtspr (spr rs : Reg) : InterpM Unit := do
  let v ← readGPR rs
  (sprCase mtsprCases spr).elim (Prog.abort (.spr spr.toNat)) fun f => f v
  incPC

/-! ## The machine state register -/

def opMfmsr (rt : Reg) : InterpM Unit := do
  checkYourPrivilege
  let v ← readMSR
  writeGPR rt v
  incPC

def opMtmsr (rs : Reg) : InterpM Unit := do
  let v ← readGPR rs
  checkYourPrivilege
  writeMSR v
  incPC

/-- `rfi`: moves SRR1 to MSR and SRR0 to PC. -/
def opRfi : InterpM Unit := do
  let o ← Prog.gets (·.cpu.os)
  checkYourPrivilege
  blowReservation
  record .rfi
  setPC (o.srr0 &&& ~~~3)
  writeMSR o.srr1

/-! ## Segment registers and the TLB -/

/-- `getSegmentReg`, with its check of the number. -/
def getSegmentReg (sr : Reg) : InterpM Reg := do
  Prog.assert (decide (sr < 16)) .assertSegment
  Prog.gets fun s => s.mem.mmu.getSegmentReg (Fin.ofNat 16 sr.toNat)

/-- `setSegmentReg`, with its check of the number. -/
def setSegmentReg (sr : Reg) (val : Reg) : InterpM Unit := do
  Prog.assert (decide (sr < 16)) .assertSegment
  remap fun m => m.setSegmentReg (Fin.ofNat 16 sr.toNat) val

def opMfsr (sr rt : Reg) : InterpM Unit := do
  checkYourPrivilege
  let v ← getSegmentReg sr
  writeGPR rt v
  incPC

def opMfsrin (rb rt : Reg) : InterpM Unit := do
  let b ← readGPR rb
  checkYourPrivilege
  let v ← getSegmentReg ((b >>> 28) &&& 0xf)
  writeGPR rt v
  incPC

def opMtsr (sr rs : Reg) : InterpM Unit := do
  let v ← readGPR rs
  checkYourPrivilege
  setSegmentReg sr v
  incPC

def opMtsrin (rs rb : Reg) : InterpM Unit := do
  let v ← readGPR rs
  let b ← readGPR rb
  checkYourPrivilege
  setSegmentReg ((b >>> 28) &&& 0xf) v
  incPC

def opTlbie (_rb _l : Reg) : InterpM Unit := do
  remap (·.tlbie)
  incPC

def opTlbiel (_rb _l : Reg) : InterpM Unit := do
  remap (·.tlbie)
  incPC

def opTlbia : InterpM Unit := do
  checkYourHypPrivilege
  remap (·.tlbia)
  incPC

def opTlbsync : InterpM Unit := do
  checkYourHypPrivilege
  incPC

/-- `DEBUG`: by r0, ends the simulation, prints r3 or turns tracing on. -/
def opDEBUG (ra : Reg) : InterpM Unit := do
  let _ ← readGPR ra
  let op ← readGPR 0
  Prog.when (op == 0) simQuit
  incPC

end MrIss
