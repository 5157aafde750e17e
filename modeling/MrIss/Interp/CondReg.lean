import MrIss.Interp.Base
/-!
# Compares, the condition register, branches and traps
-/

namespace MrIss

open EarlyReturn

/-! ## Compares -/

/-- A compare: a field of CR is written. -/
def compareTo (rel : Reg → Reg → Reg → Reg) (bf a b : Reg) : InterpM Unit := do
  let u ← Prog.gets (·.cpu.user)
  writeCR (writeCRField u.cr bf (rel a b u.getXERSO))
  incPC

def opCmp (bf ra rb : Reg) : InterpM Unit := do
  let a ← readGPR ra
  let b ← readGPR rb
  compareTo cmp bf a b

def opCmpi (bf ra si : Reg) : InterpM Unit := do
  let a ← readGPR ra
  compareTo cmp bf a si

def opCmpl (bf ra rb : Reg) : InterpM Unit := do
  let a ← readGPR ra
  let b ← readGPR rb
  compareTo cmpu bf a b

def opCmpli (bf ra ui : Reg) : InterpM Unit := do
  let a ← readGPR ra
  compareTo cmpu bf a ui

/-! ## The condition register -/

/-- An operation on two bits of CR. -/
def crLogic (f : Reg → Reg → Reg) (bt ba bb : Reg) : InterpM Unit := do
  let cr ← readCR
  writeCR (wbit cr bt (f (rbit cr ba) (rbit cr bb)))
  incPC

def opCrand := crLogic fun a b => a &&& b
def opCrandc := crLogic fun a b => a &&& ~~~b
def opCreqv := crLogic fun a b => ~~~(a ^^^ b)
def opCrnand := crLogic fun a b => ~~~(a &&& b)
def opCrnor := crLogic fun a b => ~~~(a ||| b)
def opCror := crLogic fun a b => a ||| b
def opCrorc := crLogic fun a b => a ||| ~~~b
def opCrxor := crLogic fun a b => a ^^^ b

def opMcrf (bf bfa : Reg) : InterpM Unit := do
  let cr ← readCR
  writeCR (writeCRField cr bf (readCRField cr bfa))
  incPC

def opMcrxr (bf : Reg) : InterpM Unit := do
  let u ← Prog.gets (·.cpu.user)
  writeCR (writeCRField u.cr bf (u.xer >>> 28))
  setXER 0
  incPC

def opMfcr (rt : Reg) : InterpM Unit := do
  let cr ← readCR
  writeGPR rt cr
  incPC

/-- The fields of CR that FXM selects. -/
def crMask (fxm : Reg) : Reg :=
  (if fxm &&& 0x80 != 0 then 0xf0000000 else 0) ||| (if fxm &&& 0x40 != 0 then 0x0f000000 else 0) |||
    (if fxm &&& 0x20 != 0 then 0x00f00000 else 0) ||| (if fxm &&& 0x10 != 0 then 0x000f0000 else 0) |||
    (if fxm &&& 0x08 != 0 then 0x0000f000 else 0) ||| (if fxm &&& 0x04 != 0 then 0x00000f00 else 0) |||
    (if fxm &&& 0x02 != 0 then 0x000000f0 else 0) ||| (if fxm &&& 0x01 != 0 then 0x0000000f else 0)

def opMtcrf (fxm rs : Reg) : InterpM Unit := do
  let s ← readGPR rs
  let cr ← readCR
  writeCR ((cr &&& ~~~crMask fxm) ||| (s &&& crMask fxm))
  incPC

/-! ## Branches -/

/-- `b`: a branch to itself ends the simulation. -/
def opB (li aa lk : Reg) : InterpM Unit := do
  let offset := (li <<< 6).sshiftRight 6
  let pc ← getPC
  let dest := if aa != 0 then offset else pc + offset
  Prog.when (dest == pc) simQuit
  Prog.when (lk != 0) (setLR (pc + 4))
  setPC dest

/-- Whether the condition that BO and BI name holds, CTR left out. -/
def branchCond (bo : Reg) (crBit : Bool) : Bool :=
  bo &&& 0x10 != 0 || crBit == (bo &&& 0x08 != 0)

/-- The test of CTR, decremented, that BO asks for. -/
def branchCTR (bo : Reg) (branch : Bool) : InterpM Bool :=
  if bo &&& 0x04 != 0 then pure branch
  else do
    let ctr ← Prog.gets (·.cpu.user.ctr)
    setCTR (ctr - 1)
    pure (branch && (ctr - 1 == 0) == (bo &&& 0x02 != 0))

/-- The end of a conditional branch. -/
def branchTo (branch : Bool) (dest : VA) : InterpM Unit := if branch then setPC dest else incPC

def opBc (bo bi bd aa lk : Reg) : InterpM Unit := do
  let crBit ← getCRb bi
  let branch ← branchCTR bo (branchCond bo crBit)
  let offset := sxt16 bd
  let pc ← getPC
  -- LR is written even where the branch is not taken
  Prog.when (lk != 0) (setLR (pc + 4))
  branchTo branch (if aa != 0 then offset else pc + offset)

def opBclr (bo bi _bh lk : Reg) : InterpM Unit := do
  let crBit ← getCRb bi
  let branch ← branchCTR bo (branchCond bo crBit)
  let lr ← Prog.gets (·.cpu.user.lr)
  let pc ← getPC
  Prog.when (lk != 0) (setLR (pc + 4))
  branchTo branch (lr &&& ~~~3)

def opBcctr (bo bi _bh lk : Reg) : InterpM Unit := do
  let crBit ← getCRb bi
  -- the form that decrements CTR is not valid
  Prog.when (bo &&& 0x04 == 0) do
    opUnk
    Prog.ret
  let pc ← getPC
  Prog.when (lk != 0) (setLR (pc + 4))
  let ctr ← Prog.gets (·.cpu.user.ctr)
  branchTo (branchCond bo crBit) (ctr &&& ~~~3)

/-! ## Traps -/

def opSc (_lev : Reg) : InterpM Unit := do
  incPC
  raiseSCException

def doesTrap (tO a b : Reg) : Bool :=
  (tO &&& 0x10 != 0 && a.slt b) || (tO &&& 0x08 != 0 && b.slt a) || (tO &&& 0x04 != 0 && a == b) ||
    (tO &&& 0x02 != 0 && a.ult b) || (tO &&& 0x01 != 0 && b.ult a)

/-- The end of a trap instruction. -/
def trapIf (trap : Bool) : InterpM Unit := do
  Prog.when trap do
    raisePROGException 0x20000
    Prog.ret
  incPC

def opTw (tO ra rb : Reg) : InterpM Unit := do
  let a ← readGPR ra
  let b ← readGPR rb
  trapIf (doesTrap tO a b)

def opTwi (tO ra si : Reg) : InterpM Unit := do
  let a ← readGPR ra
  trapIf (doesTrap tO a si)

end MrIss
