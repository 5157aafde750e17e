import MrIss.Interp.Base
/-!
# Arithmetic and logical instructions

The generated bodies read their operands, compute, write the result and
then the flags that OE and Rc ask for. `sumTo`, `logicTo` and `resultTo`
are their common endings.
-/

namespace MrIss

open EarlyReturn

/-- What `ADD_OV_CO_CI` computes. -/
structure Sum where
  val : Reg
  ov : Bool
  co : Bool
  deriving DecidableEq, Repr

/-- `ADD_OV_CO_CI`: the sum of three words; overflow by the signs of the
first two and of the result. -/
def addOvCoCi (a b ci : Reg) : Sum :=
  let r : BitVec 64 := a.setWidth 64 + b.setWidth 64 + ci.setWidth 64
  let ra : Reg := r.setWidth 32
  let sign (x : Reg) : Bool := x &&& 0x80000000#32 != 0
  { val := ra
    ov := (!sign a && !sign b && sign ra) || (sign a && sign b && !sign ra)
    co := r &&& 0x100000000#64 != 0 }

/-- The end of a function that adds: the result, the carry where it is an
output, and the flags that OE and Rc ask for. -/
def sumTo (ca : Bool) (rt rc oe : Reg) (r : Sum) : InterpM Unit := do
  writeGPR rt r.val
  Prog.when ca (writeCA r.co)
  Prog.when (oe != 0) (setSoOv r.ov)
  Prog.when (rc != 0) (setCR0 r.val)
  incPC

/-- The end of a function that has a result and no carry. -/
def resultTo (rt rc : Reg) (val : Reg) : InterpM Unit := do
  writeGPR rt val
  Prog.when (rc != 0) (setCR0 val)
  incPC

/-! ## Add and subtract -/

def opAdd (ra rb rt rc oe : Reg) : InterpM Unit := do
  let a ← readGPR ra
  let b ← readGPR rb
  sumTo false rt rc oe (addOvCoCi a b 0)

def opAddc (ra rb rt rc oe : Reg) : InterpM Unit := do
  let a ← readGPR ra
  let b ← readGPR rb
  sumTo true rt rc oe (addOvCoCi a b 0)

def opAdde (ra rb rt rc oe : Reg) : InterpM Unit := do
  let a ← readGPR ra
  let b ← readGPR rb
  let ca ← readCA
  sumTo true rt rc oe (addOvCoCi a b ca)

def opAddi (ra0 si rt : Reg) : InterpM Unit := do
  let a ← readGPROZ ra0
  resultTo rt 0 (a + si)

def opAddis (ra0 si rt : Reg) : InterpM Unit := do
  let a ← readGPROZ ra0
  resultTo rt 0 (a + si <<< 16)

def opAddic (ra si rt : Reg) : InterpM Unit := do
  let a ← readGPR ra
  sumTo true rt 0 0 (addOvCoCi a si 0)

def opAddicRc (ra si rt : Reg) : InterpM Unit := do
  let a ← readGPR ra
  sumTo true rt 1 0 (addOvCoCi a si 0)

def opAddme (ra rt rc oe : Reg) : InterpM Unit := do
  let a ← readGPR ra
  let ca ← readCA
  sumTo true rt rc oe (addOvCoCi a (-1) ca)

def opAddze (ra rt rc oe : Reg) : InterpM Unit := do
  let a ← readGPR ra
  let ca ← readCA
  sumTo true rt rc oe (addOvCoCi a ca 0)

def opSubf (ra rb rt rc oe : Reg) : InterpM Unit := do
  let a ← readGPR ra
  let b ← readGPR rb
  sumTo false rt rc oe (addOvCoCi (~~~a) b 1)

def opSubfc (ra rb rt rc oe : Reg) : InterpM Unit := do
  let a ← readGPR ra
  let b ← readGPR rb
  sumTo true rt rc oe (addOvCoCi (~~~a) b 1)

def opSubfe (ra rb rt rc oe : Reg) : InterpM Unit := do
  let a ← readGPR ra
  let b ← readGPR rb
  let ca ← readCA
  sumTo true rt rc oe (addOvCoCi (~~~a) b ca)

def opSubfic (ra si rt : Reg) : InterpM Unit := do
  let a ← readGPR ra
  sumTo true rt 0 0 (addOvCoCi (~~~a) si 1)

def opSubfme (ra rt rc oe : Reg) : InterpM Unit := do
  let a ← readGPR ra
  let ca ← readCA
  sumTo true rt rc oe (addOvCoCi (~~~a) (-1) ca)

def opSubfze (ra rt rc oe : Reg) : InterpM Unit := do
  let a ← readGPR ra
  let ca ← readCA
  sumTo true rt rc oe (addOvCoCi (~~~a) 0 ca)

def opNeg (ra rt rc oe : Reg) : InterpM Unit := do
  let a ← readGPR ra
  sumTo false rt rc oe (addOvCoCi (~~~a) 1 0)

/-! ## Multiply and divide -/

def opMulhw (ra rb rt rc : Reg) : InterpM Unit := do
  let a ← readGPR ra
  let b ← readGPR rb
  resultTo rt rc (((a.signExtend 64 * b.signExtend 64).sshiftRight 32).setWidth 32)

def opMulhwu (ra rb rt rc : Reg) : InterpM Unit := do
  let a ← readGPR ra
  let b ← readGPR rb
  resultTo rt rc (((a.setWidth 64 * b.setWidth 64) >>> 32).setWidth 32)

def opMulli (ra si rt : Reg) : InterpM Unit := do
  let a ← readGPR ra
  resultTo rt 0 (a * si)

/-- The overflow that `mullw` reports of the 64-bit product `x`. -/
def mullwOV (a b : Reg) (x : BitVec 64) : Bool :=
  (x >>> 32 != 0 && x >>> 31 != 0x1ffffffff#64) ||
    (((a >>> 31) ^^^ (b >>> 31)) != x.setWidth 32 >>> 31 && x != 0)

def opMullw (ra rb rt rc oe : Reg) : InterpM Unit := do
  let a ← readGPR ra
  let b ← readGPR rb
  let x := a.signExtend 64 * b.signExtend 64
  sumTo false rt rc oe ⟨x.setWidth 32, mullwOV a b x, false⟩

/-- Division by zero, and of the least number by -1, overflows. -/
def divw (a b : Reg) : Sum :=
  if b = 0 then ⟨if 0x80000000#32 ≤ a then 0x80000000 else 0x7fffffff, true, false⟩
  else if a = 0x80000000 ∧ b = 0xffffffff then ⟨0x7fffffff, true, false⟩
  else ⟨a.sdiv b, false, false⟩

def opDivw (ra rb rt rc oe : Reg) : InterpM Unit := do
  let a ← readGPR ra
  let b ← readGPR rb
  sumTo false rt rc oe (divw a b)

def divwu (a b : Reg) : Sum :=
  if b = 0 then ⟨0xffffffff, true, false⟩ else ⟨a / b, false, false⟩

def opDivwu (ra rb rt rc oe : Reg) : InterpM Unit := do
  let a ← readGPR ra
  let b ← readGPR rb
  sumTo false rt rc oe (divwu a b)

/-! ## Logical -/

/-- A logical instruction of two registers. -/
def logicX (f : Reg → Reg → Reg) (rs rb ra rc : Reg) : InterpM Unit := do
  let s ← readGPR rs
  let b ← readGPR rb
  resultTo ra rc (f s b)

/-- A logical instruction of a register and an immediate. -/
def logicD (f : Reg → Reg → Reg) (rc : Reg) (rs ui ra : Reg) : InterpM Unit := do
  let s ← readGPR rs
  resultTo ra rc (f s ui)

def opAnd := logicX fun s b => s &&& b
def opAndc := logicX fun s b => s &&& ~~~b
def opEqv := logicX fun s b => ~~~(s ^^^ b)
def opNand := logicX fun s b => ~~~(s &&& b)
def opNor := logicX fun s b => ~~~(s ||| b)
def opOr := logicX fun s b => s ||| b
def opOrc := logicX fun s b => s ||| ~~~b
def opXor := logicX fun s b => s ^^^ b
def opSlw := logicX fun s b => if b &&& 0x3f &&& 0x20 != 0 then 0 else s <<< (b &&& 0x1f)
def opSrw := logicX fun s b => if b &&& 0x20 != 0 then 0 else s >>> (b &&& 0x1f)

def opAndiRc := logicD (fun s ui => s &&& ui) 1
def opAndisRc := logicD (fun s ui => s &&& ui <<< 16) 1
def opOri := logicD (fun s ui => s ||| ui) 0
def opOris := logicD (fun s ui => s ||| ui <<< 16) 0
def opXori := logicD (fun s ui => s ^^^ ui) 0
def opXoris := logicD (fun s ui => s ^^^ ui <<< 16) 0

/-- A logical instruction of one register. -/
def logicRS (f : Reg → Reg) (rs ra rc : Reg) : InterpM Unit := do
  let s ← readGPR rs
  resultTo ra rc (f s)

def opExtsb := logicRS sxt8
def opExtsh := logicRS sxt16
def opCntlzw := logicRS fun s =>
  if s = 0 then 32 else 31 - BitVec.ofNat 32 (Nat.log2 s.toNat)

/-! ## Rotate and shift -/

/-- `ROTL32`; a shift by 32 leaves nothing here, where the host's leaves
the word itself, and either way the disjunction is the word. -/
def rotl32 (x s : Reg) : Reg := (x <<< s) ||| (x >>> (32 - s))

def mkmask (mb me : Reg) : Reg :=
  if mb ≤ me then (0xffffffff#32 >>> mb) &&& ~~~(0x7fffffff#32 >>> me)
  else (0xffffffff#32 <<< (31 - me)) ||| ~~~(0xfffffffe#32 <<< (31 - mb))

def opRlwimi (ra rs sh mb me rc : Reg) : InterpM Unit := do
  let a ← readGPR ra
  let s ← readGPR rs
  let mask := mkmask mb me
  resultTo ra rc ((a &&& ~~~mask) ||| (rotl32 s sh &&& mask))

def opRlwinm (rs sh mb me ra rc : Reg) : InterpM Unit := do
  let s ← readGPR rs
  resultTo ra rc (rotl32 s sh &&& mkmask mb me)

def opRlwnm (rb rs mb me ra rc : Reg) : InterpM Unit := do
  let b ← readGPR rb
  let s ← readGPR rs
  resultTo ra rc (rotl32 s (b &&& 0x1f) &&& mkmask mb me)

/-- A shift right of at most 31, with the carry that says that ones were
shifted out of a negative number. -/
def sraBy (s sh : Reg) : Sum :=
  { val := s.sshiftRight sh.toNat
    ov := false
    co := s &&& 0x80000000#32 != 0 && s &&& ((1#32 <<< sh) - 1) != 0 }

def sraw (s b : Reg) : Sum :=
  let sh := b &&& 0x3f
  if 31 < sh then ⟨s.sshiftRight 31, false, s &&& 0x80000000#32 != 0⟩ else sraBy s sh

def opSraw (rs rb ra rc : Reg) : InterpM Unit := do
  let s ← readGPR rs
  let b ← readGPR rb
  sumTo true ra rc 0 (sraw s b)

def opSrawi (rs sh ra rc : Reg) : InterpM Unit := do
  let s ← readGPR rs
  sumTo true ra rc 0 (sraBy s sh)

end MrIss
