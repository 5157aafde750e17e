import MrIss.Interp.Arithmetic
import MrIss.Interp.CondReg
import MrIss.Interp.Memory
import MrIss.Interp.Special
/-!
# The instruction table

One row for each line of the table that the decoder is generated from: its
form, opcode and extended opcode, what its Priv column says, for itself
and for the special registers listed below it, and the call the decoder
makes. A word is decoded by the row it matches; no word matches two.
-/

namespace MrIss

open EarlyReturn

/-- The instruction forms. -/
inductive Form where
  | I
  | B
  | SC
  | D
  | X
  | XL
  | XFX
  | XO
  | M
  deriving DecidableEq, Repr

/-- The Priv column: blank, S or H. -/
inductive Priv where
  | user
  | supervisor
  | hypervisor
  deriving DecidableEq, Repr

/-- A row of the table. -/
structure Row where
  form : Form
  opcode : ℕ
  xo : Option ℕ
  priv : Priv
  /-- The special registers whose sub-row says S: a mask of the number's
  bits, and their value. -/
  sprPriv : List (Reg × Reg)
  call : BitVec 32 → InterpM Unit

namespace Form

/-- The extended opcode of a word. -/
def xopc : Form → BitVec 32 → Reg
  | .XL => xlXOPC
  | .SC => scXOPC
  | _ => xXOPC

end Form

namespace Row

/-- The extended opcodes of a row: an XO-form row has two, for both values
of OE. -/
def xos (r : Row) : Option (List ℕ) :=
  r.xo.map fun x => if r.form = .XO then [x, x ||| 0x200] else [x]

/-- Whether the decoder makes the row's call for a word. -/
def accepts (r : Row) (i : BitVec 32) : Bool :=
  (getOpcode i).toNat == r.opcode &&
    match r.xos with
    | none => true
    | some xs => xs.contains (r.form.xopc i).toNat

/-- Whether the table marks a word of the row as privileged. -/
def marked (r : Row) (i : BitVec 32) : Bool :=
  r.priv != .user || r.sprPriv.any fun m => xfxSpr i &&& m.1 == m.2

/-! ## Rows by their form -/

def d (opcode : ℕ) (call : BitVec 32 → InterpM Unit) : Row := ⟨.D, opcode, none, .user, [], call⟩

def m (opcode : ℕ) (call : BitVec 32 → InterpM Unit) : Row := ⟨.M, opcode, none, .user, [], call⟩

def x (xo : ℕ) (call : BitVec 32 → InterpM Unit) : Row := ⟨.X, 31, some xo, .user, [], call⟩

/-- An X-form row that the table marks. -/
def xPriv (xo : ℕ) (priv : Priv) (call : BitVec 32 → InterpM Unit) : Row :=
  ⟨.X, 31, some xo, priv, [], call⟩

def xo' (xo : ℕ) (call : BitVec 32 → InterpM Unit) : Row := ⟨.XO, 31, some xo, .user, [], call⟩

def xl (xo : ℕ) (call : BitVec 32 → InterpM Unit) : Row := ⟨.XL, 19, some xo, .user, [], call⟩

def xfx (xo : ℕ) (sprPriv : List (Reg × Reg)) (call : BitVec 32 → InterpM Unit) : Row :=
  ⟨.XFX, 31, some xo, .user, sprPriv, call⟩

end Row

/-! ## Arguments by their fields -/

/-- `RA,RB,RT,Rc,OE`. -/
def argsABT (f : Reg → Reg → Reg → Reg → Reg → InterpM Unit) (i : BitVec 32) : InterpM Unit :=
  f (xoRA i) (xoRB i) (xoRT i) (xoRc i) (xoOE i)

/-- `RA,RT,Rc,OE`. -/
def argsAT (f : Reg → Reg → Reg → Reg → InterpM Unit) (i : BitVec 32) : InterpM Unit :=
  f (xoRA i) (xoRT i) (xoRc i) (xoOE i)

/-- `RS,RB,RA,Rc`. -/
def argsSBA (f : Reg → Reg → Reg → Reg → InterpM Unit) (i : BitVec 32) : InterpM Unit :=
  f (xRS i) (xRB i) (xRA i) (xRc i)

/-- `RS,RA,Rc`. -/
def argsSA (f : Reg → Reg → Reg → InterpM Unit) (i : BitVec 32) : InterpM Unit :=
  f (xRS i) (xRA i) (xRc i)

/-- `RA,SI,RT`. -/
def argsASI (f : Reg → Reg → Reg → InterpM Unit) (i : BitVec 32) : InterpM Unit :=
  f (dRA i) (dSI i) (dRT i)

/-- `RS,UI,RA`. -/
def argsSUI (f : Reg → Reg → Reg → InterpM Unit) (i : BitVec 32) : InterpM Unit :=
  f (dRS i) (dUI i) (dRA i)

/-- `BT,BA,BB`. -/
def argsBits (f : Reg → Reg → Reg → InterpM Unit) (i : BitVec 32) : InterpM Unit :=
  f (xlBT i) (xlBA i) (xlBB i)

/-- `RA,D,RT`. -/
def argsLoadD (f : Reg → Reg → Reg → InterpM Unit) (i : BitVec 32) : InterpM Unit :=
  f (dRA i) (dD i) (dRT i)

/-- `RA,RB,RT`. -/
def argsLoadX (f : Reg → Reg → Reg → InterpM Unit) (i : BitVec 32) : InterpM Unit :=
  f (xRA i) (xRB i) (xRT i)

/-- `RS,RA,D`. -/
def argsStoreD (f : Reg → Reg → Reg → InterpM Unit) (i : BitVec 32) : InterpM Unit :=
  f (dRS i) (dRA i) (dD i)

/-- `RS,RA,RB`. -/
def argsStoreX (f : Reg → Reg → Reg → InterpM Unit) (i : BitVec 32) : InterpM Unit :=
  f (xRS i) (xRA i) (xRB i)

/-- `RA0,RB`. -/
def argsBlock (f : Reg → Reg → InterpM Unit) (i : BitVec 32) : InterpM Unit :=
  f (xRA0 i) (xRB i)

/-! ## The rows -/

def arithmeticRows : List Row :=
  [.xo' 266 (argsABT opAdd), .xo' 10 (argsABT opAddc), .xo' 138 (argsABT opAdde),
   .d 14 (argsASI opAddi), .d 15 (argsASI opAddis), .d 12 (argsASI opAddic),
   .d 13 (argsASI opAddicRc), .xo' 234 (argsAT opAddme), .xo' 202 (argsAT opAddze),
   .xo' 491 (argsABT opDivw), .xo' 459 (argsABT opDivwu),
   .x 75 fun i => opMulhw (xRA i) (xRB i) (xRT i) (xRc i),
   .x 11 fun i => opMulhwu (xRA i) (xRB i) (xRT i) (xRc i),
   .d 7 (argsASI opMulli), .xo' 235 (argsABT opMullw), .xo' 104 (argsAT opNeg),
   .xo' 40 (argsABT opSubf), .xo' 8 (argsABT opSubfc), .xo' 136 (argsABT opSubfe),
   .d 8 (argsASI opSubfic), .xo' 232 (argsAT opSubfme), .xo' 200 (argsAT opSubfze)]

def logicalRows : List Row :=
  [.x 28 (argsSBA opAnd), .x 60 (argsSBA opAndc), .d 28 (argsSUI opAndiRc),
   .d 29 (argsSUI opAndisRc), .x 26 (argsSA opCntlzw), .x 284 (argsSBA opEqv),
   .x 954 (argsSA opExtsb), .x 922 (argsSA opExtsh), .x 476 (argsSBA opNand),
   .x 124 (argsSBA opNor), .x 444 (argsSBA opOr), .x 412 (argsSBA opOrc),
   .d 24 (argsSUI opOri), .d 25 (argsSUI opOris),
   .m 20 fun i => opRlwimi (mRA i) (mRS i) (mSH i) (mMB i) (mME i) (mRc i),
   .m 21 fun i => opRlwinm (mRS i) (mSH i) (mMB i) (mME i) (mRA i) (mRc i),
   .m 23 fun i => opRlwnm (mRB i) (mRS i) (mMB i) (mME i) (mRA i) (mRc i),
   .x 24 (argsSBA opSlw), .x 792 (argsSBA opSraw),
   .x 824 fun i => opSrawi (xRS i) (xSH i) (xRA i) (xRc i),
   .x 536 (argsSBA opSrw), .x 316 (argsSBA opXor), .d 26 (argsSUI opXori),
   .d 27 (argsSUI opXoris)]

def condRegRows : List Row :=
  [.x 0 fun i => opCmp (xBF i) (xRA i) (xRB i),
   .d 11 fun i => opCmpi (dBF i) (dRA i) (dSI i),
   .x 32 fun i => opCmpl (xBF i) (xRA i) (xRB i),
   .d 10 fun i => opCmpli (dBF i) (dRA i) (dUI i),
   .xl 257 (argsBits opCrand), .xl 129 (argsBits opCrandc), .xl 289 (argsBits opCreqv),
   .xl 225 (argsBits opCrnand), .xl 33 (argsBits opCrnor), .xl 449 (argsBits opCror),
   .xl 417 (argsBits opCrorc), .xl 193 (argsBits opCrxor),
   .xl 0 fun i => opMcrf (xlBF i) (xlBFA i),
   .x 512 fun i => opMcrxr (xBF i),
   .xfx 19 [] fun i => opMfcr (xfxRT i),
   .xfx 144 [] fun i => opMtcrf (xfxFXM i) (xfxRS i)]

def branchRows : List Row :=
  [⟨.I, 18, none, .user, [], fun i => opB (iLI i) (iAA i) (iLK i)⟩,
   ⟨.B, 16, none, .user, [], fun i => opBc (bBO i) (bBI i) (bBD i) (bAA i) (bLK i)⟩,
   .xl 16 fun i => opBclr (xlBO i) (xlBI i) (xlBH i) (xlLK i),
   .xl 528 fun i => opBcctr (xlBO i) (xlBI i) (xlBH i) (xlLK i),
   ⟨.SC, 17, some 1, .user, [], fun i => opSc (scLEV i)⟩,
   .x 4 fun i => opTw (xTO i) (xRA i) (xRB i),
   .d 3 fun i => opTwi (dTO i) (dRA i) (dSI i)]

section

variable (c : Config)

def loadRows : List Row :=
  [.d 34 (argsLoadD (opLbz c)), .d 35 (argsLoadD (opLbzu c)), .x 87 (argsLoadX (opLbzx c)),
   .x 119 (argsLoadX (opLbzux c)), .d 42 (argsLoadD (opLha c)), .d 43 (argsLoadD (opLhau c)),
   .x 343 (argsLoadX (opLhax c)), .x 375 (argsLoadX (opLhaux c)),
   .x 790 (argsLoadX (opLhbrx c)), .d 40 (argsLoadD (opLhz c)), .d 41 (argsLoadD (opLhzu c)),
   .x 279 (argsLoadX (opLhzx c)), .x 311 (argsLoadX (opLhzux c)),
   .x 534 (argsLoadX (opLwbrx c)), .d 32 (argsLoadD (opLwz c)), .d 33 (argsLoadD (opLwzu c)),
   .x 23 (argsLoadX (opLwzx c)), .x 55 (argsLoadX (opLwzux c))]

def storeRows : List Row :=
  [.d 38 (argsStoreD (opStb c)), .d 39 (argsStoreD (opStbu c)), .x 215 (argsStoreX (opStbx c)),
   .x 247 (argsStoreX (opStbux c)), .d 44 (argsStoreD (opSth c)),
   .x 918 (argsStoreX (opSthbrx c)), .d 45 (argsStoreD (opSthu c)),
   .x 407 (argsStoreX (opSthx c)), .x 439 (argsStoreX (opSthux c)),
   .d 36 (argsStoreD (opStw c)), .x 662 (argsStoreX (opStwbrx c)),
   .d 37 (argsStoreD (opStwu c)), .x 151 (argsStoreX (opStwx c)),
   .x 183 (argsStoreX (opStwux c))]

/-- `lwarx` and `stwcx.`. -/
def reservationRows : List Row :=
  [.x 20 fun i => opLwarx c (xRA0 i) (xRB i) (xEH i) (xRT i),
   .x 150 fun i => opStwcx c (xRS i) (xRA0 i) (xRB i)]

/-- The cache instructions that access memory. -/
def blockRows : List Row :=
  [.xPriv 470 .supervisor (argsBlock (opDcbi c)), .x 86 (argsBlock (opDcbf c)),
   .x 54 (argsBlock (opDcbst c)), .x 1014 (argsBlock (opDcbz c))]

/-- The other cache instructions. -/
def cacheRows : List Row :=
  [.x 758 (argsBlock opDcba), .x 278 fun i => opDcbt (xRA0 i) (xRB i) (xTH i),
   .x 246 fun i => opDcbtst (xRA0 i) (xRB i) (xTH i), .x 982 (argsBlock (opIcbi c)),
   .x 22 fun i => opIcbt (xCT i) (xRA0 i) (xRB i)]

/-- The instructions that load or store several registers. -/
def multipleRows : List Row :=
  [.d 46 fun i => opLmw c (dRT i) (dD i) (dRA0 i),
   .d 47 fun i => opStmw c (dRS i) (dD i) (dRA0 i),
   .xPriv 597 .hypervisor fun i => opLswi c (xRT i) (xRA0 i) (xNB i),
   .xPriv 533 .hypervisor fun i => opLswx c (xRT i) (xRA0 i) (xRB i),
   .xPriv 725 .hypervisor fun i => opStswi c (xRS i) (xRA0 i) (xNB i),
   .xPriv 661 .hypervisor fun i => opStswx c (xRS i) (xRA0 i) (xRB i)]

end

/-- The sub-row of one special register. -/
def sprRow (n : Reg) : Reg × Reg := (0x3ff, n)

/-- The sub-rows of the BAT registers. -/
def sprBATRows : List (Reg × Reg) := [(0x3d8, 0x210), (0x3d8, 0x218)]

def mfsprPriv : List (Reg × Reg) :=
  [18, 19, 22, 25, 26, 27, 272, 273, 274, 275, 287, 1013].map sprRow ++ sprBATRows

def mtsprPriv : List (Reg × Reg) :=
  [18, 19, 22, 25, 26, 27, 272, 273, 274, 275, 284, 285, 1013].map sprRow ++ sprBATRows

/-- The special instructions that write no system register. -/
def specialRows : List Row :=
  [.x 854 fun _ => opEieio, .xl 150 fun _ => opIsync,
   .x 598 fun i => opSync (xL i) (xE i),
   .xPriv 83 .supervisor fun i => opMfmsr (xRT i),
   .xfx 339 mfsprPriv fun i => opMfspr (xfxSpr i) (xfxRT i),
   .xfx 371 [] fun i => opMftb (xfxSpr i) (xfxRT i),
   ⟨.X, 5, some 69, .user, [], fun i => opDEBUG (xRA i)⟩,
   .xPriv 595 .supervisor fun i => opMfsr (xSR i) (xRT i),
   .xPriv 659 .supervisor fun i => opMfsrin (xRB i) (xRT i),
   .xPriv 566 .hypervisor fun _ => opTlbsync]

/-- The special instructions that write them. -/
def systemRows : List Row :=
  [.xPriv 146 .supervisor fun i => opMtmsr (xRS i),
   .xfx 467 mtsprPriv fun i => opMtspr (xfxSpr i) (xfxRS i),
   ⟨.XL, 19, some 50, .supervisor, [], fun _ => opRfi⟩,
   .xPriv 210 .supervisor fun i => opMtsr (xSR i) (xRS i),
   .xPriv 242 .supervisor fun i => opMtsrin (xRS i) (xRB i),
   .xPriv 306 .hypervisor fun i => opTlbie (xRB i) (xL i),
   .xPriv 274 .hypervisor fun i => opTlbiel (xRB i) (xL i),
   .xPriv 370 .hypervisor fun _ => opTlbia]

/-- The table. -/
def table (c : Config) : List Row :=
  arithmeticRows ++ logicalRows ++ condRegRows ++ branchRows ++ loadRows c ++ storeRows c ++
    reservationRows c ++ blockRows c ++ cacheRows c ++ multipleRows c ++ specialRows ++
    systemRows

/-- The row of a word. -/
def rowOf (c : Config) (i : BitVec 32) : Option Row := (table c).find? (·.accepts i)

/-- `decode`: makes the call of the word's row. -/
def decode (c : Config) (i : BitVec 32) : InterpM Unit :=
  (rowOf c i).elim opUnk fun r => r.call i

end MrIss
