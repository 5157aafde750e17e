import Mathlib.Data.Int.Bitwise
import Mathlib.Data.List.AList
import Mathlib.Data.List.Sort
import MrIss.Interp.Base
import MrIss.Lib.Switch
/-!
# The decoder generator

`mk_decode` reads the instruction table and writes two switches over the
primary opcode: one whose arms call the instructions, and one whose arms
plant calls of them. Both are here as statements rather than as their text.
A cell of the table is a text, as the reader of the table leaves it.
-/

namespace MrIss.MkDecode

/-! ## Texts and numbers -/

/-- A value that two sides of a comparison may hold: of different types they
are never equal. -/
inductive Value where
  | str (s : String)
  | num (n : ℤ)
  deriving DecidableEq, Repr

/-- The number that digits spell, single underscores between them. -/
def digits : ℕ → List Char → Option ℕ
  | acc, [] => some acc
  | acc, '_' :: c :: cs =>
    if c.isDigit then digits (acc * 10 + (c.toNat - '0'.toNat)) cs else none
  | acc, c :: cs =>
    if c.isDigit then digits (acc * 10 + (c.toNat - '0'.toNat)) cs else none

/-- A text of digits that starts with one. -/
def natural : List Char → Option ℕ
  | c :: cs => if c.isDigit then digits 0 (c :: cs) else none
  | [] => none

/-- A text without the blanks around it. -/
def strip (cs : List Char) : List Char :=
  ((cs.dropWhile Char.isWhitespace).reverse.dropWhile Char.isWhitespace).reverse

/-- `int()` of a text of ASCII characters. -/
def int (s : String) : Option ℤ :=
  match strip s.toList with
  | '-' :: cs => (natural cs).map fun n => -(n : ℤ)
  | '+' :: cs => (natural cs).map Nat.cast
  | cs => (natural cs).map Nat.cast

/-- What stops the generator: `fatal`, or an exception of the language. -/
inductive Failure where
  | fatal (text : String)
  | valueError
  | typeError
  | indexError
  deriving DecidableEq, Repr

/-! ## The table -/

/-- A line of the table: the cells that decoding is generated from. -/
structure Row where
  name : String
  form : String
  opcode : String
  xo : String
  subdec : String
  inRegs : String
  outRegs : String
  outImplicitRegs : String
  action : String
  hasRc : String
  hasOe : String
  endsBb : String
  hasAa : String
  hasLk : String

def paramType : String → String
  | "SI" => "s16"
  | "D" => "s16"
  | "UI" => "u16"
  | "LI" => "u32"
  | "LEV" => "u8"
  | _ => "int"

/-- A list of registers, split at its commas, without its duplicates. -/
def paramsList (regs : String) : List String :=
  ((regs.toList.splitOn ',').map String.ofList).foldl
    (fun l x => if x ∈ l then l else l ++ [x]) []

def genExtraRegs (hasRc hasOe hasAa hasLk : String) : String :=
  (if hasRc = "1" then ",Rc" else "") ++ (if hasOe = "1" then ",OE" else "") ++
    (if hasAa = "1" then ",AA" else "") ++ (if hasLk = "1" then ",LK" else "")

/-- The fields a row names, in the order it names them. -/
def Row.params (r : Row) : List String :=
  (paramsList (r.inRegs ++ "," ++ r.outRegs ++
    genExtraRegs r.hasRc r.hasOe r.hasAa r.hasLk)).filter (· ≠ "")

/-- A function's prototype: its name and its parameters with their types. -/
structure Prototype where
  op : String
  params : List (String × String)
  deriving DecidableEq, Repr

/-- The call of an instruction with fields of the word, each the accessor
`form_field`. -/
structure Call where
  op : String
  args : List (String × String)
  deriving DecidableEq, Repr

/-- The call that plants such a call, its arguments typed, and what is
returned after it. -/
structure GenCall where
  types : List String
  op : String
  args : List (String × String)
  rt : String
  deriving DecidableEq, Repr

def genPrototype (r : Row) : Prototype :=
  ⟨r.name, r.params.map fun i => (paramType i, i)⟩

def genCall (r : Row) : Call :=
  ⟨r.name, r.params.map fun i => (r.form, i)⟩

def genFnCaller (r : Row) : GenCall :=
  ⟨r.params.map paramType, r.name, r.params.map fun i => (r.form, i),
    if r.endsBb = "" then "0" else r.endsBb⟩

/-- The functions' bodies are not decoding; writing one can fail. -/
def genFnContents (r : Row) : Except Failure Unit :=
  if (r.hasRc = "1" ∨ r.hasRc = "A") ∧ r.outRegs = "" ∧ r.outImplicitRegs = "" ∧
      r.action ≠ "" then
    .error (.fatal (r.name ++ ": No output regs, expected at least 1"))
  else
    .ok ()

/-! ## Reading the table -/

/-- What is kept of a row under its primary opcode. -/
structure Entry where
  name : String
  xOpcode : Option ℤ
  form : String
  callStr : Call
  hasOe : String
  genCallStr : GenCall

/-- The entries of each primary opcode. -/
abbrev Opcodes := AList fun _ : ℤ => List Entry

/-- A number, or the exception that the text is none. -/
def intOf (s : String) : Except Failure ℤ :=
  match int s with
  | some n => .ok n
  | none => .error .valueError

/-- The number in the XO cell, −1 for none. -/
def xOpcodeOf (xo : String) : Except Failure ℤ := if xo ≠ "" then intOf xo else .ok (-1)

def Row.entry (r : Row) (xOpcode : Option ℤ) : Entry :=
  ⟨r.name, xOpcode, r.form, genCall r, r.hasOe, genFnCaller r⟩

/-- One turn of the loop over the rows. -/
def parseRow (opcodes : Opcodes) (row : Row) : Except Failure Opcodes :=
  if row.form ≠ "" ∧ row.opcode ≠ "" then do
    let opcode ← intOf row.opcode
    let xOpcode ← xOpcodeOf row.xo
    let opcodes := if opcode ∈ opcodes then opcodes else opcodes.insert opcode []
    if row.subdec = "1" then
      return opcodes
    genFnContents row
    if xOpcode ≠ -1 then
      return opcodes.insert opcode
        ((opcodes.lookup opcode).getD [] ++ [row.entry (some xOpcode)])
    else
      -- the warning says that the row is ignored; it takes the place of the others
      return opcodes.insert opcode [row.entry none]
  else
    return opcodes

def parseCsvInput (rows : List Row) : Except Failure Opcodes := rows.foldlM parseRow ∅

/-! ## Writing the switches -/

/-- What stands behind a label of the outer switch. -/
inductive Body (α : Type) where
  /-- `call;` -/
  | call (a : α)
  /-- `if (form_XOPC(inst) == x) { call; }` -/
  | test (form : String) (x : ℤ) (a : α)
  /-- `switch (form_XOPC(inst)) { … default: break; }` -/
  | switch (form : String) (arms : List (Arm ℤ α))

/-- A text with a hole, filled. -/
def Body.fill {α β : Type} (f : α → β) : Body α → Body β
  | call a => call (f a)
  | test form x a => test form x (f a)
  | switch form arms => switch form (arms.map (Arm.map f))

/-- The switch over the primary opcode. -/
abbrev Program (α : Type) := List (Arm ℤ (Body α))

/-- The entries of an opcode by their extended opcodes; a number and the
absence of one do not compare. -/
def sortEntries (entries : List Entry) : Except Failure (List Entry) :=
  if 2 ≤ entries.length ∧ entries.any (·.xOpcode.isNone) then .error .typeError
  else .ok (entries.insertionSort fun a b => a.xOpcode.getD 0 ≤ b.xOpcode.getD 0)

/-- The arm of an entry among several of its opcode. -/
def genMinor (f : ℤ) (e : Entry) : Except Failure (Arm ℤ Entry) :=
  match e.xOpcode with
  | none => .error (.fatal ("Opcode " ++ toString f ++ " sub-instr " ++ e.name ++
      " with no x_opcode"))
  | some x =>
    -- the flag is a text: it equals no number
    if e.form = "X" ∨ (e.form = "XO" ∧ Value.str e.hasOe = Value.num 0) ∨ e.form = "XL" ∨
        e.form = "XFX" ∨ e.form = "XFL" ∨ e.form = "XX1" then
      .ok ⟨[x], e⟩
    else if e.form = "XO" then
      .ok ⟨[x, Int.lor x 0x200], e⟩
    else
      .error (.fatal ("Opcode " ++ toString f ++ " sub-instr " ++ e.name ++ " (op " ++
        toString x ++ ") form " ++ e.form ++ " unsupported!"))

/-- What stands behind an opcode's label. -/
def genMajor (f : ℤ) (entries : List Entry) : Except Failure (Body Entry) := do
  match ← sortEntries entries with
  | [e] =>
    match e.xOpcode with
    | none => return .call e
    | some x => return .test e.form x e
  | [] => .error .indexError
  | e :: es => return .switch e.form (← (e :: es).mapM (genMinor f))

/-- The labels in the order of the opcodes. -/
def genArms : List (Sigma fun _ : ℤ => List Entry) → Except Failure (Program Entry)
  | [] => return []
  | ⟨f, entries⟩ :: rest => do
    let body ← genMajor f entries
    return ⟨[f], body⟩ :: (← genArms rest)

def genDecodeSwitch (opcodes : Opcodes) : Except Failure (Program Call × Program GenCall) := do
  let arms ← genArms (opcodes.entries.insertionSort fun a b => a.1 ≤ b.1)
  return (arms.map (Arm.map (Body.fill Entry.callStr)),
    arms.map (Arm.map (Body.fill Entry.genCallStr)))

/-- **Both switches of a table.** -/
def generate (rows : List Row) : Except Failure (Program Call × Program GenCall) := do
  genDecodeSwitch (← parseCsvInput rows)

/-! ## Running the switches -/

/-- The accessors of an instruction word that the switches name: the
extended opcode of a form, and the fields of a form. -/
structure Accessors where
  xopc : String → BitVec 32 → Reg
  field : String → String → BitVec 32 → ℤ

namespace Body

variable {α : Type}

/-- An arm of the outer switch. -/
def run (acc : Accessors) (w : BitVec 32) : Body α → Landing α
  | call a => .arm a
  | test form x a => if ((acc.xopc form w).toNat : ℤ) = x then .arm a else .past
  | switch form arms => Arm.land arms ((acc.xopc form w).toNat : ℤ)

end Body

/-- The switch over a word's primary opcode. -/
def Program.run {α : Type} (acc : Accessors) (p : Program α) (w : BitVec 32) : Landing α :=
  (Arm.land p ((getOpcode w).toNat : ℤ)).bind (Body.run acc w)

/-- An instruction's function with the values of its arguments. -/
structure Invocation where
  op : String
  args : List ℤ
  deriving DecidableEq, Repr

/-- A planted call: of which function, of which types and values its
arguments, and what the generator returns. -/
structure Planted where
  types : List String
  op : String
  args : List ℤ
  rt : String
  deriving DecidableEq, Repr

/-- What decoding a word comes to. -/
inductive Decoded (α : Type) where
  | op (a : α)
  | unk (inst : BitVec 32)
  | illFormed
  deriving DecidableEq, Repr

/-- Behind the switch stands the undefined instruction. -/
def Decoded.ofLanding {α : Type} (w : BitVec 32) : Landing α → Decoded α
  | .arm a => op a
  | .past => unk w
  | .illFormed => illFormed

/-- The values of a call's arguments. -/
def Accessors.values (acc : Accessors) (args : List (String × String)) (w : BitVec 32) : List ℤ :=
  args.map fun a => acc.field a.1 a.2 w

/-- The interpreter's `decode`. -/
def decode (acc : Accessors) (p : Program Call) (w : BitVec 32) : Decoded Invocation :=
  .ofLanding w ((p.run acc w).map fun c => ⟨c.op, acc.values c.args w⟩)

/-- The block generator's `decodeInstrGenerateCall`. -/
def decodeInstrGenerateCall (acc : Accessors) (p : Program GenCall) (w : BitVec 32) :
    Decoded Planted :=
  .ofLanding w ((p.run acc w).map fun c => ⟨c.types, c.op, acc.values c.args w, c.rt⟩)

end MrIss.MkDecode
