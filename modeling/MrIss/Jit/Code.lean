import MrIss.Cpu.State
import MrIss.Lib.Arena
/-!
# The code of a block

A block is a prologue, a call for each instruction and an epilogue. The
generator writes a piece of code first and then asks whether there was
room for it: `Cursor.plant` is a piece written, with the question after it.

The decoder that chooses the calls is generated when the simulator is
built, from the table of instructions; here it is a parameter, a call of at
most six arguments for each word that it decodes.
-/

namespace MrIss

namespace Jit

open ByteFile

/-! ## Writing code -/

/-- Where code is being written: memory, `cur_codeptr`, `cur_codelen` and
`oom_abort`. -/
structure Cursor where
  mem : Arena.Mem
  codeptr : ℕ
  codelen : ℕ
  oomAbort : Bool

/-- A piece of code: `INST8` to `INST32`, then `CODE_FINAL`. -/
def Cursor.plant (c : Cursor) (code : Bytes) : Cursor :=
  let mem := Arena.write c.mem c.codeptr code
  -- the bytes are written by the time that they are found not to fit
  if c.codelen < code.length then { c with mem := mem, oomAbort := true }
  else
    { c with mem := mem, codelen := c.codelen - code.length, codeptr := c.codeptr + code.length }

/-- A 32-bit word as bytes. -/
def le32 (v : BitVec 32) : Bytes := toLE 4 v.toNat

@[simp] theorem length_le32 (v : BitVec 32) : (le32 v).length = 4 := length_toLE ..

/-- `get_rel_addr`: relative to the end of the five bytes of the call. -/
def getRelAddr (here : ℕ) (dest : BitVec 64) : BitVec 32 :=
  (dest - BitVec.ofNat 64 here - 5#64).setWidth 32

/-! ## Calls -/

/-- What the routines that generate calls have in common: what comes before
the `PPCInterpreter` is passed on, the moves of the arguments, and what
comes after the call. -/
def callCode (before moves after : Bytes) (addr : BitVec 64) (here : ℕ) : Bytes :=
  let code := before ++ [0x48#8, 0x89#8, 0xdf#8] ++ moves
  code ++ [0xe8#8] ++ le32 (getRelAddr (here + code.length) addr) ++ after

/-- `movl $arg, %esi`. -/
def movEsi (arg : Reg) : Bytes := 0xbe#8 :: le32 arg

/-- `movl $arg, %edx`. -/
def movEdx (arg : Reg) : Bytes := 0xba#8 :: le32 arg

/-- `movl $arg, %ecx`. -/
def movEcx (arg : Reg) : Bytes := 0xb9#8 :: le32 arg

/-- `movl $arg, %r8d`. -/
def movR8d (arg : Reg) : Bytes := 0x41#8 :: 0xb8#8 :: le32 arg

/-- `movl $arg, %r9d`. -/
def movR9d (arg : Reg) : Bytes := 0x41#8 :: 0xb9#8 :: le32 arg

def generateCall (addr : BitVec 64) : ℕ → Bytes := callCode [] [] [] addr

def generateCallInt (addr : BitVec 64) (arg₁ : Reg) : ℕ → Bytes :=
  callCode [] (movEsi arg₁) [] addr

def generateCallIntInt (addr : BitVec 64) (arg₁ arg₂ : Reg) : ℕ → Bytes :=
  callCode [] (movEsi arg₁ ++ movEdx arg₂) [] addr

def generateCallIntIntInt (addr : BitVec 64) (arg₁ arg₂ arg₃ : Reg) : ℕ → Bytes :=
  callCode [] (movEsi arg₁ ++ movEdx arg₂ ++ movEcx arg₃) [] addr

def generateCallIntIntIntInt (addr : BitVec 64) (arg₁ arg₂ arg₃ arg₄ : Reg) : ℕ → Bytes :=
  callCode [] (movEsi arg₁ ++ movEdx arg₂ ++ movEcx arg₃ ++ movR8d arg₄) [] addr

def generateCallIntIntIntIntInt (addr : BitVec 64) (arg₁ arg₂ arg₃ arg₄ arg₅ : Reg) :
    ℕ → Bytes :=
  callCode [] (movEsi arg₁ ++ movEdx arg₂ ++ movEcx arg₃ ++ movR8d arg₄ ++ movR9d arg₅) [] addr

/-- The last argument goes on the stack: `subq $16, %rsp`, `movq $arg₆,
(%rsp)` before, `addq $16, %rsp` after. -/
def generateCallIntIntIntIntIntInt (addr : BitVec 64) (arg₁ arg₂ arg₃ arg₄ arg₅ arg₆ : Reg) :
    ℕ → Bytes :=
  callCode (le32 0x10ec8348 ++ le32 0x2404c748 ++ le32 arg₆)
    (movEsi arg₁ ++ movEdx arg₂ ++ movEcx arg₃ ++ movR8d arg₄ ++ movR9d arg₅)
    (le32 0x10c48348) addr

/-- A call that the decoder generates for a word. -/
structure OpCall where
  addr : BitVec 64
  args : List Reg
  /-- There is no routine that generates a longer call. -/
  few : args.length ≤ 6
  /-- What the decoder returns: not zero where the block must end. -/
  ends : ℕ

/-- The code of a call, by its number of arguments. -/
def OpCall.code (o : OpCall) : ℕ → Bytes :=
  match o with
  | ⟨addr, [], _, _⟩ => generateCall addr
  | ⟨addr, [a], _, _⟩ => generateCallInt addr a
  | ⟨addr, [a, b], _, _⟩ => generateCallIntInt addr a b
  | ⟨addr, [a, b, c], _, _⟩ => generateCallIntIntInt addr a b c
  | ⟨addr, [a, b, c, d], _, _⟩ => generateCallIntIntIntInt addr a b c d
  | ⟨addr, [a, b, c, d, e], _, _⟩ => generateCallIntIntIntIntInt addr a b c d e
  | ⟨addr, [a, b, c, d, e, f], _, _⟩ => generateCallIntIntIntIntIntInt addr a b c d e f
  | ⟨_, _ :: _ :: _ :: _ :: _ :: _ :: _ :: _, few, _⟩ =>
    absurd few (by simp only [List.length_cons]; omega)

/-- The longest call. -/
def maxCall : ℕ := 51

/-- A call takes up to 51 bytes. -/
theorem OpCall.length_code (o : OpCall) (here : ℕ) : (o.code here).length ≤ maxCall := by
  unfold OpCall.code maxCall
  split
  case h_8 addr a b c d e f g l few n => exact absurd few (by simp only [List.length_cons]; omega)
  all_goals
    simp [generateCall, generateCallInt, generateCallIntInt, generateCallIntIntInt,
      generateCallIntIntIntInt, generateCallIntIntIntIntInt, generateCallIntIntIntIntIntInt,
      callCode, movEsi, movEdx, movEcx, movR8d, movR9d]

/-- The generated decoder, and where `PPCInterpreter::op_unk` is. -/
structure Decoder where
  table : BitVec 32 → Option OpCall
  opUnk : BitVec 64

/-- The call for a word: `op_unk` raises the exception for one that is not
decoded, and ends the block. -/
def Decoder.opCall (d : Decoder) (inst : BitVec 32) : OpCall :=
  (d.table inst).getD ⟨d.opUnk, [inst], by simp, 2⟩

/-- `decodeInstrGenerateCall`, with what it returns. -/
def Decoder.decodeInstrGenerateCall (d : Decoder) (inst : BitVec 32) (c : Cursor) : Cursor × ℕ :=
  (c.plant ((d.opCall inst).code c.codeptr), (d.opCall inst).ends)

/-! ## Before and after the calls -/

/-- What `startBlock` writes: `pushq %rbp`, `movq %rsp, %rbp`, `pushq %r12`,
`pushq %rbx`, `movq %rdi, %rbx`. -/
def prologue : Bytes :=
  [0x55#8, 0x48#8, 0x89#8, 0xe5#8, 0x41#8, 0x54#8, 0x53#8, 0x48#8, 0x89#8, 0xfb#8]

/-- What `finaliseBlock` writes: `movl $nr, %eax`, `popq %rbx`, `popq %r12`,
`popq %rbp`, `retq`. -/
def epilogue (nr : ℕ) : Bytes :=
  0xb8#8 :: le32 (BitVec.ofNat 32 nr) ++ [0x5b#8, 0x41#8, 0x5c#8, 0x5d#8, 0xc3#8]

def startBlock (c : Cursor) : Cursor := c.plant prologue

def finaliseBlock (nr : ℕ) (c : Cursor) : Cursor := c.plant (epilogue nr)

@[simp] theorem length_prologue : prologue.length = 10 := rfl

@[simp] theorem length_epilogue (nr : ℕ) : (epilogue nr).length = 10 := by
  simp [epilogue]

/-- The calls for words in a row, from an address on. -/
def Decoder.calls (d : Decoder) : ℕ → List (BitVec 32) → Bytes
  | _, [] => []
  | here, inst :: insts =>
    let code := (d.opCall inst).code here
    code ++ d.calls (here + code.length) insts

variable {d : Decoder} {insts : List (BitVec 32)} {inst : BitVec 32}

/-- One more word. -/
theorem Decoder.calls_concat (here : ℕ) : d.calls here (insts ++ [inst]) =
    d.calls here insts ++ (d.opCall inst).code (here + (d.calls here insts).length) := by
  induction insts generalizing here with
  | nil => simp [Decoder.calls]
  | cons i insts ih =>
    rw [List.cons_append, Decoder.calls, ih, Decoder.calls, List.append_assoc,
      List.length_append, Nat.add_assoc]

/-! ## What has been written -/

variable {c : Cursor} {m : Arena.Mem} {start stop : ℕ} {bs code : Bytes}

/-- Code from `start` on, with the room up to `stop` left for more. What has
been written beyond is a piece that did not fit. -/
structure Cursor.Built (m : Arena.Mem) (start stop : ℕ) (bs : Bytes) (c : Cursor) : Prop where
  codeptr : c.codeptr = start + bs.length
  room : c.codeptr + c.codelen = stop
  code : Arena.read c.mem start bs.length = bs
  within : Arena.Within start (stop + maxCall) m c.mem

namespace Cursor.Built

/-- Nothing yet. -/
theorem nil {codelen : ℕ} (oomAbort : Bool) :
    Cursor.Built m start (start + codelen) [] ⟨m, start, codelen, oomAbort⟩ :=
  ⟨rfl, rfl, rfl, .refl⟩

/-- A piece changes memory between the cursor and its end. -/
theorem within_plant (h : c.Built m start stop bs) (hcode : code.length ≤ maxCall) :
    Arena.Within start (stop + maxCall) m (c.plant code).mem := by
  have hptr := h.codeptr
  have hroom := h.room
  have hwrite : Arena.Within start (stop + maxCall) c.mem (Arena.write c.mem c.codeptr code) :=
    .write (by omega) (by omega)
  unfold Cursor.plant
  split <;> exact h.within.trans hwrite

/-- What is planted stands after what was there, whether it fits or not. -/
theorem read_plant (h : c.Built m start stop bs) :
    Arena.read (c.plant code).mem start (bs ++ code).length = bs ++ code := by
  have hold : Arena.read (Arena.write c.mem c.codeptr code) start bs.length = bs := by
    rw [Arena.read_write_apart (.inl (by rw [h.codeptr])), h.code]
  have hnew : Arena.read (Arena.write c.mem c.codeptr code) (start + bs.length) code.length =
      code := by
    rw [← h.codeptr]
    exact Arena.read_write
  unfold Cursor.plant
  rw [List.length_append, Arena.read_add]
  split <;> rw [hold, hnew]

/-- A piece that fits is part of the code. -/
theorem plant (h : c.Built m start stop bs) (hcode : code.length ≤ maxCall)
    (hfit : code.length ≤ c.codelen) : (c.plant code).Built m start stop (bs ++ code) := by
  have hroom := h.room
  have hplant : c.plant code = ⟨Arena.write c.mem c.codeptr code, c.codeptr + code.length,
      c.codelen - code.length, c.oomAbort⟩ := if_neg (by omega)
  refine ⟨?_, ?_, h.read_plant, h.within_plant hcode⟩
  · rw [hplant, h.codeptr, List.length_append, Nat.add_assoc]
  · simp only [hplant]
    omega

end Cursor.Built

/-- There was room unless there is none. -/
theorem Cursor.fit_of_plant (h : (c.plant code).oomAbort = false) :
    code.length ≤ c.codelen ∧ c.oomAbort = false := by
  by_cases hlt : c.codelen < code.length
  · rw [Cursor.plant, if_pos hlt] at h
    cases h
  · rw [Cursor.plant, if_neg hlt] at h
    exact ⟨by omega, h⟩

/-- Where there is room, nothing runs out. -/
theorem Cursor.plant_of_fit (h : code.length ≤ c.codelen) :
    (c.plant code).oomAbort = c.oomAbort ∧
      (c.plant code).codelen = c.codelen - code.length := by
  rw [Cursor.plant, if_neg (by omega)]
  exact ⟨rfl, rfl⟩

end Jit

end MrIss
