import MrIss.Lib.Arena
/-!
# A processor of 64 bits

A few instructions of the x86-64 processor: their bytes, and what they do to
registers and memory. Flags are left out, as none of these instructions
reads one. Functions that are called but whose code is not looked at are
given by what a call of one comes to: it returns, or it never does, as
where it jumps out of its callers.
-/

namespace X64

open ByteFile Arena

/-! ## Instructions -/

/-- The general-purpose registers. -/
inductive Reg where
  | rax
  | rcx
  | rdx
  | rbx
  | rsp
  | rbp
  | rsi
  | rdi
  | r8
  | r9
  | r10
  | r11
  | r12
  | r13
  | r14
  | r15
  deriving DecidableEq, Repr

namespace Reg

/-- The registers by their numbers. -/
def all : List Reg :=
  [rax, rcx, rdx, rbx, rsp, rbp, rsi, rdi, r8, r9, r10, r11, r12, r13, r14, r15]

def ofNumber (n : ℕ) : Reg := all.getD n rax

def number (r : Reg) : ℕ := all.idxOf r

end Reg

/-- The instructions. -/
inductive Inst where
  /-- `pushq %r`. -/
  | push (r : Reg)
  /-- `popq %r`. -/
  | pop (r : Reg)
  /-- `movq %src, %dst`. -/
  | mov (dst src : Reg)
  /-- `movl $v, %dst`. -/
  | movImm (dst : Reg) (v : BitVec 32)
  /-- `movq $v, (%rsp)`. -/
  | storeImm (v : BitVec 32)
  /-- `subq $n, %rsp`. -/
  | subRsp (n : BitVec 8)
  /-- `addq $n, %rsp`. -/
  | addRsp (n : BitVec 8)
  /-- `callq`, to an address relative to the next instruction. -/
  | call (rel : BitVec 32)
  | ret
  deriving DecidableEq, Repr

/-! ### Encoding -/

/-- The prefix of an instruction whose one register is among the upper
eight. -/
def rexB (r : Reg) : Bytes := if 8 ≤ r.number then [0x41#8] else []

/-- An opcode with a register in its low bits. -/
def plusReg (op : ℕ) (r : Reg) : BitVec 8 := BitVec.ofNat 8 (op + r.number % 8)

/-- A 32-bit immediate. -/
def imm (v : BitVec 32) : Bytes := toLE 4 v.toNat

/-- The bytes of an instruction. -/
def Inst.encode : Inst → Bytes
  | push r => rexB r ++ [plusReg 0x50 r]
  | pop r => rexB r ++ [plusReg 0x58 r]
  | mov dst src => [BitVec.ofNat 8 (0x48 + src.number / 8 * 4 + dst.number / 8), 0x89#8,
      BitVec.ofNat 8 (0xc0 + src.number % 8 * 8 + dst.number % 8)]
  | movImm dst v => rexB dst ++ plusReg 0xb8 dst :: imm v
  | storeImm v => [0x48#8, 0xc7#8, 0x04#8, 0x24#8] ++ imm v
  | subRsp n => [0x48#8, 0x83#8, 0xec#8, n]
  | addRsp n => [0x48#8, 0x83#8, 0xc4#8, n]
  | call rel => 0xe8#8 :: imm rel
  | ret => [0xc3#8]

/-- The bytes of instructions in a row. -/
def encodeAll (is : List Inst) : Bytes := is.flatMap Inst.encode

/-! ### Decoding -/

/-- The immediate that bytes begin with. -/
def immOf (bs : Bytes) : BitVec 32 := BitVec.ofNat 32 (ofLE (bs.take 4))

/-- An instruction whose opcode has a register in its low bits; `ext` is what
the prefix adds to its number. -/
def decodePlusReg (b : BitVec 8) (ext : ℕ) (bs : Bytes) : Option (Inst × ℕ) :=
  let r := Reg.ofNumber (ext + b.toNat % 8)
  if b.toNat / 8 = 0xa then some (.push r, 1)
  else if b.toNat / 8 = 0xb then some (.pop r, 1)
  else if b.toNat / 8 = 0x17 then some (.movImm r (immOf bs), 5)
  else none

/-- An instruction of 64-bit operands; `rex` has the low bits of its
prefix. -/
def decodeRexW (rex : ℕ) : Bytes → Option (Inst × ℕ)
  | op :: modrm :: bs =>
    if op = 0x89#8 ∧ 0xc0 ≤ modrm.toNat then
      some (.mov (.ofNumber (rex % 2 * 8 + modrm.toNat % 8))
        (.ofNumber (rex / 4 * 8 + modrm.toNat / 8 % 8)), 3)
    else if rex = 0 ∧ op = 0x83#8 ∧ modrm = 0xec#8 then some (.subRsp (bs.headD 0), 4)
    else if rex = 0 ∧ op = 0x83#8 ∧ modrm = 0xc4#8 then some (.addRsp (bs.headD 0), 4)
    else if rex = 0 ∧ op = 0xc7#8 ∧ modrm = 0x04#8 ∧ bs.head? = some 0x24#8 then
      some (.storeImm (immOf bs.tail), 8)
    else none
  | _ => none

/-- The instruction that bytes begin with, and its length. -/
def decode : Bytes → Option (Inst × ℕ)
  | [] => none
  | b :: bs =>
    if b = 0xe8#8 then some (.call (immOf bs), 5)
    else if b = 0xc3#8 then some (.ret, 1)
    else if b.toNat / 8 = 9 then decodeRexW (b.toNat % 8) bs
    else if b = 0x41#8 then
      match bs with
      | [] => none
      | op :: bs => (decodePlusReg op 8 bs).map fun x => (x.1, x.2 + 1)
    else decodePlusReg b 0 bs

@[simp] theorem length_imm (v : BitVec 32) : (imm v).length = 4 := length_toLE ..

@[simp] theorem immOf_imm (v : BitVec 32) (bs : Bytes) : immOf (imm v ++ bs) = v := by
  have hlen : (imm v).length = 4 := length_imm v
  rw [immOf, ← hlen, List.take_left, imm, ofLE_toLE (by have := v.isLt; omega),
    BitVec.ofNat_toNat, BitVec.setWidth_eq]

/-- **Instructions are decoded as they were encoded,** whatever follows. -/
theorem decode_encode (i : Inst) (bs : Bytes) :
    decode (i.encode ++ bs) = some (i, i.encode.length) := by
  cases i with
  | push r => cases r <;> rfl
  | pop r => cases r <;> rfl
  | mov dst src => cases dst <;> cases src <;> rfl
  | movImm dst v =>
    have himm : immOf (imm v ++ bs) = v := immOf_imm v bs
    have hlen : (imm v).length = 4 := length_imm v
    cases dst <;>
    simp [Inst.encode, rexB, plusReg, Reg.number, Reg.all, decode, decodePlusReg, Reg.ofNumber,
      himm, hlen]
  | storeImm v =>
    have himm : immOf (imm v ++ bs) = v := immOf_imm v bs
    simp [Inst.encode, decode, decodeRexW, himm]
  | subRsp n => rfl
  | addRsp n => rfl
  | call rel =>
    have himm : immOf (imm rel ++ bs) = rel := immOf_imm rel bs
    simp [Inst.encode, decode, himm]
  | ret => rfl

theorem length_encode_le (i : Inst) : i.encode.length ≤ 15 := by
  cases i with
  | push r | pop r => cases r <;> decide
  | movImm dst v =>
    have hlen : (imm v).length = 4 := length_imm v
    cases dst <;> simp [Inst.encode, rexB, Reg.number, Reg.all, hlen]
  | mov dst src => simp [Inst.encode]
  | storeImm v | call v => simp [Inst.encode]
  | subRsp n | addRsp n => simp [Inst.encode]
  | ret => decide

theorem encodeAll_cons (i : Inst) (is : List Inst) :
    encodeAll (i :: is) = i.encode ++ encodeAll is := rfl

theorem encodeAll_append (is js : List Inst) :
    encodeAll (is ++ js) = encodeAll is ++ encodeAll js := List.flatMap_append

/-! ## Numbers in memory -/

/-- The bytes of a number in two pieces. -/
theorem ofLE_append (xs ys : Bytes) : ofLE (xs ++ ys) = ofLE xs + 256 ^ xs.length * ofLE ys := by
  induction xs with
  | nil => simp [ofLE]
  | cons x xs ih =>
    rw [List.cons_append, ofLE, ih, ofLE, List.length_cons, Nat.pow_succ', Nat.mul_add,
      Nat.add_assoc, Nat.mul_assoc]

/-- The low half of a number of eight bytes is in the first four. -/
theorem peek_low (m : Mem) (a : ℕ) :
    BitVec.ofNat 32 (peek m a 4) = (BitVec.ofNat 64 (peek m a 8)).setWidth 32 := by
  have hread : read m a 8 = read m a 4 ++ read m (a + 4) 4 :=
    read_add (m := m) (a := a) (n := 4) (k := 4)
  have hsplit : peek m a 8 = peek m a 4 + 2 ^ 32 * peek m (a + 4) 4 := by
    rw [peek, hread, ofLE_append, length_read]
    rfl
  refine BitVec.eq_of_toNat_eq ?_
  simp only [BitVec.toNat_ofNat, BitVec.toNat_setWidth]
  omega

/-! ## The processor -/

/-- Registers and memory. -/
structure State where
  regs : Reg → BitVec 64
  rip : BitVec 64
  mem : Mem

namespace State

variable (s : State)

/-- An assignment to a register. -/
def set (r : Reg) (v : BitVec 64) : State := { s with regs := Function.update s.regs r v }

/-- The eight bytes at the stack pointer. -/
def top : BitVec 64 := BitVec.ofNat 64 (peek s.mem (s.regs .rsp).toNat 8)

def push (v : BitVec 64) : State :=
  let sp := s.regs .rsp - 8
  { s.set .rsp sp with mem := poke s.mem sp.toNat 8 v.toNat }

@[simp] theorem set_self (r : Reg) (v : BitVec 64) : (s.set r v).regs r = v :=
  Function.update_self ..

@[simp] theorem set_of_ne {q r : Reg} (h : q ≠ r) (v : BitVec 64) :
    (s.set r v).regs q = s.regs q := Function.update_of_ne h _ _

@[simp] theorem set_mem (r : Reg) (v : BitVec 64) : (s.set r v).mem = s.mem := rfl

@[simp] theorem set_rip (r : Reg) (v : BitVec 64) : (s.set r v).rip = s.rip := rfl

section

variable (v : BitVec 64)

@[simp] theorem push_rsp : (s.push v).regs .rsp = s.regs .rsp - 8 :=
  set_self s .rsp (s.regs .rsp - 8)

theorem push_of_ne {r : Reg} (h : r ≠ .rsp) : (s.push v).regs r = s.regs r :=
  set_of_ne s h (s.regs .rsp - 8)

theorem toNat_push_rsp (h : 8 ≤ (s.regs .rsp).toNat) :
    ((s.push v).regs .rsp).toNat = (s.regs .rsp).toNat - 8 := by
  rw [push_rsp, BitVec.toNat_sub_of_le h]
  rfl

/-- **What is pushed is on top.** -/
theorem top_push : (s.push v).top = v := by
  have hpeek : peek (s.push v).mem ((s.push v).regs .rsp).toNat 8 = v.toNat := by
    rw [push_rsp]
    exact peek_poke (by have := v.isLt; omega)
  rw [top, hpeek, BitVec.ofNat_toNat, BitVec.setWidth_eq]

/-- A push writes below the stack pointer. -/
theorem within_push (h : 8 ≤ (s.regs .rsp).toNat) :
    Within ((s.regs .rsp).toNat - 8) (s.regs .rsp).toNat s.mem (s.push v).mem := by
  have hsp := s.toNat_push_rsp v h
  rw [push_rsp] at hsp
  exact .poke (by rw [hsp]) (by rw [hsp]; omega)

end

/-- A value has been pushed to an address. -/
structure Pushed (a : ℕ) (v : BitVec 64) (s t : State) : Prop where
  rsp : (t.regs .rsp).toNat = a
  others : ∀ r ≠ .rsp, t.regs r = s.regs r
  peek : Arena.peek t.mem a 8 = v.toNat
  within : Within a (a + 8) s.mem t.mem

theorem pushed {a : ℕ} (rip v : BitVec 64) (h : (s.regs .rsp).toNat = a + 8) :
    Pushed a v s ({ s with rip := rip }.push v) := by
  have hsp : ((State.push { s with rip := rip } v).regs .rsp).toNat = a := by
    rw [toNat_push_rsp _ _ (by change 8 ≤ (s.regs .rsp).toNat; omega)]
    change (s.regs .rsp).toNat - 8 = a
    omega
  refine ⟨hsp, fun r hr => push_of_ne _ v hr, ?_, ?_⟩
  · rw [push_rsp] at hsp
    subst hsp
    exact peek_poke (by have := v.isLt; omega)
  · have hwithin := within_push { s with rip := rip } v (by change 8 ≤ (s.regs .rsp).toNat; omega)
    exact hwithin.mono (by change a ≤ (s.regs .rsp).toNat - 8; omega)
      (by change (s.regs .rsp).toNat ≤ a + 8; omega)

/-- What an instruction does, `rip` being that of the next one. -/
def exec : Inst → State
  | .push r => s.push (s.regs r)
  | .pop r => (s.set .rsp (s.regs .rsp + 8)).set r s.top
  | .mov dst src => s.set dst (s.regs src)
  | .movImm dst v => s.set dst (v.setWidth 64)
  | .storeImm v => { s with mem := poke s.mem (s.regs .rsp).toNat 8 (v.signExtend 64).toNat }
  | .subRsp n => s.set .rsp (s.regs .rsp - n.signExtend 64)
  | .addRsp n => s.set .rsp (s.regs .rsp + n.signExtend 64)
  | .call rel => { s.push s.rip with rip := s.rip + rel.signExtend 64 }
  | .ret => { s.set .rsp (s.regs .rsp + 8) with rip := s.top }

/-- A value has been popped from an address into a register. -/
structure Popped (a : ℕ) (r : Reg) (v : BitVec 64) (t : State) : Prop where
  rsp : (t.regs .rsp).toNat = a + 8
  value : t.regs r = v
  others : ∀ q, q ≠ r → q ≠ .rsp → t.regs q = s.regs q
  mem : t.mem = s.mem

theorem popped {a : ℕ} {r : Reg} {v : BitVec 64} (rip : BitVec 64) (hr : r ≠ .rsp)
    (hsp : (s.regs .rsp).toNat = a) (hfits : a + 8 < 2 ^ 64) (hpeek : peek s.mem a 8 = v.toNat) :
    Popped s a r v ({ s with rip := rip }.exec (.pop r)) := by
  refine ⟨?_, ?_, fun q hq hq' => ?_, rfl⟩
  · rw [exec, set_of_ne _ hr.symm, set_self]
    change (s.regs .rsp + 8#64).toNat = a + 8
    rw [BitVec.toNat_add, hsp]
    exact Nat.mod_eq_of_lt hfits
  · rw [exec, set_self]
    change BitVec.ofNat 64 (peek s.mem (s.regs .rsp).toNat 8) = v
    rw [hsp, hpeek, BitVec.ofNat_toNat, BitVec.setWidth_eq]
  · rw [exec, set_of_ne _ hq, set_of_ne _ hq']

end State

/-! ## Functions outside -/

variable {γ ρ : Type}

/-- What a call of a function comes to: it returns, or it leaves its callers
with a result. -/
inductive Ret (γ ρ : Type) where
  | back (s : State) (g : γ)
  | left (r : ρ)

/-- The functions outside, by their addresses: each is given the processor
as it is entered, and what else it works on. -/
abbrev Outside (γ ρ : Type) : Type := BitVec 64 → Option (State → γ → Ret γ ρ)

/-- Where a run has come to. -/
inductive Run (γ ρ : Type) where
  | at (s : State) (g : γ)
  | left (r : ρ)
  /-- At bytes that are none of the instructions. -/
  | stuck

/-- What a call of an address comes to. -/
def Outside.enter (out : Outside γ ρ) (s : State) (g : γ) : Run γ ρ :=
  match out s.rip with
  | none => .at s g
  | some f =>
    match f s g with
    | .back t g' => .at t g'
    | .left r => .left r

/-- One instruction, with the call of a function outside. -/
def step (out : Outside γ ρ) (s : State) (g : γ) : Run γ ρ :=
  match decode (read s.mem s.rip.toNat 15) with
  | none => .stuck
  | some (i, n) =>
    let t := { s with rip := s.rip + BitVec.ofNat 64 n }.exec i
    match i with
    | .call _ => out.enter t g
    | _ => .at t g

/-- So many instructions. -/
def run (out : Outside γ ρ) : ℕ → State → γ → Run γ ρ
  | 0, s, g => .at s g
  | n + 1, s, g =>
    match step out s g with
    | .at t g' => run out n t g'
    | r => r

/-- The run from one place comes to another. -/
def Reaches (out : Outside γ ρ) (s : State) (g : γ) (r : Run γ ρ) : Prop :=
  ∃ n, run out n s g = r

section

variable {out : Outside γ ρ} {s t : State} {g g' : γ} {r : Run γ ρ}

theorem Reaches.refl : Reaches out s g (.at s g) := ⟨0, rfl⟩

/-- **Runs follow one another.** -/
theorem Reaches.trans (h : Reaches out s g (.at t g')) (h' : Reaches out t g' r) :
    Reaches out s g r := by
  obtain ⟨n, hn⟩ := h
  obtain ⟨k, hk⟩ := h'
  refine ⟨n + k, ?_⟩
  induction n generalizing s g with
  | zero =>
    cases hn
    rw [Nat.zero_add]
    exact hk
  | succ n ih =>
    rw [Nat.add_right_comm]
    rw [run] at hn ⊢
    cases hs : step out s g with
    | «at» u g'' =>
      rw [hs] at hn
      exact ih hn
    | left x => rw [hs] at hn; cases hn
    | stuck => rw [hs] at hn; cases hn

theorem Reaches.step (h : step out s g = .at t g') (h' : Reaches out t g' r) :
    Reaches out s g r := by
  obtain ⟨n, hn⟩ := h'
  exact ⟨n + 1, by rw [run, h]; exact hn⟩

end

/-! ## Instructions in a row -/

/-- The instructions stand at an address. -/
def CodeAt (m : Mem) (a : BitVec 64) (is : List Inst) : Prop :=
  read m a.toNat (encodeAll is).length = encodeAll is

/-- The address after instructions at an address. -/
def after (a : BitVec 64) (is : List Inst) : BitVec 64 := a + BitVec.ofNat 64 (encodeAll is).length

section

variable {m : Mem} {a : BitVec 64} {i : Inst} {is js : List Inst}

theorem after_append : after a (is ++ js) = after (after a is) js := by
  rw [after, after, after, encodeAll_append, List.length_append, BitVec.ofNat_add,
    BitVec.add_assoc]

theorem toNat_after (h : a.toNat + (encodeAll is).length < 2 ^ 64) :
    (after a is).toNat = a.toNat + (encodeAll is).length := by
  rw [after, BitVec.toNat_add, BitVec.toNat_ofNat, Nat.mod_eq_of_lt (a := (encodeAll is).length)
    (by omega), Nat.mod_eq_of_lt h]

/-- Code in a row, where addresses do not wrap. -/
theorem codeAt_append (h : CodeAt m a (is ++ js))
    (hfits : a.toNat + (encodeAll is).length < 2 ^ 64) :
    CodeAt m a is ∧ CodeAt m (after a is) js := by
  rw [CodeAt, encodeAll_append, List.length_append, read_add] at h
  obtain ⟨hfirst, hrest⟩ := List.append_inj h (by rw [length_read])
  refine ⟨hfirst, ?_⟩
  rw [CodeAt, toNat_after hfits]
  exact hrest

/-- Code is there as long as its bytes are. -/
theorem CodeAt.of_kept {m' : Mem} (h : CodeAt m a is)
    (hkept : ∀ x, a.toNat ≤ x → x < a.toNat + (encodeAll is).length → m' x = m x) :
    CodeAt m' a is := (read_congr hkept).trans h

/-- **The instruction at `rip` is the one that is executed.** -/
theorem step_eq {out : Outside γ ρ} {s : State} {g : γ} (h : CodeAt s.mem s.rip [i]) :
    step out s g =
      let t := { s with rip := after s.rip [i] }.exec i
      match i with
      | .call _ => out.enter t g
      | _ => .at t g := by
  have hcode : read s.mem s.rip.toNat i.encode.length = i.encode := by
    have hone : encodeAll [i] = i.encode := List.append_nil _
    rw [CodeAt, hone] at h
    exact h
  have hread : read s.mem s.rip.toNat 15 =
      i.encode ++ read s.mem (s.rip.toNat + i.encode.length) (15 - i.encode.length) := by
    have hle := length_encode_le i
    have hsplit : 15 = i.encode.length + (15 - i.encode.length) := by omega
    rw [hsplit, read_add, hcode, ← hsplit]
  have hafter : after s.rip [i] = s.rip + BitVec.ofNat 64 i.encode.length := by
    rw [after, encodeAll_cons, List.length_append]
    rfl
  rw [step, hread, decode_encode, hafter]
  cases i <;> rfl

end

/-! ### Straight code -/

/-- All but calls and returns. -/
def Inst.straight : Inst → Bool
  | call _ | ret => false
  | _ => true

/-- The instructions that write nothing but registers. -/
def Inst.regsOnly : Inst → Bool
  | pop _ | mov .. | movImm .. | subRsp _ | addRsp _ => true
  | _ => false

/-- An instruction, with `rip` moved on to the next. -/
def State.advance (s : State) (i : Inst) : State := { s with rip := after s.rip [i] }.exec i

/-- Instructions one after another. -/
def State.execAll (s : State) : List Inst → State
  | [] => s
  | i :: is => (s.advance i).execAll is

section

variable {s : State} {i : Inst} {is : List Inst}

theorem exec_rip (h : i.straight = true) : (s.exec i).rip = s.rip := by
  cases i with
  | push | pop | mov | movImm | storeImm | subRsp | addRsp => rfl
  | call | ret => cases h

/-- **Straight code runs to its end,** if it leaves its own bytes alone. -/
theorem reaches_straight {γ ρ : Type} (out : Outside γ ρ) (g : γ) {m : Mem}
    (h : ∀ i ∈ is, i.straight = true) (hcode : CodeAt m s.rip is)
    (hfits : s.rip.toNat + (encodeAll is).length < 2 ^ 64)
    (hkept : ∀ pre, pre <+: is → ∀ x, s.rip.toNat ≤ x →
      x < s.rip.toNat + (encodeAll is).length → (s.execAll pre).mem x = m x) :
    Reaches out s g (.at (s.execAll is) g) ∧ (s.execAll is).rip = after s.rip is := by
  induction is generalizing s with
  | nil => exact ⟨.refl, by simp [State.execAll, after, encodeAll]⟩
  | cons i is ih =>
    rw [List.forall_mem_cons] at h
    rw [encodeAll_cons, List.length_append] at hfits hkept
    have hone : (encodeAll [i]).length = i.encode.length := by simp [encodeAll]
    have hcode : CodeAt m s.rip ([i] ++ is) := hcode
    obtain ⟨hfirst, hrest⟩ := codeAt_append hcode (by omega)
    have hafter : (after s.rip [i]).toNat = s.rip.toNat + i.encode.length := by
      rw [toNat_after (by omega), hone]
    have hrip : (s.advance i).rip = after s.rip [i] := exec_rip h.1
    have hfirst' : CodeAt s.mem s.rip [i] :=
      hfirst.of_kept fun x hlo hhi => hkept [] (List.nil_prefix) x hlo (by omega)
    have hstep : step out s g = .at (s.advance i) g := by
      rw [step_eq hfirst']
      cases i with
      | push | pop | mov | movImm | storeImm | subRsp | addRsp => rfl
      | call | ret => cases h.1
    obtain ⟨hreach, hend⟩ := ih (s := s.advance i) h.2 (by rw [hrip]; exact hrest)
      (by rw [hrip]; omega)
      (fun pre hpre x hlo hhi => by
        rw [hrip] at hlo hhi
        exact hkept (i :: pre) (List.cons_prefix_cons.mpr ⟨rfl, hpre⟩) x (by omega) (by omega))
    exact ⟨.step hstep hreach, by rw [State.execAll, hend, hrip, ← after_append]; rfl⟩

theorem exec_regsOnly (h : i.regsOnly = true) : (s.exec i).mem = s.mem ∧ i.straight = true := by
  cases i with
  | pop | mov | movImm | subRsp | addRsp => exact ⟨rfl, rfl⟩
  | push | storeImm | call | ret => cases h

theorem execAll_regsOnly (h : ∀ i ∈ is, i.regsOnly = true) : (s.execAll is).mem = s.mem := by
  induction is generalizing s with
  | nil => rfl
  | cons i is ih =>
    rw [List.forall_mem_cons] at h
    exact (ih h.2).trans (exec_regsOnly h.1).1

/-- Instructions that write registers alone run to their end. -/
theorem reaches_regsOnly {γ ρ : Type} (out : Outside γ ρ) (g : γ)
    (h : ∀ i ∈ is, i.regsOnly = true) (hcode : CodeAt s.mem s.rip is)
    (hfits : s.rip.toNat + (encodeAll is).length < 2 ^ 64) :
    Reaches out s g (.at (s.execAll is) g) ∧ (s.execAll is).rip = after s.rip is := by
  refine reaches_straight out g (fun i hi => (exec_regsOnly (s := s) (h i hi)).2) hcode hfits
    fun pre hpre x _ _ => ?_
  rw [execAll_regsOnly fun i hi => h i (hpre.subset hi)]

end

/-- **A return** takes its address from the stack. -/
theorem advance_ret (s : State) : (s.advance .ret).rip = s.top ∧
    (s.advance .ret).regs = (s.set .rsp (s.regs .rsp + 8)).regs ∧
    (s.advance .ret).mem = s.mem := ⟨rfl, rfl, rfl⟩

/-! ## The calling convention -/

/-- The registers that a function gives back as it found them. -/
def calleeSaved : List Reg := [.rbx, .rbp, .r12, .r13, .r14, .r15]

/-- The registers that arguments are passed in. -/
def argRegs : List Reg := [.rdi, .rsi, .rdx, .rcx, .r8, .r9]

/-- An argument of 32 bits as a function finds it when it is entered: in a
register's low half, or on the stack behind the return address. -/
def State.arg (s : State) (k : ℕ) : BitVec 32 :=
  match argRegs[k]? with
  | some r => (s.regs r).setWidth 32
  | none => BitVec.ofNat 32 (peek s.mem ((s.regs .rsp).toNat + 8 + 8 * (k - 6)) 4)

/-- A function that was entered in one state has returned in another. What
is not its own, it has left alone. -/
structure Returned (keep : ℕ → Prop) (s t : State) : Prop where
  rip : t.rip = s.top
  rsp : t.regs .rsp = s.regs .rsp + 8
  saved : ∀ r ∈ calleeSaved, t.regs r = s.regs r
  kept : ∀ a, keep a → t.mem a = s.mem a

/-- What a function means to do: go back to its caller, or leave. -/
inductive Ends (γ ρ : Type) where
  | goesOn (g : γ)
  | leaves (r : ρ)

/-- **A function does what its body says** for an object and arguments,
wherever it is called as the convention has it. -/
def Conforms {γ ρ : Type} (keep : ℕ → Prop) (this : BitVec 64) (args : List (BitVec 32))
    (body : γ → Ends γ ρ) (f : State → γ → Ret γ ρ) : Prop :=
  ∀ s g, (s.regs .rsp).toNat % 16 = 8 → s.regs .rdi = this →
    (∀ k v, args[k]? = some v → s.arg (k + 1) = v) →
    match body g with
    | .goesOn g' => ∃ t, f s g = .back t g' ∧ Returned keep s t
    | .leaves r => f s g = .left r

section

variable {γ ρ : Type} {keep : ℕ → Prop} {this : BitVec 64} {args : List (BitVec 32)}
  {body : γ → Ends γ ρ}

/-- A function that leaves the processor alone, but for its return. -/
def bare (body : γ → Ends γ ρ) (s : State) (g : γ) : Ret γ ρ :=
  match body g with
  | .goesOn g' => .back (s.advance .ret) g'
  | .leaves r => .left r

theorem bare_conforms : Conforms keep this args body (bare body) := by
  intro s g _ _ _
  obtain ⟨hrip, hregs, hmem⟩ := advance_ret s
  unfold bare
  cases body g with
  | leaves r => rfl
  | goesOn g' =>
    refine ⟨_, rfl, hrip, by rw [hregs, State.set_self], fun r hr => ?_, fun a _ => by rw [hmem]⟩
    have hne : r ≠ .rsp := by
      rintro rfl
      exact absurd hr (by decide)
    rw [hregs, State.set_of_ne s hne]

end

end X64
