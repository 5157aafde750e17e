import MrIss.Jit.Block
import MrIss.Lib.X64
/-!
# The code of a block, executed

The bytes of a block are instructions of the processor: what the generator
writes byte by byte is encoded by `X64.Inst.encode`. Executed, they call the
bodies of the guest's instructions in their order, each with the interpreter
and the arguments that were fixed when the block was made, on an aligned
stack; and unless a body jumps out, they return to the run loop with the
number of instructions, the registers and the stack as they were.
-/

namespace MrIss

namespace Jit

open EarlyReturn Run

open X64 (Inst State encodeAll CodeAt Reaches Conforms Ends)

/-! ## Bytes and instructions -/

/-- The moves of the arguments that go into registers, after the
`PPCInterpreter`. -/
def argMoves (args : List Reg) : List Inst :=
  .mov .rdi .rbx :: List.zipWith .movImm [.rsi, .rdx, .rcx, .r8, .r9] args

/-- A sixth argument goes on the stack. -/
def stackBefore (args : List Reg) : List Inst :=
  match args[5]? with
  | none => []
  | some v => [.subRsp 16, .storeImm v]

def stackAfter (args : List Reg) : List Inst := if args[5]?.isSome then [.addRsp 16] else []

/-- How far it is from a call to the function. -/
def OpCall.rel (o : OpCall) (here : ℕ) : BitVec 32 :=
  getRelAddr (here + (encodeAll (stackBefore o.args ++ argMoves o.args)).length) o.addr

/-- The instructions of a call. -/
def OpCall.insts (o : OpCall) (here : ℕ) : List Inst :=
  stackBefore o.args ++ argMoves o.args ++ [.call (o.rel here)] ++ stackAfter o.args

/-- The instructions of the prologue. -/
def prologueInsts : List Inst :=
  [.push .rbp, .mov .rbp .rsp, .push .r12, .push .rbx, .mov .rbx .rdi]

def epilogueInsts (nr : ℕ) : List Inst :=
  [.movImm .rax (BitVec.ofNat 32 nr), .pop .rbx, .pop .r12, .pop .rbp, .ret]

theorem prologue_eq : prologue = encodeAll prologueInsts := rfl

theorem epilogue_eq (nr : ℕ) : epilogue nr = encodeAll (epilogueInsts nr) := rfl

/-- **The generator writes instructions.** -/
theorem OpCall.code_eq (o : OpCall) (here : ℕ) : o.code here = encodeAll (o.insts here) := by
  obtain ⟨addr, args, few, ends⟩ := o
  match args, few with
  | [], _ | [_], _ | [_, _], _ | [_, _, _], _ | [_, _, _, _], _ | [_, _, _, _, _], _ => rfl
  | [_, _, _, _, _, _], _ => rfl
  | _ :: _ :: _ :: _ :: _ :: _ :: _ :: _, few =>
    exact absurd few (by simp only [List.length_cons]; omega)

/-! ## A call -/

section

variable {γ ρ : Type} {out : X64.Outside γ ρ} {keep : ℕ → Prop} {this : BitVec 64}
  {args : List Reg} {s t : State} {g : γ}

/-- Between the calls of a block: the interpreter is in `%rbx`, the stack is
aligned, and there is room on it. -/
structure Ready (keep : ℕ → Prop) (this : BitVec 64) (n : ℕ) (s : State) : Prop where
  rbx : s.regs .rbx = this
  aligned : (s.regs .rsp).toNat % 16 = 0
  room : n ≤ (s.regs .rsp).toNat
  below : ∀ a, (s.regs .rsp).toNat - n ≤ a → a < (s.regs .rsp).toNat → ¬keep a

/-- The stack pointer, the registers that a function gives back and the
memory that is kept are those of another state. -/
structure SameFrame (keep : ℕ → Prop) (s t : State) : Prop where
  rsp : t.regs .rsp = s.regs .rsp
  saved : ∀ r ∈ X64.calleeSaved, t.regs r = s.regs r
  kept : ∀ a, keep a → t.mem a = s.mem a

theorem SameFrame.trans {u : State} (h : SameFrame keep s t) (h' : SameFrame keep t u) :
    SameFrame keep s u where
  rsp := h'.rsp.trans h.rsp
  saved r hr := (h'.saved r hr).trans (h.saved r hr)
  kept a ha := (h'.kept a ha).trans (h.kept a ha)

theorem Ready.of_sameFrame {n : ℕ} (h : Ready keep this n s) (hst : SameFrame keep s t) :
    Ready keep this n t where
  rbx := (hst.saved .rbx (by decide)).trans h.rbx
  aligned := by rw [hst.rsp]; exact h.aligned
  room := by rw [hst.rsp]; exact h.room
  below := by rw [hst.rsp]; exact h.below

theorem argMoves_regsOnly (args : List Reg) : ∀ i ∈ argMoves args, i.regsOnly = true := by
  intro i hi
  rcases List.mem_cons.mp hi with rfl | hi
  · rfl
  · obtain ⟨k, hk, rfl⟩ := List.getElem_of_mem hi
    rw [List.getElem_zipWith]
    rfl

/-- Moves of values into registers that are apart. By induction on the
registers: the first is not written again. -/
theorem execAll_movImm (rs : List X64.Reg) (hrs : rs.Nodup) (args : List Reg) (s : State) :
    (∀ (k : ℕ) r v, rs[k]? = some r → args[k]? = some v →
      (s.execAll (List.zipWith Inst.movImm rs args)).regs r = v.setWidth 64) ∧
    ∀ r ∉ rs, (s.execAll (List.zipWith Inst.movImm rs args)).regs r = s.regs r := by
  induction rs generalizing args s with
  | nil => exact ⟨fun k r v hr => by simp at hr, fun r _ => rfl⟩
  | cons q rs ih =>
    cases args with
    | nil => exact ⟨fun k r v _ hv => by simp at hv, fun r _ => rfl⟩
    | cons w args =>
      rw [List.nodup_cons] at hrs
      have hcons : s.execAll (List.zipWith Inst.movImm (q :: rs) (w :: args)) =
        ({ s with rip := X64.after s.rip [.movImm q w] }.set q (w.setWidth 64)).execAll
          (List.zipWith Inst.movImm rs args) := rfl
      obtain ⟨hmoved, hrest⟩ := ih hrs.2 args
        ({ s with rip := X64.after s.rip [.movImm q w] }.set q (w.setWidth 64))
      rw [hcons]
      refine ⟨fun k r v hr hv => ?_, fun r hr => ?_⟩
      · cases k with
        | zero =>
          simp only [List.getElem?_cons_zero, Option.some.injEq] at hr hv
          subst hr hv
          rw [hrest _ hrs.1]
          exact State.set_self ..
        | succ k => exact hmoved k r v hr hv
      · rw [List.mem_cons, not_or] at hr
        rw [hrest r hr.2]
        exact State.set_of_ne _ hr.1 _

/-- What the moves leave in the registers. -/
structure Moved (this : BitVec 64) (args : List Reg) (s t : State) : Prop where
  rdi : t.regs .rdi = this
  args : ∀ k < 5, ∀ v, args[k]? = some v →
    ∃ r, X64.argRegs[k + 1]? = some r ∧ (t.regs r).setWidth 32 = v
  rsp : t.regs .rsp = s.regs .rsp
  saved : ∀ r ∈ X64.calleeSaved, t.regs r = s.regs r

theorem moved_argMoves (h : s.regs .rbx = this) (args : List Reg) :
    Moved this args s (s.execAll (argMoves args)) := by
  have hcons : s.execAll (argMoves args) =
    ({ s with rip := X64.after s.rip [.mov .rdi .rbx] }.set .rdi (s.regs .rbx)).execAll
      (List.zipWith .movImm [.rsi, .rdx, .rcx, .r8, .r9] args) := rfl
  obtain ⟨hmoved, hrest⟩ := execAll_movImm [.rsi, .rdx, .rcx, .r8, .r9] (by decide) args
    ({ s with rip := X64.after s.rip [.mov .rdi .rbx] }.set .rdi (s.regs .rbx))
  rw [hcons]
  refine ⟨?_, fun k hk v hv => ?_, ?_, fun r hr => ?_⟩
  · rw [hrest .rdi (by decide)]
    exact (State.set_self ..).trans h
  · obtain ⟨r, hr⟩ : ∃ r, ([.rsi, .rdx, .rcx, .r8, .r9] : List X64.Reg)[k]? = some r :=
      ⟨_, List.getElem?_eq_getElem hk⟩
    refine ⟨r, ?_, ?_⟩
    · exact hr
    · rw [hmoved k r v hr hv, BitVec.setWidth_setWidth_of_le _ (by decide), BitVec.setWidth_eq]
  · rw [hrest .rsp (by decide)]
    exact State.set_of_ne _ (by decide) _
  · simp only [X64.calleeSaved, List.mem_cons, List.not_mem_nil, or_false] at hr
    rcases hr with rfl | rfl | rfl | rfl | rfl | rfl
    all_goals
      rw [hrest _ (by decide)]
      exact State.set_of_ne _ (by decide) _

/-- How a call of a function ends, from a state on: back behind it, or where
the function has left it for. -/
def CallEnds (out : X64.Outside γ ρ) (keep : ℕ → Prop) (next : BitVec 64) (s : State) (g : γ) :
    Ends γ ρ → Prop
  | .goesOn g' => ∃ t, Reaches out s g (.at t g') ∧ t.rip = next ∧ SameFrame keep s t
  | .leaves r => Reaches out s g (.left r)

variable {o : OpCall} {rel : BitVec 32} {body : γ → Ends γ ρ} {f : State → γ → X64.Ret γ ρ}

/-- **The moves and the call.** A sixth argument is on the stack already. -/
theorem call_core (h : Ready keep this 8 s)
    (hcode : CodeAt s.mem s.rip (argMoves o.args ++ [.call rel]))
    (hfits : s.rip.toNat + (encodeAll (argMoves o.args ++ [.call rel])).length < 2 ^ 64)
    (hsixth : ∀ v, o.args[5]? = some v →
      BitVec.ofNat 32 (Arena.peek s.mem (s.regs .rsp).toNat 4) = v)
    (haddr : X64.after s.rip (argMoves o.args ++ [.call rel]) + rel.signExtend 64 = o.addr)
    (hout : out o.addr = some f) (hf : Conforms keep this o.args body f) :
    CallEnds out keep (X64.after s.rip (argMoves o.args ++ [.call rel])) s g (body g) := by
  have hlen : (encodeAll (argMoves o.args)).length ≤
      (encodeAll (argMoves o.args ++ [.call rel])).length := by
    rw [X64.encodeAll_append, List.length_append]
    omega
  obtain ⟨hmoves, hcall⟩ := X64.codeAt_append hcode (by omega)
  obtain ⟨hrun, hrip⟩ := X64.reaches_regsOnly out g (argMoves_regsOnly o.args) hmoves (by omega)
  have hmem := X64.execAll_regsOnly (s := s) (argMoves_regsOnly o.args)
  have hmoved := moved_argMoves h.rbx o.args
  generalize s.execAll (argMoves o.args) = u at hrun hmem hrip hmoved
  rw [← hmem, ← hrip] at hcall
  rw [X64.after_append, ← hrip] at haddr ⊢
  -- the processor as the function is entered
  let next := X64.after u.rip [.call rel]
  let v : State := { u with rip := next }
  let w : State := { v.push next with rip := o.addr }
  have hstep : X64.step out u g = out.enter w g := by
    rw [X64.step_eq hcall]
    change out.enter ⟨_, X64.after u.rip [.call rel] + rel.signExtend 64, _⟩ g = _
    rw [haddr]
  have hroom : 8 ≤ (u.regs .rsp).toNat := by
    rw [hmoved.rsp]
    exact h.room
  have hsp : (w.regs .rsp).toNat = (s.regs .rsp).toNat - 8 := by
    rw [← hmoved.rsp]
    exact v.toNat_push_rsp next hroom
  have hregs (r : X64.Reg) (hr : r ≠ .rsp) : w.regs r = u.regs r :=
    v.push_of_ne next hr
  have hwithin : Arena.Within ((s.regs .rsp).toNat - 8) (s.regs .rsp).toNat s.mem w.mem := by
    rw [← hmem, ← hmoved.rsp]
    exact v.within_push next hroom
  have hle := h.room
  have hal := h.aligned
  have hargs (k : ℕ) (v : Reg) (hv : o.args[k]? = some v) : w.arg (k + 1) = v := by
    have hfew := o.few
    obtain ⟨hk, -⟩ := List.getElem?_eq_some_iff.mp hv
    by_cases hlast : k < 5
    · obtain ⟨r, hr, hval⟩ := hmoved.args k hlast v hv
      have hne : r ≠ .rsp := by
        rintro rfl
        have hmem : X64.Reg.rsp ∈ X64.argRegs := List.mem_of_getElem? hr
        exact absurd hmem (by decide)
      simp only [State.arg, hr, hregs r hne, hval]
    · obtain rfl : k = 5 := by omega
      have hpeek : Arena.peek w.mem ((w.regs .rsp).toNat + 8 + 8 * 0) 4 =
          Arena.peek s.mem (s.regs .rsp).toNat 4 := by
        rw [hsp, Nat.mul_zero, Nat.add_zero, Nat.sub_add_cancel hle]
        exact hwithin.peek_eq (.inr le_rfl)
      have hnone : X64.argRegs[5 + 1]? = none := rfl
      simp only [State.arg, hnone]
      rw [show 5 + 1 - 6 = 0 from rfl, hpeek, hsixth v hv]
  have hbody := hf w g (by omega) ((hregs .rdi (by decide)).trans hmoved.rdi) hargs
  cases hends : body g with
  | leaves r =>
    rw [hends] at hbody
    have henter : out.enter w g = .left r := by
      simp only [X64.Outside.enter, w, hout]
      simp only [w] at hbody
      rw [hbody]
    refine .trans hrun ⟨1, ?_⟩
    rw [X64.run, hstep, henter]
  | goesOn g' =>
    rw [hends] at hbody
    obtain ⟨t, hback, hret⟩ := hbody
    have henter : out.enter w g = .at t g' := by
      simp only [X64.Outside.enter, w, hout]
      simp only [w] at hback
      rw [hback]
    refine ⟨t, .trans hrun (.step (hstep.trans henter) .refl), ?_, ?_, fun r hr => ?_,
      fun a ha => ?_⟩
    · rw [hret.rip]
      exact v.top_push next
    · have hwsp : w.regs .rsp = u.regs .rsp - 8 := v.push_rsp next
      rw [hret.rsp, hwsp, BitVec.sub_add_cancel, hmoved.rsp]
    · have hne : r ≠ .rsp := by
        rintro rfl
        exact absurd hr (by decide)
      rw [hret.saved r hr, hregs r hne, hmoved.saved r hr]
    · rw [hret.kept a ha]
      refine hwithin a ?_
      have hbelow := h.below a
      by_contra hin
      exact hbelow (by omega) (by omega) ha

/-- What a call at an address adds its distance to. -/
def OpCall.next (o : OpCall) (here : ℕ) : BitVec 64 :=
  X64.after (BitVec.ofNat 64 here) (stackBefore o.args ++ argMoves o.args ++ [.call (o.rel here)])

/-- The function can be called from an address: the distance fits in 32
bits. -/
def OpCall.Near (o : OpCall) (here : ℕ) : Prop :=
  -2 ^ 31 ≤ (o.addr - o.next here).toInt ∧ (o.addr - o.next here).toInt < 2 ^ 31

/-- The distance that is written leads to the function. -/
theorem OpCall.Near.next_add {here : ℕ} (h : o.Near here) :
    o.next here + (o.rel here).signExtend 64 = o.addr := by
  obtain ⟨hlo, hhi⟩ := h
  have hrel : o.rel here = (o.addr - o.next here).setWidth 32 := by
    have hlen : (encodeAll [.call (o.rel here)]).length = 5 := by simp [encodeAll, Inst.encode]
    have hnext : o.next here = BitVec.ofNat 64 (here + (encodeAll (stackBefore o.args ++
        argMoves o.args)).length) + 5#64 := by
      rw [OpCall.next, X64.after, X64.encodeAll_append, List.length_append, hlen,
        BitVec.ofNat_add, BitVec.ofNat_add, BitVec.add_assoc]
    rw [hnext, OpCall.rel, getRelAddr, BitVec.sub_sub]
  have hsign : ((o.addr - o.next here).setWidth 32).signExtend 64 = o.addr - o.next here := by
    refine BitVec.eq_of_toInt_eq ?_
    rw [BitVec.toInt_signExtend_of_le (by decide), BitVec.toInt_setWidth]
    rw [BitVec.toInt_eq_toNat_bmod] at hlo hhi ⊢
    have hlt := (o.addr - o.next here).isLt
    generalize (o.addr - o.next here).toNat = x at hlo hhi hlt ⊢
    simp only [Int.bmod_def] at *
    omega
  rw [hrel, hsign, BitVec.add_comm, BitVec.sub_add_cancel]

/-- A sixth argument has been put on the stack. -/
structure Pushed (v : Reg) (s t : State) : Prop where
  rsp : t.regs .rsp = s.regs .rsp - 16#64
  others : ∀ r ≠ .rsp, t.regs r = s.regs r
  sixth : BitVec.ofNat 32 (Arena.peek t.mem (t.regs .rsp).toNat 4) = v
  within : Arena.Within ((s.regs .rsp).toNat - 16) ((s.regs .rsp).toNat - 8) s.mem t.mem

theorem Pushed.toNat_rsp {v : Reg} (h : Pushed v s t) (hroom : 16 ≤ (s.regs .rsp).toNat) :
    (t.regs .rsp).toNat = (s.regs .rsp).toNat - 16 := by
  have hle : 16#64 ≤ s.regs .rsp := hroom
  rw [h.rsp, BitVec.toNat_sub_of_le hle]
  rfl

variable (out g) in
theorem reaches_pushed {v : Reg} (hroom : 16 ≤ (s.regs .rsp).toNat)
    (hcode : CodeAt s.mem s.rip [.subRsp 16, .storeImm v])
    (hfits : s.rip.toNat + (encodeAll [.subRsp 16, .storeImm v]).length < 2 ^ 64) :
    ∃ t, Reaches out s g (.at t g) ∧ t.rip = X64.after s.rip [.subRsp 16, .storeImm v] ∧
      Pushed v s t := by
  have hsplit : [Inst.subRsp 16, .storeImm v] = [.subRsp 16] ++ [.storeImm v] := rfl
  rw [hsplit, X64.encodeAll_append, List.length_append] at hfits
  rw [hsplit] at hcode
  obtain ⟨hsub, hstore⟩ := X64.codeAt_append hcode (by omega)
  -- the stack grows
  let u : State := { s with rip := X64.after s.rip [.subRsp 16] }.exec (.subRsp 16)
  have hstep₁ : X64.step out s g = .at u g := X64.step_eq hsub
  have hsp₁ : u.regs .rsp = s.regs .rsp - 16#64 := State.set_self ..
  have hle : 16#64 ≤ s.regs .rsp := hroom
  have hnat₁ : (u.regs .rsp).toNat = (s.regs .rsp).toNat - 16 := by
    rw [hsp₁, BitVec.toNat_sub_of_le hle]
    rfl
  -- the argument is put there
  have hstore' : CodeAt u.mem u.rip [.storeImm v] := hstore
  let t : State := { u with rip := X64.after u.rip [.storeImm v] }.exec (.storeImm v)
  have hstep₂ : X64.step out u g = .at t g := X64.step_eq hstore'
  refine ⟨t, .step hstep₁ (.step hstep₂ .refl), ?_, hsp₁, fun r hr => State.set_of_ne _ hr _, ?_,
    .poke (by rw [hnat₁]) (by rw [hnat₁]; omega)⟩
  · rw [hsplit, X64.after_append]
    rfl
  · have hpeek : Arena.peek t.mem (t.regs .rsp).toNat 8 = (v.signExtend 64).toNat :=
      Arena.peek_poke (v.signExtend 64).isLt
    rw [X64.peek_low, hpeek, BitVec.ofNat_toNat, BitVec.setWidth_eq]
    refine BitVec.eq_of_getLsbD_eq fun i hi => ?_
    rw [BitVec.getLsbD_setWidth, BitVec.getLsbD_signExtend]
    simp [hi, show i < 64 by omega]

/-- **A call,** with what it puts on the stack. -/
theorem call_ends {here : ℕ} (hhere : s.rip = BitVec.ofNat 64 here) (h : Ready keep this 24 s)
    (hcode : CodeAt s.mem s.rip (o.insts here))
    (hfits : s.rip.toNat + (encodeAll (o.insts here)).length < 2 ^ 64)
    (hkeep : ∀ a, s.rip.toNat ≤ a → a < s.rip.toNat + (encodeAll (o.insts here)).length → keep a)
    (hnear : o.Near here) (hout : out o.addr = some f) (hf : Conforms keep this o.args body f) :
    CallEnds out keep (X64.after s.rip (o.insts here)) s g (body g) := by
  have hle := h.room
  have haddr := hnear.next_add
  rw [OpCall.next, ← hhere] at haddr
  cases hsix : o.args[5]? with
  | none =>
    have hinsts : o.insts here = argMoves o.args ++ [.call (o.rel here)] := by
      simp only [OpCall.insts, stackBefore, stackAfter, hsix, List.nil_append, List.append_nil,
        Option.isSome_none, Bool.false_eq_true, if_false]
    have hbefore : stackBefore o.args = [] := by
      simp only [stackBefore, hsix]
    rw [hinsts] at hcode hfits ⊢
    rw [hbefore, List.nil_append] at haddr
    refine call_core ⟨h.rbx, h.aligned, by omega, fun a ha => h.below a (by omega)⟩ hcode hfits
      (fun v hv => ?_) haddr hout hf
    rw [hsix] at hv
    cases hv
  | some v =>
    have hbefore : stackBefore o.args = [.subRsp 16, .storeImm v] := by
      simp only [stackBefore, hsix]
    let core : List Inst := argMoves o.args ++ [.call (o.rel here)]
    have hinsts : o.insts here = [.subRsp 16, .storeImm v] ++ (core ++ [.addRsp 16]) := by
      simp only [core, OpCall.insts, hbefore, stackAfter, hsix, Option.isSome_some, if_true,
        List.append_assoc, List.cons_append, List.nil_append]
    rw [hinsts] at hcode hfits hkeep ⊢
    simp only [X64.encodeAll_append, List.length_append] at hfits hkeep
    rw [hbefore, List.append_assoc, X64.after_append] at haddr
    obtain ⟨hpush, hcode⟩ := X64.codeAt_append hcode (by omega)
    have hnat : (X64.after s.rip [.subRsp 16, .storeImm v]).toNat = _ := X64.toNat_after (by omega)
    obtain ⟨u, hreach, hrip, hpushed⟩ := reaches_pushed out g (by omega) hpush
      (by omega)
    have hsp := hpushed.toNat_rsp (by omega)
    rw [X64.after_append]
    rw [← hrip] at hcode haddr hnat ⊢
    have hkept (a : ℕ) (ha : keep a) : u.mem a = s.mem a := by
      refine hpushed.within a ?_
      have hbelow := h.below a
      by_contra hin
      exact hbelow (by omega) (by omega) ha
    have hcode' : CodeAt u.mem u.rip (core ++ [.addRsp 16]) := by
      refine hcode.of_kept fun a hlo hhi => hkept a (hkeep a (by omega) ?_)
      rw [X64.encodeAll_append, List.length_append] at hhi
      omega
    obtain ⟨hbody, hadd⟩ := X64.codeAt_append hcode' (by omega)
    have hnat' : (X64.after u.rip core).toNat = _ := X64.toNat_after (by omega)
    have hal := h.aligned
    have hready : Ready keep this 8 u :=
      ⟨(hpushed.others .rbx (by decide)).trans h.rbx, by omega, by omega,
        fun a hlo hhi => h.below a (by omega) (by omega)⟩
    have hsixth (w : Reg) (hw : o.args[5]? = some w) :
        BitVec.ofNat 32 (Arena.peek u.mem (u.regs .rsp).toNat 4) = w := by
      obtain rfl : v = w := Option.some.inj (hsix.symm.trans hw)
      exact hpushed.sixth
    have hcall := call_core (g := g) hready hbody
      (by change u.rip.toNat + (encodeAll core).length < _; omega) hsixth haddr hout hf
    cases hends : body g with
    | leaves r =>
      rw [hends] at hcall
      exact hreach.trans hcall
    | goesOn g' =>
      rw [hends] at hcall
      obtain ⟨t, hback, hripₜ, hframe⟩ := hcall
      -- the argument is taken off again
      have hadd' : CodeAt t.mem t.rip [.addRsp 16] := by
        rw [hripₜ]
        exact hadd.of_kept fun a hlo hhi => hframe.kept a (hkeep a (by omega) (by omega))
      have hstep : X64.step out t g' =
          .at ({ t with rip := X64.after t.rip [.addRsp 16] }.exec (.addRsp 16)) g' :=
        X64.step_eq hadd'
      refine ⟨_, hreach.trans (hback.trans (.step hstep .refl)), ?_, ?_, fun r hr => ?_,
        fun a ha => (hframe.kept a ha).trans (hkept a ha)⟩
      · rw [X64.after_append]
        exact congrArg (X64.after · [.addRsp 16]) hripₜ
      · have hback : t.regs .rsp + 16#64 = s.regs .rsp := by
          rw [hframe.rsp, hpushed.rsp, BitVec.sub_add_cancel]
        exact (State.set_self ..).trans hback
      · have hne : r ≠ .rsp := by
          rintro rfl
          exact absurd hr (by decide)
        exact (State.set_of_ne _ hne _).trans ((hframe.saved r hr).trans (hpushed.others r hne))

end

/-! ## The calls of a block -/

/-- The instructions of the calls for words in a row, from an address on. -/
def Decoder.callInsts (d : Decoder) : ℕ → List (BitVec 32) → List Inst
  | _, [] => []
  | here, inst :: insts =>
    let code := (d.opCall inst).insts here
    code ++ d.callInsts (here + (encodeAll code).length) insts

/-- What the body of a word means to do: it comes back, unless it ends the
simulator or an exception jumps back to the run loop. -/
def opBody (c : Config) (w : BitVec 32) (g : Machine) : Ends Machine (Out Abort Machine Unit) :=
  match callOp c w g with
  | .ok () t => if t.raised = g.raised then .goesOn t else .leaves (.ret t)
  | r => .leaves r

/-- What a block means to do. -/
def blockBody (c : Config) (ws : List (BitVec 32)) (g : Machine) :
    Ends Machine (Out Abort Machine Unit) :=
  match runBlock c ws g with
  | .ok () t => .goesOn t
  | r => .leaves r

/-- The functions that the words call are within reach, and do what the
bodies of the instructions do. -/
structure Linked (c : Config) (d : Decoder) (out : X64.Outside Machine (Out Abort Machine Unit))
    (keep : ℕ → Prop) (this : BitVec 64) (lo hi : ℕ) (ws : List (BitVec 32)) : Prop where
  near : ∀ w ∈ ws, ∀ here, lo ≤ here → here < hi → (d.opCall w).Near here
  conforms : ∀ w ∈ ws, ∃ f, out (d.opCall w).addr = some f ∧
    Conforms keep this (d.opCall w).args (opBody c w) f

section

variable {c : Config} {d : Decoder} {w : BitVec 32} {ws : List (BitVec 32)}
  {out : X64.Outside Machine (Out Abort Machine Unit)} {keep : ℕ → Prop} {this : BitVec 64}
  {s t : State} {g : Machine} {here lo hi : ℕ}

theorem Decoder.calls_eq (d : Decoder) (here : ℕ) (ws : List (BitVec 32)) :
    d.calls here ws = encodeAll (d.callInsts here ws) := by
  induction ws generalizing here with
  | nil => rfl
  | cons w ws ih =>
    rw [Decoder.calls, Decoder.callInsts, X64.encodeAll_append, ih, OpCall.code_eq]

theorem blockBody_cons : blockBody c (w :: ws) g =
    match opBody c w g with
    | .goesOn t => blockBody c ws t
    | .leaves r => .leaves r := by
  unfold blockBody opBody
  cases hcall : callOp c w g with
  | ret t => rw [runBlock, Prog.gets_bind_apply, Prog.bind_of_ret hcall]
  | abort e t => rw [runBlock_abort hcall]
  | ok _ t =>
    rw [runBlock_cons hcall]
    by_cases hraised : t.raised = g.raised
    · simp only [if_pos hraised]
    · simp only [if_neg hraised]

theorem OpCall.insts_pos (o : OpCall) (here : ℕ) : 0 < (encodeAll (o.insts here)).length := by
  simp only [OpCall.insts, X64.encodeAll_append, List.length_append]
  have hcall : (encodeAll [.call (o.rel here)]).length = 5 := by simp [encodeAll, Inst.encode]
  omega

/-- **The calls of a block are made in their order,** up to one that does
not come back. -/
theorem calls_end (hrip : s.rip.toNat = here) (h : Ready keep this 24 s)
    (hcode : CodeAt s.mem s.rip (d.callInsts here ws))
    (hfits : here + (encodeAll (d.callInsts here ws)).length < 2 ^ 64)
    (hkeep : ∀ a, here ≤ a → a < here + (encodeAll (d.callInsts here ws)).length → keep a)
    (hlinked : Linked c d out keep this lo hi ws) (hlo : lo ≤ here)
    (hhi : here + (encodeAll (d.callInsts here ws)).length ≤ hi) :
    CallEnds out keep (X64.after s.rip (d.callInsts here ws)) s g (blockBody c ws g) := by
  induction ws generalizing here s g with
  | nil =>
    refine ⟨s, .refl, ?_, rfl, fun _ _ => rfl, fun _ _ => rfl⟩
    simp [X64.after, Decoder.callInsts, encodeAll]
  | cons w ws ih =>
    obtain ⟨f, hout, hf⟩ := hlinked.conforms w List.mem_cons_self
    have hpos := (d.opCall w).insts_pos here
    rw [Decoder.callInsts] at hcode hfits hkeep hhi ⊢
    rw [X64.encodeAll_append, List.length_append] at hfits hkeep hhi
    obtain ⟨hfirst, hrest⟩ := X64.codeAt_append hcode (by omega)
    have hnat : (X64.after s.rip ((d.opCall w).insts here)).toNat = _ :=
      X64.toNat_after (by omega)
    have hrip' : s.rip = BitVec.ofNat 64 here := by
      rw [← hrip, BitVec.ofNat_toNat, BitVec.setWidth_eq]
    have hends := call_ends (g := g) hrip' h hfirst (by omega)
      (fun a hlo hhi => hkeep a (by omega) (by omega))
      (hlinked.near w List.mem_cons_self here hlo (by omega)) hout hf
    rw [blockBody_cons, X64.after_append]
    cases hbody : opBody c w g with
    | leaves r =>
      rw [hbody] at hends
      exact hends
    | goesOn g' =>
      rw [hbody] at hends
      obtain ⟨t, hreach, hript, hframe⟩ := hends
      have hnat' : t.rip.toNat = here + (encodeAll ((d.opCall w).insts here)).length := by
        rw [hript, hnat, hrip]
      have hrest' : CodeAt t.mem t.rip
          (d.callInsts (here + (encodeAll ((d.opCall w).insts here)).length) ws) := by
        rw [hript]
        exact hrest.of_kept fun a hlo hhi => hframe.kept a (hkeep a (by omega) (by omega))
      have hlinked' : Linked c d out keep this lo hi ws :=
        ⟨fun v hv => hlinked.near v (List.mem_cons_of_mem _ hv),
          fun v hv => hlinked.conforms v (List.mem_cons_of_mem _ hv)⟩
      have hrun := ih (g := g') hnat' (h.of_sameFrame hframe) hrest' (by omega)
        (fun a hlo hhi => hkeep a (by omega) (by omega)) hlinked' (by omega) (by omega)
      rw [hript] at hrun
      dsimp only
      cases hblock : blockBody c ws g' with
      | leaves r =>
        rw [hblock] at hrun
        exact hreach.trans hrun
      | goesOn g'' =>
        rw [hblock] at hrun
        obtain ⟨u, hreach', hripu, hframe'⟩ := hrun
        exact ⟨u, hreach.trans hreach', hripu, hframe.trans hframe'⟩

end

/-! ## Before and after the calls -/

section

variable {γ ρ : Type} {out : X64.Outside γ ρ} {keep : ℕ → Prop} {s t : State} {g : γ} {n : ℕ}

/-- The registers of the caller that a block uses are on the stack, from `k`
up, and the others are as they were. -/
structure Saved (k : ℕ) (s t : State) : Prop where
  rsp : (t.regs .rsp).toNat = k
  rbx : Arena.peek t.mem k 8 = (s.regs .rbx).toNat
  r12 : Arena.peek t.mem (k + 8) 8 = (s.regs .r12).toNat
  rbp : Arena.peek t.mem (k + 16) 8 = (s.regs .rbp).toNat
  back : Arena.peek t.mem (k + 24) 8 = Arena.peek s.mem (k + 24) 8
  others : ∀ r ∈ [X64.Reg.r13, .r14, .r15], t.regs r = s.regs r

/-- Functions leave the caller's part of the stack alone. -/
theorem Saved.of_sameFrame {k : ℕ} {u : State} (h : Saved k s t) (hframe : SameFrame keep t u)
    (hkeep : ∀ a, k ≤ a → a < k + 32 → keep a) : Saved k s u := by
  have hpeek (a : ℕ) (hlo : k ≤ a) (hhi : a ≤ k + 24) :
      Arena.peek u.mem a 8 = Arena.peek t.mem a 8 := by
    rw [Arena.peek, Arena.peek,
      Arena.read_congr fun x hlo hhi => hframe.kept x (hkeep x (by omega) (by omega))]
  refine ⟨by rw [hframe.rsp, h.rsp], ?_, ?_, ?_, ?_, fun r hr => ?_⟩
  · rw [hpeek _ (by omega) (by omega), h.rbx]
  · rw [hpeek _ (by omega) (by omega), h.r12]
  · rw [hpeek _ (by omega) (by omega), h.rbp]
  · rw [hpeek _ (by omega) (by omega), h.back]
  · have hsaved : r ∈ X64.calleeSaved := by
      simp only [X64.calleeSaved, List.mem_cons, List.not_mem_nil, or_false] at hr ⊢
      tauto
    rw [hframe.saved r hsaved, h.others r hr]

variable (out g) in
/-- **The prologue** saves registers and keeps the interpreter. -/
theorem reaches_prologue {k : ℕ} (hsp : (s.regs .rsp).toNat = k + 24)
    (hcode : CodeAt s.mem s.rip prologueInsts) (hfits : s.rip.toNat + prologue.length < 2 ^ 64)
    (hapart : ∀ a, s.rip.toNat ≤ a → a < s.rip.toNat + prologue.length → a < k ∨ k + 24 ≤ a) :
    ∃ t, Reaches out s g (.at t g) ∧ t.rip = X64.after s.rip prologueInsts ∧ Saved k s t ∧
      t.regs .rbx = s.regs .rdi ∧ Arena.Within k (k + 24) s.mem t.mem := by
  -- three pushes, each below the one before
  let s₁ : State := { s with rip := X64.after s.rip [.push .rbp] }.push (s.regs .rbp)
  have h₁ : X64.State.Pushed (k + 16) (s.regs .rbp) s s₁ := s.pushed _ _ hsp
  let s₂ : State := { s₁ with rip := X64.after s₁.rip [.mov .rbp .rsp] }.set .rbp (s₁.regs .rsp)
  have hother₂ (r : X64.Reg) (hr : r ≠ .rbp) : s₂.regs r = s₁.regs r := State.set_of_ne _ hr _
  let s₃ : State := { s₂ with rip := X64.after s₂.rip [.push .r12] }.push (s₂.regs .r12)
  have h₃ : X64.State.Pushed (k + 8) (s₂.regs .r12) s₂ s₃ :=
    s₂.pushed _ _ (by rw [hother₂ .rsp (by decide), h₁.rsp])
  let s₄ : State := { s₃ with rip := X64.after s₃.rip [.push .rbx] }.push (s₃.regs .rbx)
  have h₄ : X64.State.Pushed k (s₃.regs .rbx) s₃ s₄ := s₃.pushed _ _ h₃.rsp
  let s₅ : State := { s₄ with rip := X64.after s₄.rip [.mov .rbx .rdi] }.set .rbx (s₄.regs .rdi)
  have hother₅ (r : X64.Reg) (hr : r ≠ .rbx) : s₅.regs r = s₄.regs r := State.set_of_ne _ hr _
  have hrbx₅ : s₅.regs .rbx = s₄.regs .rdi := State.set_self ..
  have hall : s.execAll prologueInsts = s₅ := rfl
  have hmem (n : ℕ) : (s.execAll (prologueInsts.take n)).mem ∈
      [s.mem, s₁.mem, s₃.mem, s₄.mem] := by
    rcases n with _ | _ | _ | _ | _ | n
    · exact .head _
    · exact .tail _ (.head _)
    · exact .tail _ (.head _)
    · exact .tail _ (.tail _ (.head _))
    · exact .tail _ (.tail _ (.tail _ (.head _)))
    · rw [List.take_of_length_le (by simp [prologueInsts])]
      exact .tail _ (.tail _ (.tail _ (.head _)))
  have hmem₂ : s₂.mem = s₁.mem := rfl
  have hmem₅ : s₅.mem = s₄.mem := rfl
  clear_value s₅ s₄ s₃ s₂ s₁
  have hw₁ : Arena.Within k (k + 24) s.mem s₁.mem := h₁.within.mono (by omega) le_rfl
  have hw₃ : Arena.Within k (k + 24) s.mem s₃.mem :=
    hw₁.trans (hmem₂ ▸ h₃.within.mono (by omega) (by omega))
  have hw₄ : Arena.Within k (k + 24) s.mem s₄.mem := hw₃.trans (h₄.within.mono le_rfl (by omega))
  have hkept (pre : List Inst) (hpre : pre <+: prologueInsts) :
      Arena.Within k (k + 24) s.mem (s.execAll pre).mem := by
    have hin := hmem pre.length
    rw [← List.prefix_iff_eq_take.mp hpre] at hin
    simp only [List.mem_cons, List.not_mem_nil, or_false] at hin
    rcases hin with h | h | h | h
    · exact h ▸ .refl
    · exact h ▸ hw₁
    · exact h ▸ hw₃
    · exact h ▸ hw₄
  obtain ⟨hreach, hrip⟩ := X64.reaches_straight out g (m := s.mem) (by decide) hcode hfits
    fun pre hpre x hlo hhi => hkept pre hpre x (hapart x hlo hhi)
  rw [hall] at hreach hrip
  have hothers (r : X64.Reg) (hr : r ≠ .rsp) (hr' : r ≠ .rbp) : s₃.regs r = s.regs r := by
    rw [h₃.others r hr, hother₂ r hr', h₁.others r hr]
  refine ⟨s₅, hreach, hrip, ⟨?_, ?_, ?_, ?_, ?_, fun r hr => ?_⟩, ?_, hmem₅ ▸ hw₄⟩
  · rw [hother₅ .rsp (by decide), h₄.rsp]
  · rw [hmem₅, h₄.peek, hothers .rbx (by decide) (by decide)]
  · rw [hmem₅, h₄.within.peek_eq (.inr le_rfl), h₃.peek, hother₂ .r12 (by decide),
      h₁.others .r12 (by decide)]
  · rw [hmem₅, h₄.within.peek_eq (.inr (by omega)), h₃.within.peek_eq (.inr le_rfl), hmem₂,
      h₁.peek]
  · rw [hmem₅, hw₄.peek_eq (.inr le_rfl)]
  · have hne : r ≠ .rsp ∧ r ≠ .rbp ∧ r ≠ .rbx := by
      refine ⟨?_, ?_, ?_⟩
      all_goals
        rintro rfl
        exact absurd hr (by decide)
    rw [hother₅ r hne.2.2, h₄.others r hne.1, hothers r hne.1 hne.2.1]
  · rw [hrbx₅, h₄.others .rdi (by decide), hothers .rdi (by decide) (by decide)]

/-- The epilogue up to its return. -/
def pops (n : ℕ) : List Inst :=
  [.movImm .rax (BitVec.ofNat 32 n), .pop .rbx, .pop .r12, .pop .rbp]

/-- The registers that were saved are taken from the stack. -/
theorem restored {k : ℕ} (h : Saved k s t) (hsp : (s.regs .rsp).toNat = k + 24) :
    (t.execAll (pops n)).regs .rsp = s.regs .rsp ∧
      (∀ r ∈ X64.calleeSaved, (t.execAll (pops n)).regs r = s.regs r) ∧
      (t.execAll (pops n)).regs .rax = (BitVec.ofNat 32 n).setWidth 64 := by
  have hlt := (s.regs .rsp).isLt
  rw [pops, State.execAll, State.execAll, State.execAll, State.execAll, State.execAll]
  have hother₁ (r : X64.Reg) (hr : r ≠ .rax) :
      (t.advance (.movImm .rax (BitVec.ofNat 32 n))).regs r = t.regs r := State.set_of_ne _ hr _
  have hrax₁ : (t.advance (.movImm .rax (BitVec.ofNat 32 n))).regs .rax =
      (BitVec.ofNat 32 n).setWidth 64 := State.set_self ..
  have hmem₁ : (t.advance (.movImm .rax (BitVec.ofNat 32 n))).mem = t.mem := rfl
  generalize t.advance (.movImm .rax (BitVec.ofNat 32 n)) = t₁ at hother₁ hrax₁ hmem₁ ⊢
  have h₂ : t₁.Popped k .rbx (s.regs .rbx) (t₁.advance (.pop .rbx)) :=
    t₁.popped _ (by decide) (by rw [hother₁ .rsp (by decide), h.rsp]) (by omega)
      (by rw [hmem₁, h.rbx])
  generalize t₁.advance (.pop .rbx) = t₂ at h₂ ⊢
  have h₃ : t₂.Popped (k + 8) .r12 (s.regs .r12) (t₂.advance (.pop .r12)) :=
    t₂.popped _ (by decide) h₂.rsp (by omega) (by rw [h₂.mem, hmem₁, h.r12])
  generalize t₂.advance (.pop .r12) = t₃ at h₃ ⊢
  have h₄ : t₃.Popped (k + 16) .rbp (s.regs .rbp) (t₃.advance (.pop .rbp)) :=
    t₃.popped _ (by decide) h₃.rsp (by omega) (by rw [h₃.mem, h₂.mem, hmem₁, h.rbp])
  generalize t₃.advance (.pop .rbp) = t₄ at h₄ ⊢
  refine ⟨BitVec.eq_of_toNat_eq (by rw [h₄.rsp, hsp]), fun r hr => ?_, ?_⟩
  · simp only [X64.calleeSaved, List.mem_cons, List.not_mem_nil, or_false] at hr
    rcases hr with rfl | rfl | rfl | hr
    · rw [h₄.others _ (by decide) (by decide), h₃.others _ (by decide) (by decide), h₂.value]
    · rw [h₄.value]
    · rw [h₄.others _ (by decide) (by decide), h₃.value]
    · have hne : r ≠ .rsp ∧ r ≠ .rbp ∧ r ≠ .rbx ∧ r ≠ .r12 ∧ r ≠ .rax := by
        rcases hr with rfl | rfl | rfl <;> decide
      obtain ⟨hrsp, hrbp, hrbx, hr12, hrax⟩ := hne
      rw [h₄.others r hrbp hrsp, h₃.others r hr12 hrsp, h₂.others r hrbx hrsp, hother₁ r hrax,
        h.others r (by simpa using hr)]
  · rw [h₄.others _ (by decide) (by decide), h₃.others _ (by decide) (by decide),
      h₂.others _ (by decide) (by decide), hrax₁]

variable (out g) in
/-- **The epilogue** gives the registers back, and returns the number of
instructions. -/
theorem reaches_epilogue {k : ℕ} (h : Saved k s t) (hsp : (s.regs .rsp).toNat = k + 24)
    (hcode : CodeAt t.mem t.rip (epilogueInsts n))
    (hfits : t.rip.toNat + (epilogue n).length ≤ 2 ^ 64) :
    ∃ u, Reaches out t g (.at u g) ∧ X64.Returned (fun _ => False) s u ∧
      u.regs .rax = (BitVec.ofNat 32 n).setWidth 64 ∧ u.mem = t.mem := by
  have hsplit : epilogueInsts n = pops n ++ [.ret] := rfl
  have hlen : (encodeAll (pops n)).length + 1 = (epilogue n).length := by
    rw [epilogue_eq, hsplit, X64.encodeAll_append, List.length_append]
    rfl
  have hregs : ∀ i ∈ pops n, i.regsOnly = true := by
    intro i hi
    simp only [pops, List.mem_cons, List.not_mem_nil, or_false] at hi
    rcases hi with rfl | rfl | rfl | rfl <;> rfl
  rw [hsplit] at hcode
  obtain ⟨hfirst, hret⟩ := X64.codeAt_append hcode (by omega)
  obtain ⟨hreach, hrip⟩ := X64.reaches_regsOnly out g hregs hfirst (by omega)
  have hmem := X64.execAll_regsOnly (s := t) hregs
  obtain ⟨hrsp, hsaved, hrax⟩ := restored (n := n) h hsp
  generalize t.execAll (pops n) = t₄ at hreach hrip hmem hrsp hsaved hrax
  rw [← hrip, ← hmem] at hret
  have hstep : X64.step out t₄ g = .at (t₄.advance .ret) g := X64.step_eq hret
  obtain ⟨htop, hregsᵤ, hmemᵤ⟩ := X64.advance_ret t₄
  generalize t₄.advance .ret = u at hstep htop hregsᵤ hmemᵤ
  have hother (r : X64.Reg) (hr : r ≠ .rsp) : u.regs r = t₄.regs r := by
    rw [hregsᵤ, State.set_of_ne t₄ hr]
  refine ⟨u, hreach.trans (.step hstep .refl), ⟨?_, ?_, fun r hr => ?_, fun _ => False.elim⟩, ?_,
    hmemᵤ.trans hmem⟩
  · rw [htop, State.top, State.top, hrsp, hmem, hsp, h.back]
  · rw [hregsᵤ, State.set_self, hrsp]
  · have hne : r ≠ .rsp := by
      rintro rfl
      exact absurd hr (by decide)
    rw [hother r hne, hsaved r hr]
  · rw [hother .rax (by decide), hrax]

end

/-! ## A block -/

section

variable {c : Config} {d : Decoder} {buf : Buffer} {b : Made} {st : BlockStore}
  {out : X64.Outside Machine (Out Abort Machine Unit)} {this : BitVec 64} {s : State} {g : Machine}

/-- Where the code of a block is. -/
def Made.Holds (d : Decoder) (b : Made) (a : ℕ) : Prop := blockCodeptr b.ptr ≤ a ∧ a < b.stop d

/-- What the functions that a block calls leave alone: its code, and the
stack from what it has saved to its return address. -/
def Made.Keeps (d : Decoder) (b : Made) (sp a : ℕ) : Prop :=
  b.Holds d a ∨ sp - 24 ≤ a ∧ a < sp + 8

/-- A block has been called, with a stack that is apart from its code. -/
structure Entered (d : Decoder) (b : Made) (this : BitVec 64) (s : State) : Prop where
  rip : s.rip = BitVec.ofNat 64 (blockCodeptr b.ptr)
  rdi : s.regs .rdi = this
  aligned : (s.regs .rsp).toNat % 16 = 8
  room : 48 ≤ (s.regs .rsp).toNat
  apart : b.stop d ≤ (s.regs .rsp).toNat - 48 ∨ (s.regs .rsp).toNat + 8 ≤ blockCodeptr b.ptr

/-- The instructions of a block. -/
def Made.blockInsts (d : Decoder) (b : Made) : List Inst :=
  prologueInsts ++ (d.callInsts (blockCodeptr b.ptr + prologue.length) b.words ++
    epilogueInsts b.words.length)

theorem Made.code_eq : b.code d = encodeAll (b.blockInsts d) := by
  have hlen : b.words.length = b.insts.length := List.length_map ..
  rw [Made.code, Made.blockInsts, X64.encodeAll_append, X64.encodeAll_append, ← prologue_eq,
    ← epilogue_eq, ← Decoder.calls_eq, hlen, List.append_assoc]
  rfl

/-- A block that was called has come to a result: it has returned the number
of its instructions, or it has been left. -/
def Ran (d : Decoder) (b : Made) (out : X64.Outside Machine (Out Abort Machine Unit))
    (s : State) (g : Machine) : Out Abort Machine Unit → Prop
  | .ok () g' => ∃ t, Reaches out s g (.at t g') ∧ X64.Returned (b.Holds d) s t ∧
      t.regs .rax = (BitVec.ofNat 32 b.words.length).setWidth 64
  | r => Reaches out s g (.left r)

/-- **The code of a block, executed, makes its calls.** -/
theorem ran_of_code (h : Arena.read s.mem (blockCodeptr b.ptr) (b.code d).length = b.code d)
    (hfits : b.stop d ≤ 2 ^ 64) (hent : Entered d b this s)
    (hlinked : Linked c d out (b.Keeps d (s.regs .rsp).toNat) this (blockCodeptr b.ptr) (b.stop d)
      b.words) : Ran d b out s g (runBlock c b.words g) := by
  obtain ⟨k, hk⟩ : ∃ k, (s.regs .rsp).toNat = k + 24 := ⟨(s.regs .rsp).toNat - 24, by
    have := hent.room
    omega⟩
  have hapart := hent.apart
  have hroom := hent.room
  have hal := hent.aligned
  rw [hk] at hapart hroom hal hlinked
  have hstop : b.stop d = blockCodeptr b.ptr + (encodeAll (b.blockInsts d)).length := by
    rw [Made.stop, Made.code_eq]
  rw [Made.blockInsts, X64.encodeAll_append, List.length_append, X64.encodeAll_append,
    List.length_append, ← prologue_eq, ← epilogue_eq, length_prologue, length_epilogue] at hstop
  have hnat : s.rip.toNat = blockCodeptr b.ptr := by
    rw [hent.rip, BitVec.toNat_ofNat]
    exact Nat.mod_eq_of_lt (by omega)
  have hcode : CodeAt s.mem s.rip (b.blockInsts d) := by
    rw [CodeAt, hnat, ← Made.code_eq]
    exact h
  rw [Made.blockInsts] at hcode
  have hpro : (encodeAll prologueInsts).length = 10 := rfl
  have hepi : (encodeAll (epilogueInsts b.words.length)).length = 10 := by
    rw [← epilogue_eq, length_epilogue]
  obtain ⟨hfirst, hrest⟩ := X64.codeAt_append hcode (by omega)
  -- before the calls
  obtain ⟨p, hreach, hrip, hsaved, hrbx, hwithin⟩ := reaches_prologue out g hk
    hfirst (by rw [length_prologue]; omega)
    fun a hlo hhi => by rw [length_prologue] at hhi; omega
  have hnatp : p.rip.toNat = blockCodeptr b.ptr + prologue.length := by
    rw [hrip, X64.toNat_after (by omega), hnat]
    rfl
  have hcodep : CodeAt p.mem p.rip (d.callInsts (blockCodeptr b.ptr + prologue.length) b.words ++
      epilogueInsts b.words.length) := by
    rw [hrip]
    refine hrest.of_kept fun a hlo hhi => hwithin a ?_
    rw [X64.encodeAll_append, List.length_append, hepi] at hhi
    rw [← hrip, hnatp, length_prologue] at hlo hhi
    omega
  obtain ⟨hcalls, hlast⟩ := X64.codeAt_append hcodep (by rw [hnatp, length_prologue]; omega)
  have hready : Ready (b.Keeps d (k + 24)) this 24 p :=
    ⟨hrbx.trans hent.rdi, by rw [hsaved.rsp]; omega, by rw [hsaved.rsp]; omega, fun a hlo hhi => by
      rw [hsaved.rsp] at hlo hhi
      simp only [Made.Keeps, Made.Holds]
      omega⟩
  have hends := calls_end (g := g) hnatp hready hcalls (by rw [length_prologue]; omega)
    (fun a hlo hhi => by
      rw [length_prologue] at hlo hhi
      simp only [Made.Keeps, Made.Holds]
      omega) hlinked (by omega) (by rw [length_prologue]; omega)
  unfold blockBody at hends
  cases hblock : runBlock c b.words g with
  | ret g' | abort e g' =>
    rw [hblock] at hends
    exact hreach.trans hends
  | ok _ g' =>
    -- after the calls
    rw [hblock] at hends
    obtain ⟨t, hcalled, hript, hframe⟩ := hends
    have hnatt : t.rip.toNat + 10 = b.stop d := by
      rw [hript, X64.toNat_after (by rw [hnatp, length_prologue]; omega), hnatp, length_prologue]
      omega
    have hlast' : CodeAt t.mem t.rip (epilogueInsts b.words.length) := by
      rw [← hript] at hlast
      refine hlast.of_kept fun a hlo hhi => hframe.kept a (.inl ⟨?_, by omega⟩)
      rw [hript, X64.toNat_after (by rw [hnatp, length_prologue]; omega), hnatp] at hlo
      omega
    have hsavedt : Saved k s t := hsaved.of_sameFrame hframe fun a hlo hhi => by
      simp only [Made.Keeps]
      omega
    obtain ⟨u, hback, hret, hrax, hmem⟩ := reaches_epilogue out g' hsavedt hk hlast'
      (by rw [length_epilogue]; omega)
    refine ⟨u, hreach.trans (hcalled.trans hback), ⟨hret.rip, hret.rsp, hret.saved, ?_⟩, hrax⟩
    intro a ha
    obtain ⟨hlo, hhi⟩ := id ha
    rw [hmem, hframe.kept a (.inl ha), hwithin a (by omega)]

/-- Where the invariant holds, the code of a live block is in memory. -/
theorem code_of_inv (hinv : Inv buf d st) (hb : b ∈ live st.trace)
    (hmem : ∀ x, b.ptr ≤ x → x < b.stop d → s.mem x = st.mem x) :
    Arena.read s.mem (blockCodeptr b.ptr) (b.code d).length = b.code d ∧ b.stop d ≤ 2 ^ 64 := by
  obtain ⟨-, hstop⟩ := hinv.inside b hb
  have hfits := buf.fits
  have hsame : Arena.read s.mem (blockCodeptr b.ptr) (b.code d).length =
      Arena.read st.mem (blockCodeptr b.ptr) (b.code d).length :=
    Arena.read_congr fun x hlo hhi => hmem x (by rw [blockCodeptr_eq] at hlo; omega) hhi
  exact ⟨by rw [hsame, (hinv.intact b hb).code], by omega⟩

theorem code_of_run (mem : Arena.Mem) {ls : List Label}
    (hrun : Steps (Step buf c d) (initBlockStore buf mem) ls st) (hb : b ∈ live st.trace)
    (hmem : ∀ x, b.ptr ≤ x → x < b.stop d → s.mem x = st.mem x) :
    Arena.read s.mem (blockCodeptr b.ptr) (b.code d).length = b.code d ∧ b.stop d ≤ 2 ^ 64 :=
  code_of_inv (inv_of_run hrun inv_resetBlockstore) hb hmem

/-- **A block of the store, executed, does what the interpreter does,** in any
run of the store: the processor makes the calls of its words, in their order,
up to one that is left; and that comes to the interpreter's results where the
interpreter's fetches return the same words and change nothing, and it takes
an alignment interrupt only at words that have the DSISR of the word before
the block. -/
theorem block_executes (mem : Arena.Mem) {ls : List Label}
    (hrun : Steps (Step buf c d) (initBlockStore buf mem) ls st) (hb : b ∈ live st.trace)
    (hmem : ∀ x, b.ptr ≤ x → x < b.stop d → s.mem x = st.mem x) (hent : Entered d b this s)
    (hlinked : Linked c d out (b.Keeps d (s.regs .rsp).toNat) this (blockCodeptr b.ptr) (b.stop d)
      b.words) (g : Machine) :
    Ran d b out s g (runBlock c b.words g) ∧
      (Fetches c b.words g → AlignsAs c g.interp.inst b.words g →
        DoesAsInterpreter c b.words g) := by
  obtain ⟨hcode, hfits⟩ := code_of_run mem hrun hb hmem
  exact ⟨ran_of_code hcode hfits hent hlinked,
    fun hfetches haligns => (coupled_iff rfl rfl hfetches).mpr haligns⟩

end

/-! ## The load, executed -/

/-- Functions that are called from up to 2 GiB away. -/
theorem OpCall.near_of_lt {o : OpCall} {here : ℕ} (haddr : o.addr.toNat < 2 ^ 31)
    (hhere : here + maxCall ≤ 2 ^ 31) : o.Near here := by
  have hlen : (encodeAll (stackBefore o.args ++ argMoves o.args ++ [.call (o.rel here)])).length ≤
      maxCall := by
    have hle := o.length_code here
    rw [o.code_eq, OpCall.insts, X64.encodeAll_append, List.length_append] at hle
    omega
  have hnext : (o.next here).toNat ≤ 2 ^ 31 := by
    rw [OpCall.next, X64.after, ← BitVec.ofNat_add, BitVec.toNat_ofNat]
    exact (Nat.mod_le ..).trans (by omega)
  have hsub : (o.addr - o.next here).toInt = o.addr.toNat - (o.next here).toNat := by
    rw [BitVec.toInt_sub, BitVec.toInt_eq_toNat_of_lt (by omega),
      BitVec.toInt_eq_toNat_of_lt (by omega), Int.bmod_def]
    split <;> omega
  rw [OpCall.Near, hsub]
  omega

/-- The block of the load that is not aligned is entered with a stack below
the buffer, and its function called. -/
theorem block_executes_lwz : ∃ (b : Made) (s : State) (g : Machine)
    (out : X64.Outside Machine (Out Abort Machine Unit)), b.words = [0x80600005#32] ∧
      Ran .lwz b out s g (runBlock (.quiet .default) b.words g) ∧
      DoesAsInterpreter (.quiet .default) b.words g := by
  obtain ⟨st, m, hrun, hwords, hfetches, -⟩ :=
    exists_lwzMade 0x80600005 (fun _ => true) (by decide +kernel)
  have hinv : Inv .low .lwz (initBlockStore .low fun _ => 0) := inv_resetBlockstore
  obtain ⟨b, hlive, hptr, -, -⟩ := createBlock_made hinv hrun (by decide)
  have hsteps := Steps.single (Step.create _ _ m hrun)
  have hws : b.words = [0x80600005#32] := hwords b hlive
  have hcodeptr : blockCodeptr b.ptr = 4160 := by rw [hptr]; rfl
  let c : Config := .quiet .default
  let out : X64.Outside Machine (Out Abort Machine Unit) := fun _ =>
    some (X64.bare (opBody c 0x80600005))
  let s : State := ⟨fun r => if r = .rsp then 1032 else 0, 4160, st.mem⟩
  have hsp : (s.regs .rsp).toNat = 1032 := rfl
  have hent : Entered .lwz b 0 s := by
    refine ⟨by rw [hcodeptr]; rfl, rfl, ?_, ?_, .inr ?_⟩
    all_goals omega
  have hstop := ((inv_of_run hsteps hinv).inside b hlive).2
  have hlinked : Linked c .lwz out (b.Keeps .lwz (s.regs .rsp).toNat) 0 (blockCodeptr b.ptr)
      (b.stop .lwz) b.words := by
    rw [hws]
    refine ⟨fun w hw here _ hhere => ?_, fun w hw => ?_⟩
    all_goals obtain rfl := List.mem_singleton.mp hw
    · have hbase : Buffer.low.base = 4096 := rfl
      refine OpCall.near_of_lt (by decide) ?_
      simp only [bsCodeSize, maxCall] at hstop ⊢
      omega
    · exact ⟨_, rfl, X64.bare_conforms⟩
  obtain ⟨hran, hagrees⟩ := block_executes _ hsteps hlive (fun _ _ _ => rfl) hent hlinked
    (lwzMachine 0x80600005 m)
  refine ⟨b, s, _, out, hws, hran, hagrees (hws ▸ hfetches) ?_⟩
  rw [hws]
  exact ⟨fun _ _ _ => rfl, fun _ _ _ => trivial⟩

end Jit

end MrIss
