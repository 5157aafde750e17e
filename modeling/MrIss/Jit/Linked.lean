import MrIss.Jit.Exec
import MrIss.Tools.Generated
/-!
# Blocks of the generated decoder

The block generator's decoder is the switch that is generated from the
instruction table. Where the interpreter's functions are compiled to take
their parameters from the registers of a call, the calls that it plants for a
word run the body that the interpreter runs for it.
-/

namespace MrIss

namespace Jit

open EarlyReturn Run X64
open MkDecode (Op Planted Stands)

/-! ## The decoder -/

theorem length_generators : ∀ t ∈ MkDecode.generators, t.length ≤ 6 := by decide

/-- The call that the generator makes of a planted one, by the routine of its
types. -/
def OpCall.ofPlanted (addr : String → BitVec 64) (p : Planted) : Option OpCall :=
  if h : MkDecode.generators.contains p.types then
    some {
      addr := addr p.op
      args := List.zipWith MkDecode.plant p.types p.args
      few := by
        have := length_generators _ (List.contains_iff_mem.mp h)
        rw [List.length_zipWith]
        omega
      ends := ((MkDecode.int p.rt).getD 0).toNat }
  else
    Option.none

/-- The generated decoder, with what `get_op_…` and `get_op_unk` return. -/
def Decoder.generated (p : MkDecode.Program MkDecode.GenCall) (addr : String → BitVec 64)
    (unk : BitVec 64) : Decoder where
  table w :=
    match MkDecode.decodeInstrGenerateCall .instructionFields p w with
    | .op q => OpCall.ofPlanted addr q
    | _ => Option.none
  opUnk := unk

/-! ## The functions, compiled -/

/-- What a body means to do: it comes back, unless it ends the simulator or
an exception jumps back to the run loop. -/
def ended (x : InterpM Unit) (g : Machine) : Ends Machine (Out Abort Machine Unit) :=
  match x g with
  | .ok () t => if t.raised = g.raised then .goesOn t else .leaves (.ret t)
  | r => .leaves r

/-- The body of a function in a program that has the JIT, where `mtspr`
refuses `SPR_IC_INV_SET`. -/
def jitBody (name : String) (regs : List Reg) (x : InterpM Unit) : InterpM Unit :=
  if name = "mtspr" ∧ regs.head?.map BitVec.toNat = some sprICInvSet then
    Prog.abort (.spr sprICInvSet)
  else
    Prog.call x

/-- **The interpreter's functions are compiled**: from the code between two
addresses each can be called, takes its parameters from the registers, and
does what its body does. -/
structure Compiled (c : Config) (addr : String → BitVec 64) (unk : BitVec 64)
    (out : Outside Machine (Out Abort Machine Unit)) (keep : ℕ → Prop) (this : BitVec 64)
    (lo hi : ℕ) : Prop where
  near : ∀ o : OpCall, o.addr = unk ∨ (∃ f ∈ MkDecode.ops, o.addr = addr f.name) →
    ∀ here, lo ≤ here → here < hi → o.Near here
  op : ∀ o ∈ MkDecode.ops, ∃ f, out (addr o.name) = some f ∧
    ∀ regs x, regs.length = o.params.length → o.entered c regs = some x →
      Conforms keep this regs (ended (jitBody o.name regs x)) f
  unk : ∃ f, out unk = some f ∧ ∀ w, Conforms keep this [w] (ended (Prog.call opUnk)) f

variable {c : Config} {p : MkDecode.Program MkDecode.Call × MkDecode.Program MkDecode.GenCall}
  {addr : String → BitVec 64} {unk : BitVec 64} {w : BitVec 32}
  {r : MkDecode.Row} {i : ℕ} {o : Op} {m : MrIss.Row}

/-- The registers that a line's call is entered with. -/
def lineRegs (o : Op) (w : BitVec 32) : List Reg :=
  o.params.map fun i =>
    MkDecode.plant (MkDecode.paramType i) (MkDecode.Accessors.instructionFields.field o.form i w)

theorem opBody_eq (c : Config) (w : BitVec 32) : opBody c w = ended (callOp c w) := rfl

variable (addr unk) in
/-- The call of a line. -/
theorem opCall_of_stands (hp : MkDecode.generate MkDecode.ppcRows = .ok p) (h : Stands c r i o m)
    (hr : r ∈ MkDecode.ppcRows) (hm : m.accepts w = true) :
    ((Decoder.generated p.2 addr unk).opCall w).addr = addr o.name ∧
      ((Decoder.generated p.2 addr unk).opCall w).args = lineRegs o w := by
  obtain ⟨-, hplanted⟩ := (MkDecode.dispatched_of_oePlain hp MkDecode.table_ppcRows
    MkDecode.oePlain_ppcRows w).1 r hr (h.matches_iff.mpr hm)
  have htypes := h.types_eq w
  have htable : (Decoder.generated p.2 addr unk).table w =
      OpCall.ofPlanted addr (r.planted .instructionFields w) := by
    unfold Decoder.generated
    dsimp only
    rw [hplanted]
  have hmem : MkDecode.generators.contains (r.planted .instructionFields w).types := by
    rw [htypes]
    exact List.contains_iff_mem.mpr (MkDecode.types_mem o (List.mem_of_getElem? h.op))
  rw [Decoder.opCall, htable, OpCall.ofPlanted, dif_pos hmem, Option.getD_some]
  refine ⟨congrArg addr h.fits.name, ?_⟩
  have hargs : (r.planted .instructionFields w).args = _ := h.values_eq w
  change List.zipWith MkDecode.plant (r.planted .instructionFields w).types
    (r.planted .instructionFields w).args = _
  rw [lineRegs, htypes, hargs, List.zipWith_map, List.zipWith_self]

variable (addr unk) in
/-- A word of no line goes to `op_unk`. -/
theorem opCall_of_none (hp : MkDecode.generate MkDecode.ppcRows = .ok p)
    (h : rowOf c w = none) : (Decoder.generated p.2 addr unk).opCall w =
      ⟨unk, [w], by simp, 2⟩ := by
  obtain ⟨-, hunk⟩ := (MkDecode.dispatched_of_oePlain hp MkDecode.table_ppcRows
    MkDecode.oePlain_ppcRows w).2 (MkDecode.not_matches_of_none h)
  have htable : (Decoder.generated p.2 addr unk).table w = none := by
    unfold Decoder.generated
    dsimp only
    rw [hunk]
  rw [Decoder.opCall, htable]
  rfl

/-! ## The calls of a block -/

/-- The words of the line of `mtspr`. -/
theorem isMtspr_iff (h : Stands c r i o m) (hr : r ∈ MkDecode.ppcRows)
    (hm : m.accepts w = true) : isMtspr w = true ↔ o.name = "mtspr" := by
  have hmem : m ∈ table c := List.mem_of_getElem? h.row
  obtain ⟨hname, -⟩ := MkDecode.mtspr_lines r (MkDecode.mem_lines.mpr ⟨hr, h.fits.kept⟩)
  rw [← h.fits.name, hname, h.fits.primary, h.fits.number]
  constructor
  · intro hw
    obtain rfl := Option.some.inj ((rowOf_of_mem hmem hm).symm.trans (rowOf_mtspr c hw))
    exact ⟨rfl, rfl⟩
  · rintro ⟨-, hxo⟩
    obtain ⟨x, hx, h467⟩ := Option.map_eq_some_iff.mp hxo
    have h467 : x = 467 := by exact_mod_cast h467
    exact isMtspr_of_accepts hmem hm (hx.trans (congrArg some h467))

/-- What `mtspr` refuses, by its registers. -/
theorem isIcInvSet_iff (h : Stands c r i o m) (hr : r ∈ MkDecode.ppcRows)
    (hm : m.accepts w = true) : isIcInvSet w = true ↔
      o.name = "mtspr" ∧ (lineRegs o w).head?.map BitVec.toNat = some sprICInvSet := by
  obtain ⟨-, hfields⟩ := MkDecode.mtspr_lines r (MkDecode.mem_lines.mpr ⟨hr, h.fits.kept⟩)
  rw [isIcInvSet, Bool.and_eq_true, beq_iff_eq, isMtspr_iff h hr hm]
  refine and_congr_right fun hname => ?_
  obtain ⟨hparams, hform⟩ := hfields (h.fits.name.trans hname)
  have hspr : (lineRegs o w).head? = some (xfxSpr w) := by
    rw [lineRegs, ← h.fits.params, ← h.fits.form, hparams, hform]
    exact congrArg some (MkDecode.ofInt_toNat (xfxSpr w))
  rw [hspr, Option.map_some, Option.some_inj]

/-- The body of a word is that of its line's function. -/
theorem callOp_of_stands (h : Stands c r i o m) (hr : r ∈ MkDecode.ppcRows)
    (hm : m.accepts w = true) : callOp c w = jitBody o.name (lineRegs o w) (m.call w) := by
  rw [callOp, jitBody, decode_of_mem (List.mem_of_getElem? h.row) hm]
  exact if_congr (isIcInvSet_iff h hr hm) rfl rfl

theorem callOp_of_none (h : rowOf c w = none) : callOp c w = Prog.call opUnk := by
  have hset : isIcInvSet w = false := by
    cases hw : isMtspr w with
    | false => rw [isIcInvSet, hw, Bool.false_and]
    | true =>
      rw [rowOf_mtspr c hw] at h
      cases h
  rw [callOp, hset, if_neg Bool.false_ne_true, decode, h]
  rfl

/-- **The calls of the generated decoder run the bodies of their words**, if
the interpreter's functions are compiled. -/
theorem linked_of_compiled {out : Outside Machine (Out Abort Machine Unit)} {keep : ℕ → Prop}
    {this : BitVec 64} {lo hi : ℕ} (hp : MkDecode.generate MkDecode.ppcRows = .ok p)
    (hc : Compiled c addr unk out keep this lo hi) (ws : List (BitVec 32)) :
    Linked c (Decoder.generated p.2 addr unk) out keep this lo hi ws := by
  refine ⟨fun w _ here hlo hhi => hc.near _ ?_ here hlo hhi, fun w _ => ?_⟩
  · cases hrow : rowOf c w with
    | none =>
      rw [opCall_of_none addr unk hp hrow]
      exact .inl rfl
    | some m =>
      obtain ⟨r, hr, i, o, h, hm⟩ := MkDecode.exists_line_of_rowOf hrow
      exact .inr ⟨o, List.mem_of_getElem? h.op, (opCall_of_stands addr unk hp h hr hm).1⟩
  · cases hrow : rowOf c w with
    | none =>
      obtain ⟨f, hout, hf⟩ := hc.unk
      rw [opCall_of_none addr unk hp hrow, opBody_eq, callOp_of_none hrow]
      exact ⟨f, hout, hf w⟩
    | some m =>
      obtain ⟨r, hr, i, o, h, hm⟩ := MkDecode.exists_line_of_rowOf hrow
      obtain ⟨haddr, hargs⟩ := opCall_of_stands addr unk hp h hr hm
      obtain ⟨f, hout, hf⟩ := hc.op o (List.mem_of_getElem? h.op)
      rw [haddr, hargs, opBody_eq, callOp_of_stands h hr hm]
      exact ⟨f, hout, hf _ _ (List.length_map ..) (h.entered_eq w)⟩

/-- **From the instruction table to the processor.** A live block that the
generated decoder made, executed where the interpreter's functions are
compiled, makes the calls of its words, in their order, up to one that is
left; that comes to the interpreter's results where the interpreter's fetches
return the same words and change nothing, and it takes an alignment interrupt
only at words that have the DSISR of the word before the block. -/
theorem generated_block_executes {buf : Buffer} {b : Made} {st : BlockStore}
    {out : Outside Machine (Out Abort Machine Unit)} {this : BitVec 64} {s : State}
    (hp : MkDecode.generate MkDecode.ppcRows = .ok p) (mem : Arena.Mem) {ls : List Label}
    (hrun : Steps (Step buf c (.generated p.2 addr unk)) (initBlockStore buf mem) ls st)
    (hb : b ∈ live st.trace)
    (hmem : ∀ x, b.ptr ≤ x → x < b.stop (.generated p.2 addr unk) → s.mem x = st.mem x)
    (hent : Entered (.generated p.2 addr unk) b this s)
    (hc : Compiled c addr unk out (b.Keeps (.generated p.2 addr unk) (s.regs .rsp).toNat) this
      (blockCodeptr b.ptr) (b.stop (.generated p.2 addr unk))) (g : Machine) :
    Ran (.generated p.2 addr unk) b out s g (runBlock c b.words g) ∧
      (Fetches c b.words g → AlignsAs c g.interp.inst b.words g →
        DoesAsInterpreter c b.words g) := by
  obtain ⟨hcode, hfits⟩ := code_of_run mem hrun hb hmem
  exact ⟨ran_of_code hcode hfits hent (linked_of_compiled hp hc b.words),
    fun hfetches haligns => (coupled_iff rfl rfl hfetches).mpr haligns⟩

/-! ## The load, by the generated decoder -/

/-- Functions in a row, in the order of the table. -/
def rowAddr (name : String) : BitVec 64 :=
  BitVec.ofNat 64 (0x400000 + MkDecode.ops.findIdx (·.name == name))

/-- A function that runs its body on the registers it is called with. -/
def called (c : Config) (o : Op) (s : State) (g : Machine) :
    Ret Machine (Out Abort Machine Unit) :=
  let regs := (List.range o.params.length).map fun k => s.arg (k + 1)
  (o.entered c regs).elim (bare .goesOn s g) fun x => bare (ended (jitBody o.name regs x)) s g

/-- The functions at those addresses, `op_unk` below them. -/
def calledOut (c : Config) : Outside Machine (Out Abort Machine Unit) := fun a =>
  if a = 0x300000 then some (bare (ended (Prog.call opUnk)))
  else (MkDecode.ops.find? fun o => rowAddr o.name == a).map (called c)

theorem toNat_rowAddr (name : String) :
    (rowAddr name).toNat = 0x400000 + MkDecode.ops.findIdx (·.name == name) := by
  have hle : MkDecode.ops.findIdx (·.name == name) ≤ 136 := List.findIdx_le_length
  rw [rowAddr, BitVec.toNat_ofNat]
  exact Nat.mod_eq_of_lt (by omega)

/-- No two functions are at one address. -/
theorem find?_rowAddr {o : Op} (ho : o ∈ MkDecode.ops) :
    MkDecode.ops.find? (fun q => rowAddr q.name == rowAddr o.name) = some o := by
  have hfound (q : Op) (hq : q ∈ MkDecode.ops) (h : rowAddr q.name = rowAddr o.name) :
      q.name = o.name := by
    have hidx := congrArg BitVec.toNat h
    rw [toNat_rowAddr, toNat_rowAddr] at hidx
    have hlt : MkDecode.ops.findIdx (·.name == q.name) < MkDecode.ops.length :=
      List.findIdx_lt_length_of_exists ⟨q, hq, beq_self_eq_true _⟩
    have hlt' : MkDecode.ops.findIdx (·.name == o.name) < MkDecode.ops.length :=
      List.findIdx_lt_length_of_exists ⟨o, ho, beq_self_eq_true _⟩
    have hat := List.findIdx_getElem (p := fun x : Op => x.name == q.name) (w := hlt)
    have hat' := List.findIdx_getElem (p := fun x : Op => x.name == o.name) (w := hlt')
    have hsame : MkDecode.ops.findIdx (·.name == q.name) =
      MkDecode.ops.findIdx (·.name == o.name) := by omega
    simp only [hsame] at hat
    exact (beq_iff_eq.mp hat).symm.trans (beq_iff_eq.mp hat')
  refine find?_of_pairwise ?_ ho (beq_self_eq_true _)
  refine (List.pairwise_map.mp MkDecode.names_nodup).imp_of_mem fun {x y} hx hy hne hxo => ?_
  rw [beq_eq_false_iff_ne]
  intro hyo
  exact hne ((hfound x hx (beq_iff_eq.mp hxo)).trans (hfound y hy hyo).symm)

/-- A function that reads its registers conforms. -/
theorem called_conforms {keep : ℕ → Prop} {this : BitVec 64} {regs : List Reg} {x : InterpM Unit}
    (hlen : regs.length = o.params.length) (hx : o.entered c regs = some x) :
    Conforms keep this regs (ended (jitBody o.name regs x)) (called c o) := by
  intro s g hal hthis hargs
  have hregs : ((List.range o.params.length).map fun k => s.arg (k + 1)) = regs := by
    refine List.ext_getElem (by simp [hlen]) fun k hk hk' => ?_
    rw [List.getElem_map, List.getElem_range]
    exact hargs k _ (List.getElem?_eq_getElem hk')
  have hcalled : called c o s g = bare (ended (jitBody o.name regs x)) s g := by
    simp only [called, hregs, hx, Option.elim_some]
  rw [hcalled]
  exact bare_conforms s g hal hthis hargs

theorem compiled_rowAddr {keep : ℕ → Prop} {this : BitVec 64} {lo hi : ℕ}
    (hhi : hi + maxCall ≤ 2 ^ 31) :
    Compiled c rowAddr 0x300000 (calledOut c) keep this lo hi := by
  have hlow (name : String) : (rowAddr name).toNat < 2 ^ 31 ∧ 0x400000 ≤ (rowAddr name).toNat := by
    have hle : MkDecode.ops.findIdx (·.name == name) ≤ 136 := List.findIdx_le_length
    rw [toNat_rowAddr]
    omega
  refine ⟨fun o ho here _ hhere => OpCall.near_of_lt ?_ (by omega), fun o ho => ?_, ?_⟩
  · rcases ho with h | ⟨f, -, h⟩
    · rw [h]
      decide
    · rw [h]
      exact (hlow f.name).1
  · have hne : rowAddr o.name ≠ 0x300000 := by
      intro h
      have hge := (hlow o.name).2
      rw [h] at hge
      exact absurd hge (by decide)
    refine ⟨called c o, ?_, fun regs x hlen hx => called_conforms hlen hx⟩
    rw [calledOut, if_neg hne, find?_rowAddr ho, Option.map_some]
  · exact ⟨_, if_pos rfl, fun w => bare_conforms⟩

/-- The generated decoder makes a block of the load. -/
theorem exists_generatedMade : ∃ p t m, MkDecode.generate MkDecode.ppcRows = .ok p ∧
    createBlock .low (.quiet .default) (.generated p.2 rowAddr 0x300000)
      (lwzMachine 0 ⟨.zero, lwzSys⟩).cpu 0 (initBlockStore .low fun _ => 0)
      ⟨Mmu.zero.construct, lwzSys⟩ = .ok (some (4096, t)) m ∧
      (∀ blk ∈ live t.trace, blk.words = [0x80600005#32]) ∧
      Fetches (.quiet .default) [0x80600005#32] (lwzMachine 0x80600005 m) := by
  have h : ((MkDecode.generate MkDecode.ppcRows).toOption.any fun p =>
      (createBlock .low (.quiet .default) (.generated p.2 rowAddr 0x300000)
        (lwzMachine 0 ⟨.zero, lwzSys⟩).cpu 0 (initBlockStore .low fun _ => 0)
        ⟨Mmu.zero.construct, lwzSys⟩).test fun r m => lwzMade 0x80600005 m r) = true := by
    decide +kernel
  cases hp : MkDecode.generate MkDecode.ppcRows with
  | error e =>
    rw [hp] at h
    cases h
  | ok p =>
    rw [hp] at h
    obtain ⟨r, m, hrun, hr⟩ := Out.of_test h
    obtain _ | ⟨b, t⟩ := r
    · cases hr
    · simp only [lwzMade, Bool.and_eq_true, beq_iff_eq, List.all_eq_true] at hr
      obtain ⟨⟨rfl, hwords⟩, hhit⟩ := hr
      exact ⟨p, t, m, rfl, hrun, hwords, fetches_of_fetchHit hhit⟩

/-- Its block is entered with a stack below the buffer. -/
theorem generated_block_executes_lwz : ∃ p b s g, MkDecode.generate MkDecode.ppcRows = .ok p ∧
    b.words = [0x80600005#32] ∧
    Ran (.generated p.2 rowAddr 0x300000) b (calledOut (.quiet .default)) s g
      (runBlock (.quiet .default) b.words g) ∧
    DoesAsInterpreter (.quiet .default) b.words g := by
  obtain ⟨p, st, m, hp, hrun, hwords, hfetches⟩ := exists_generatedMade
  have hinv : Inv .low (.generated p.2 rowAddr 0x300000) (initBlockStore .low fun _ => 0) :=
    inv_resetBlockstore
  obtain ⟨b, hlive, hptr, -, -⟩ := createBlock_made hinv hrun (by decide)
  have hsteps := Steps.single (Step.create _ _ m hrun)
  have hws : b.words = [0x80600005#32] := hwords b hlive
  have hcodeptr : blockCodeptr b.ptr = 4160 := by rw [hptr]; rfl
  let s : State := ⟨fun r => if r = .rsp then 1032 else 0, 4160, st.mem⟩
  have hsp : (s.regs .rsp).toNat = 1032 := rfl
  have hent : Entered (.generated p.2 rowAddr 0x300000) b 0 s := by
    refine ⟨by rw [hcodeptr]; rfl, rfl, ?_, ?_, .inr ?_⟩
    all_goals omega
  have hstop := ((inv_of_run hsteps hinv).inside b hlive).2
  have hbase : Buffer.low.base = 4096 := rfl
  obtain ⟨hran, hagrees⟩ := generated_block_executes hp _ hsteps hlive (fun _ _ _ => rfl) hent
    (compiled_rowAddr (by
      simp only [bsCodeSize, maxCall] at hstop ⊢
      omega)) (lwzMachine 0x80600005 m)
  refine ⟨p, b, s, _, hp, hws, hran, hagrees (hws ▸ hfetches) ?_⟩
  rw [hws]
  exact ⟨fun _ _ _ => rfl, fun _ _ _ => trivial⟩

end Jit

end MrIss
