import MrIss.Jit.Linked
import MrIss.Machine.Counted
/-!
# The run loop

A round of the run loop finds the block of the PC, or makes one, calls it,
and counts its instructions. The block that was found last is taken again
where the MMU has not been changed since the start; any other is looked up by
the address that the PC translates to. What is called is a live block, but
where the PC and the MSR are those of the dummy block. The count of
instructions leaves out the blocks that an exception left.
-/

namespace MrIss

namespace Jit

open EarlyReturn Run

/-! ## Finding a block -/

/-- `bs_gencount`, which nothing changes. -/
def bsGencount : ℕ := 0

/-- `last_block->pc`; that of the dummy block is all ones. -/
def BlockStore.lastPc (s : BlockStore) : VA :=
  if s.lastBlock = 0 then 0xffffffff else getPc s.mem s.lastBlock

/-- `last_block->msr`. -/
def BlockStore.lastMsr (s : BlockStore) : Reg :=
  if s.lastBlock = 0 then 0xffffffff else getMsr s.mem s.lastBlock

/-- What a search comes to; block zero is the dummy block. -/
inductive Found where
  | block (b : ℕ)
  | missing
  | fault (f : Fault)
  deriving DecidableEq, Repr

section

variable (buf : Buffer) (c : Config) (d : Decoder)

/-- `findBlock_slow`; `none` where the lookup takes more than `fuel`
steps. -/
def findBlockSlow (fuel : ℕ) (p : CpuState) (s : BlockStore) :
    MmuM (Option (Found × BlockStore)) := do
  match ← Mmu.translateAddr c p.user.pc true true p.isPrivileged with
  | .error f => pure (some (.fault f, s))
  | .ok pa =>
    pure ((bsHmLookup fuel (pa.setWidth 32) p.os.msr s).map fun r =>
      (if r.1 = 0 then .missing else .block r.1, r.2))

/-- `findBlock`. -/
def findBlock (fuel : ℕ) (p : CpuState) (s : BlockStore) :
    MmuM (Option (Found × BlockStore)) := do
  let gen ← Prog.gets fun m => m.mmu.generationCount.toNat
  if gen = bsGencount ∧ s.lastPc = p.user.pc ∧ s.lastMsr = p.os.msr then
    pure (some (.block s.lastBlock, s))
  else
    findBlockSlow c fuel p s

/-- The head of a round: the block that is found, or made. -/
def obtainBlock (fuel : ℕ) (p : CpuState) (s : BlockStore) :
    MmuM (Option (Found × BlockStore)) := do
  match ← findBlock c fuel p s with
  | some (.missing, s) =>
    -- where the PC faults there is no block, and the search is made again
    let r ← createBlock buf c d p fuel s
    pure (r.map fun r => (if r.1 = 0 then .missing else .block r.1, r.2))
  | r => pure r

end

/-! ## Rounds -/

/-- What follows a block that has returned the number of its instructions. -/
def afterBlock (n : ℕ) : InterpM Unit := do
  Prog.modify fun g => { g with cpu := g.cpu.cpuTick ((BitVec.ofNat 32 n).setWidth 64) }
  let p ← Prog.gets Machine.cpu
  if p.isIRQPending then raiseIRQException
  else Prog.when p.isDecrementerPending raiseDECException

/-- The simulator: the guest, and the block store. -/
structure Sim where
  guest : Machine
  store : BlockStore

/-- What a round does. -/
inductive Did where
  /-- Calls a block, which returns. -/
  | returned (b : Made)
  /-- Calls a block, which an exception leaves. -/
  | left (b : Made)
  /-- Calls what is no block. -/
  | wild (ptr : ℕ)
  | raised (f : Fault)
  | again
  | devices (irq : Bool)

/-- The block that a round calls. -/
def Did.block : Did → Option Made
  | .returned b | .left b => some b
  | _ => none

/-- What a round counts. -/
def Did.counted : Did → ℕ
  | .returned b => b.words.length
  | _ => 0

/-- A round of the run loop, where no break is requested, and what devices do
between two. A block that raises an exception jumps back to the head of the
loop. What comes of a call of what is no block is left open. -/
inductive Round (buf : Buffer) (c : Config) (d : Decoder) : Sim → Did → Sim → Prop where
  | fault {s : Sim} {st : BlockStore} {fuel : ℕ} {f : Fault} {m : Mem} {g : Machine}
      (h : obtainBlock buf c d fuel s.guest.cpu s.store s.guest.mem =
        .ok (some (.fault f, st)) m)
      (hraise : raiseMemException true true s.guest.cpu.user.pc f 0
        { s.guest with mem := m } = .ok () g)
      (hbreak : s.guest.interp.wantBreak = false) : Round buf c d s (.raised f) ⟨g, st⟩
  | again {s : Sim} {st : BlockStore} {fuel : ℕ} {m : Mem}
      (h : obtainBlock buf c d fuel s.guest.cpu s.store s.guest.mem =
        .ok (some (.missing, st)) m)
      (hbreak : s.guest.interp.wantBreak = false) :
      Round buf c d s .again ⟨{ s.guest with mem := m }, st⟩
  | returned {s : Sim} {st : BlockStore} {fuel : ℕ} {b : Made} {m : Mem} {g g' : Machine}
      (h : obtainBlock buf c d fuel s.guest.cpu s.store s.guest.mem =
        .ok (some (.block b.ptr, st)) m)
      (hb : b ∈ live st.trace)
      (hrun : runBlock c b.words { s.guest with mem := m } = .ok () g)
      (hafter : afterBlock b.words.length g = .ok () g')
      (hbreak : s.guest.interp.wantBreak = false) :
      Round buf c d s (.returned b) ⟨g', st⟩
  | left {s : Sim} {st : BlockStore} {fuel : ℕ} {b : Made} {m : Mem} {g : Machine}
      (h : obtainBlock buf c d fuel s.guest.cpu s.store s.guest.mem =
        .ok (some (.block b.ptr, st)) m)
      (hb : b ∈ live st.trace)
      (hrun : runBlock c b.words { s.guest with mem := m } = .ret g)
      (hbreak : s.guest.interp.wantBreak = false) :
      Round buf c d s (.left b) ⟨g, st⟩
  | wild {s t : Sim} {st : BlockStore} {fuel ptr : ℕ} {m : Mem}
      (h : obtainBlock buf c d fuel s.guest.cpu s.store s.guest.mem =
        .ok (some (.block ptr, st)) m)
      (hno : ∀ b ∈ live st.trace, b.ptr ≠ ptr)
      (hbreak : s.guest.interp.wantBreak = false) : Round buf c d s (.wild ptr) t
  | devices {s : Sim} (irq : Bool) (sys : Sys) :
      Round buf c d s (.devices irq) ⟨s.guest.devices irq sys, s.store⟩

/-! ## What a search finds -/

section

variable {buf : Buffer} {c : Config} {d : Decoder} {p : CpuState} {s t : BlockStore}
  {m m' : Mem} {fuel : ℕ}

/-- The block found last is live, or the dummy block. -/
def LastLive (s : BlockStore) : Prop :=
  s.lastBlock = 0 ∨ ∃ b ∈ live s.trace, b.ptr = s.lastBlock

/-- The PC of a state leads to a block, and its MSR is the block's: the
block was made for the PC, or for the address that it translates to. -/
def Made.Serves (c : Config) (p : CpuState) (m : Mem) (b : Made) : Prop :=
  b.msr = p.os.msr ∧ (b.pc = p.user.pc ∨ ∃ pa m', Mmu.translateAddr c p.user.pc true true
    p.isPrivileged m = .ok (.ok pa) m' ∧ pa.setWidth 32 = b.pcPa)

/-- The dummy block is taken for a block of the PC. -/
structure DummyMatches (p : CpuState) (m : Mem) (s : BlockStore) : Prop where
  last : s.lastBlock = 0
  gen : m.mmu.generationCount.toNat = bsGencount
  pc : p.user.pc = 0xffffffff
  msr : p.os.msr = 0xffffffff

/-- What a search may come to, in the store that it leaves. -/
def Sought (c : Config) (p : CpuState) (m : Mem) (s t : BlockStore) : Found → Prop
  | .block ptr => (∃ b ∈ live t.trace, b.ptr = ptr ∧ b.Serves c p m) ∨
      ptr = 0 ∧ DummyMatches p m s
  | _ => True

/-- **A lookup finds a live block** of the address and the MSR. -/
theorem lookup_serves (hinv : Inv buf d s) {pcPa : PA} {msr : Reg} {b : ℕ}
    (h : bsHmLookup fuel pcPa msr s = some (b, t)) (hb : b ≠ 0) :
    t = { s with lastBlock := b } ∧
      ∃ blk ∈ live s.trace, blk.ptr = b ∧ blk.pcPa = pcPa ∧ blk.msr = msr := by
  obtain ⟨q, hwalk, hq⟩ := Option.bind_eq_some_iff.mp h
  cases hq
  obtain ⟨hmem, hhit⟩ := Chain.walk_hit (hinv.chains _) hwalk hb
  obtain ⟨blk, hlive, rfl⟩ := mem_live_of_mem_bucket hmem
  have hheader := (hinv.intact blk hlive).header
  rw [Bool.and_eq_true, beq_iff_eq, beq_iff_eq, hheader.pcPa, hheader.msr] at hhit
  exact ⟨if_neg hb, blk, hlive, rfl, hhit.1, hhit.2⟩

/-- A lookup that finds nothing changes nothing. -/
theorem lookup_missing {pcPa : PA} {msr : Reg}
    (h : bsHmLookup fuel pcPa msr s = some (0, t)) : t = s := by
  obtain ⟨q, -, hq⟩ := Option.bind_eq_some_iff.mp h
  cases hq
  exact if_pos rfl

/-- **A search keeps the store,** and finds what serves. -/
theorem findBlock_sound (hinv : Inv buf d s) (hlast : LastLive s) {r : Found}
    (h : findBlock c fuel p s m = .ok (some (r, t)) m') :
    Inv buf d t ∧ LastLive t ∧ live t.trace = live s.trace ∧ Sought c p m s t r := by
  rw [findBlock, Prog.gets_bind_apply] at h
  split at h
  · next hshort =>
    -- the shortcut reads the header of the last block, or of the dummy block
    cases h
    refine ⟨hinv, hlast, rfl, ?_⟩
    obtain ⟨hgen, hpc, hmsr⟩ := hshort
    rw [BlockStore.lastPc] at hpc
    rw [BlockStore.lastMsr] at hmsr
    by_cases hzero : s.lastBlock = 0
    · rw [if_pos hzero] at hpc hmsr
      exact .inr ⟨hzero, hzero, hgen, hpc.symm, hmsr.symm⟩
    · rw [if_neg hzero] at hpc hmsr
      obtain ⟨b, hlive, hptr⟩ := hlast.resolve_left hzero
      have hheader := (hinv.intact b hlive).header
      rw [← hptr, hheader.pc] at hpc
      rw [← hptr, hheader.msr] at hmsr
      exact .inl ⟨b, hlive, hptr, hmsr, .inl hpc⟩
  · obtain ⟨res, m₁, htr, h⟩ := Prog.bind_eq_ok h
    cases res with
    | error f =>
      cases h
      exact ⟨hinv, hlast, rfl, trivial⟩
    | ok pa =>
      obtain ⟨⟨b, u⟩, hlookup, hr⟩ := Option.map_eq_some_iff.mp (Out.ok.inj h).1
      cases hr
      have hmoves := moves_of_lookup hinv hlookup
      by_cases hb : b = 0
      · subst hb
        obtain rfl := lookup_missing hlookup
        exact ⟨hinv, hlast, rfl, trivial⟩
      · obtain ⟨rfl, blk, hlive, hptr, hpa, hmsr⟩ := lookup_serves hinv hlookup hb
        dsimp only
        rw [if_neg hb]
        exact ⟨hmoves.inv, .inr ⟨blk, hlive, hptr⟩, rfl,
          .inl ⟨blk, hlive, hptr, hmsr, .inr ⟨pa, m₁, htr, hpa.symm⟩⟩⟩

/-- What `makeRoom` leaves of the blocks. -/
theorem lastLive_makeRoom (buf : Buffer) (h : LastLive s) : LastLive (makeRoom buf s) := by
  unfold makeRoom
  split
  · exact .inl rfl
  · exact h

/-- Where it matches, the dummy block is found. -/
theorem obtainBlock_dummy (h : DummyMatches p m s) :
    obtainBlock buf c d fuel p s m = .ok (some (.block 0, s)) m := by
  have hfind : findBlock c fuel p s m = .ok (some (.block 0, s)) m := by
    have hshort : m.mmu.generationCount.toNat = bsGencount ∧ s.lastPc = p.user.pc ∧
        s.lastMsr = p.os.msr := by
      refine ⟨h.gen, ?_, ?_⟩
      · rw [BlockStore.lastPc, if_pos h.last, h.pc]
      · rw [BlockStore.lastMsr, if_pos h.last, h.msr]
    rw [findBlock, Prog.gets_bind_apply, if_pos hshort, h.last]
    rfl
  rw [obtainBlock, Prog.bind_of_ok hfind]
  rfl

/-- **A pass keeps the block found last,** or empties the store. -/
theorem attempt_lastLive (hinv : Inv buf d s) (hlast : LastLive s) {r : Attempt}
    (h : attempt buf c d p s m = .ok r m') :
    (∃ b t, r = .done b t ∧ LastLive t) ∨ ∃ t, r = .retry t ∧ Inv buf d t ∧ LastLive t := by
  rcases attempt_cases hinv h with rfl | ⟨pcPa, g, -, -, rfl⟩
  · exact .inl ⟨0, s, rfl, hlast⟩
  cases hoom : g.cursor.oomAbort with
  | false =>
    rw [finish_of_not_oom hoom]
    refine .inl ⟨_, _, rfl, ?_⟩
    rcases lastLive_makeRoom buf hlast with hzero | ⟨b, hb, hptr⟩
    · exact .inl hzero
    · exact .inr ⟨b, List.mem_cons_of_mem _ hb, hptr⟩
  | true =>
    obtain ⟨u, hu⟩ := finish_of_oom buf p pcPa (makeRoom buf s)
      (bytesAvail buf (makeRoom buf s)) hoom
    rw [hu]
    exact .inr ⟨_, rfl, inv_retried, .inl rfl⟩

theorem createBlock_lastLive (hinv : Inv buf d s) (hlast : LastLive s) {b : ℕ}
    (h : createBlock buf c d p fuel s m = .ok (some (b, t)) m') : LastLive t := by
  induction fuel generalizing s m with
  | zero =>
    rw [createBlock] at h
    obtain ⟨res, m₁, hres, h⟩ := Prog.bind_eq_ok h
    rcases attempt_lastLive hinv hlast hres with ⟨b', t', rfl, ht⟩ | ⟨t', rfl, -, -⟩
    · cases h
      exact ht
    · cases h
  | succ fuel ih =>
    rw [createBlock] at h
    obtain ⟨res, m₁, hres, h⟩ := Prog.bind_eq_ok h
    rcases attempt_lastLive hinv hlast hres with ⟨b', t', rfl, ht⟩ | ⟨t', rfl, hinv', ht⟩
    · cases h
      exact ht
    · exact ih hinv' ht h

/-- **The head of a round keeps the store,** and finds or makes what
serves. -/
theorem obtainBlock_sound (hinv : Inv buf d s) (hlast : LastLive s) {r : Found}
    (h : obtainBlock buf c d fuel p s m = .ok (some (r, t)) m') :
    Inv buf d t ∧ LastLive t ∧ Sought c p m s t r := by
  obtain ⟨res, m₁, hfind, h⟩ := Prog.bind_eq_ok h
  obtain _ | ⟨r₁, u⟩ := res
  · cases h
  obtain ⟨hinv₁, hlast₁, hlive₁, hsound⟩ := findBlock_sound hinv hlast hfind
  cases r₁ with
  | block ptr =>
    cases h
    exact ⟨hinv₁, hlast₁, hsound⟩
  | fault f =>
    cases h
    exact ⟨hinv₁, hlast₁, trivial⟩
  | missing =>
    -- a block that is made is of the PC itself
    obtain ⟨res, m₂, hcreate, h⟩ := Prog.bind_eq_ok h
    obtain ⟨⟨b, v⟩, rfl, hr⟩ := Option.map_eq_some_iff.mp (Out.ok.inj h).1
    cases hr
    have hmoves := (createBlock_moves hinv₁ hcreate).2 b v rfl
    refine ⟨hmoves.inv, createBlock_lastLive hinv₁ hlast₁ hcreate, ?_⟩
    dsimp only
    split
    · trivial
    · next hb =>
      obtain ⟨blk, hlive, hptr, hpc, hmsr⟩ := createBlock_made hinv₁ hcreate hb
      exact .inl ⟨blk, hlive, hptr, hmsr, .inl hpc⟩

end

/-! ## Runs -/

section

variable {buf : Buffer} {c : Config} {d : Decoder} {s t : Sim} {l : Did}

/-- What holds of the store between two rounds. -/
structure SimInv (buf : Buffer) (d : Decoder) (s : Sim) : Prop where
  store : Inv buf d s.store
  last : LastLive s.store

/-- **A round keeps the store,** unless it calls what is no block. -/
theorem Round.keeps (h : Round buf c d s l t) (hl : ∀ ptr, l ≠ .wild ptr)
    (hinv : SimInv buf d s) : SimInv buf d t := by
  cases h with
  | fault h | again h | returned h | left h =>
    obtain ⟨hstore, hlast, -⟩ := obtainBlock_sound hinv.store hinv.last h
    exact ⟨hstore, hlast⟩
  | wild => exact absurd rfl (hl _)
  | devices irq sys => exact ⟨hinv.store, hinv.last⟩

theorem simInv_of_run {mem : Arena.Mem} {g : Machine} {ls : List Did}
    (hrun : Steps (Round buf c d) ⟨g, initBlockStore buf mem⟩ ls s)
    (hls : ∀ ptr, .wild ptr ∉ ls) : SimInv buf d s := by
  have hne : ∀ l ∈ ls, ∀ ptr, l ≠ .wild ptr := fun l hl ptr heq => hls ptr (heq ▸ hl)
  exact hrun.invariant_of_forall ⟨inv_resetBlockstore, .inl rfl⟩ hne
    fun _ _ _ hl hi hr => hr.keeps hl hi

/-- Blocks at one place are of one PC, one address and one MSR. -/
theorem serves_of_ptr {st : BlockStore} (hinv : Inv buf d st) {b b' : Made}
    (hb : b ∈ live st.trace) (hb' : b' ∈ live st.trace) (hptr : b'.ptr = b.ptr) {p : CpuState}
    {m : Mem} (h : b'.Serves c p m) : b.Serves c p m := by
  have hheader := (hinv.intact b hb).header
  have hheader' := (hinv.intact b' hb').header
  rw [hptr] at hheader'
  rw [Made.Serves, ← hheader.msr, ← hheader.pc, ← hheader.pcPa, hheader'.msr, hheader'.pc,
    hheader'.pcPa]
  exact h

/-- What a round that called a block has done: the block has returned, and
its instructions have been counted, or it was left by an exception. -/
def Ended (c : Config) (b : Made) (u : Machine) (t : Machine) : Prop :=
  runBlock c b.words u = .ret t ∨
    ∃ g, runBlock c b.words u = .ok () g ∧ afterBlock b.words.length g = .ok () t

/-- **The block that a round calls** is live, whole, and serves. -/
theorem Round.called_sound (h : Round buf c d s l t) (hinv : SimInv buf d s) {b : Made}
    (hl : l.block = some b) :
    (b ∈ live t.store.trace ∧ b.Intact d t.store.mem ∧ b.Serves c s.guest.cpu s.guest.mem) ∧
      ∃ m, Ended c b { s.guest with mem := m } t.guest := by
  have hcalled {st : BlockStore} {fuel : ℕ} {m : Mem} (h : obtainBlock buf c d fuel s.guest.cpu
      s.store s.guest.mem = .ok (some (.block b.ptr, st)) m) (hb : b ∈ live st.trace) :
      b ∈ live st.trace ∧ b.Intact d st.mem ∧ b.Serves c s.guest.cpu s.guest.mem := by
    obtain ⟨hstore, -, hsound⟩ := obtainBlock_sound hinv.store hinv.last h
    refine ⟨hb, hstore.intact b hb, ?_⟩
    rcases hsound with ⟨b', hb', hptr, hserves⟩ | ⟨hzero, -⟩
    · exact serves_of_ptr hstore hb hb' hptr hserves
    · have hinside := (hstore.inside b hb).1
      have hpos := buf.pos
      omega
  cases h with
  | returned h hb hrun hafter =>
    cases hl
    exact ⟨hcalled h hb, _, .inr ⟨_, hrun, hafter⟩⟩
  | left h hb hrun =>
    cases hl
    exact ⟨hcalled h hb, _, .inl hrun⟩
  | fault | again | wild | devices => cases hl

/-- **A round that calls no block** calls the dummy block. -/
theorem Round.wild_iff (h : Round buf c d s l t) (hinv : SimInv buf d s) :
    (∃ ptr, l = .wild ptr) ↔ (∀ irq, l ≠ .devices irq) ∧
      DummyMatches s.guest.cpu s.guest.mem s.store := by
  have hpos := buf.pos
  have hfound {fuel : ℕ} {r : Found} {st : BlockStore} {m : Mem}
      (h : obtainBlock buf c d fuel s.guest.cpu s.store s.guest.mem = .ok (some (r, st)) m)
      (hd : DummyMatches s.guest.cpu s.guest.mem s.store) : r = .block 0 ∧ st = s.store := by
    rw [obtainBlock_dummy hd] at h
    cases h
    exact ⟨rfl, rfl⟩
  have hblock {b : Made} (hb : b ∈ live s.store.trace) : b.ptr ≠ 0 := by
    have := (hinv.store.inside b hb).1
    omega
  constructor
  · rintro ⟨ptr, rfl⟩
    cases h with
    | wild h hno =>
      obtain ⟨-, -, hsound⟩ := obtainBlock_sound hinv.store hinv.last h
      rcases hsound with ⟨b, hb, hptr, -⟩ | hdummy
      · exact absurd hptr (hno b hb)
      · exact ⟨fun _ => nofun, hdummy.2⟩
  · rintro ⟨hdev, hd⟩
    -- whatever else the round did, it has found the dummy block
    cases h with
    | fault h => cases (hfound h hd).1
    | again h => cases (hfound h hd).1
    | returned h hb | left h hb =>
      obtain ⟨hptr, rfl⟩ := hfound h hd
      exact absurd (Found.block.inj hptr) (hblock hb)
    | wild => exact ⟨_, rfl⟩
    | devices irq => exact absurd rfl (hdev irq)

/-- **The run loop calls blocks**: in every run up to a call of what is no
block, whatever the guest and devices do between two rounds, what a round
calls is a live block whose code
and header are whole, of the MSR, and of the PC or of the address that it
translates to. The round leaves the guest where the interpreter's rounds over
the block's words do, but for what follows the block, where the interpreter's
fetches return these words and change nothing, and it takes an alignment
interrupt only at words that have the DSISR of the word executed last. A
round calls what is no block exactly where the dummy block matches, with the
PC and the MSR all ones. -/
theorem runloop_sound (mem : Arena.Mem) (g : Machine) {ls : List Did}
    (hrun : Steps (Round buf c d) ⟨g, initBlockStore buf mem⟩ ls s)
    (hls : ∀ ptr, .wild ptr ∉ ls) (hround : Round buf c d s l t) :
    (∀ b, l.block = some b →
      (b ∈ live t.store.trace ∧ b.Intact d t.store.mem ∧ b.Serves c s.guest.cpu s.guest.mem) ∧
      ∃ m, Ended c b { s.guest with mem := m } t.guest ∧
        (Fetches c b.words { s.guest with mem := m } →
          AlignsAs c s.guest.interp.inst b.words { s.guest with mem := m } →
          DoesAsInterpreter c b.words { s.guest with mem := m })) ∧
    ((∃ ptr, l = .wild ptr) ↔ (∀ irq, l ≠ .devices irq) ∧
      DummyMatches s.guest.cpu s.guest.mem s.store) := by
  have hinv := simInv_of_run hrun hls
  refine ⟨fun b hl => ?_, hround.wild_iff hinv⟩
  obtain ⟨hfound, m, hended⟩ := hround.called_sound hinv hl
  exact ⟨hfound, m, hended, fun hfetches haligns => (coupled_iff rfl rfl hfetches).mpr haligns⟩

end

/-! ## The count -/

/-- A call is not empty. -/
theorem OpCall.code_ne_nil (o : OpCall) (here : ℕ) : o.code here ≠ [] := by
  unfold OpCall.code
  split
  case h_8 addr a b c d e f g l few n => exact absurd few (by simp only [List.length_cons]; omega)
  all_goals
    simp [generateCall, generateCallInt, generateCallIntInt, generateCallIntIntInt,
      generateCallIntIntIntInt, generateCallIntIntIntIntInt, generateCallIntIntIntIntIntInt,
      callCode]

theorem Decoder.length_le_calls (d : Decoder) (here : ℕ) (ws : List (BitVec 32)) :
    ws.length ≤ (d.calls here ws).length := by
  induction ws generalizing here with
  | nil => exact Nat.le_refl 0
  | cons w ws ih =>
    have hpos := List.length_pos_of_ne_nil ((d.opCall w).code_ne_nil here)
    have hrest := ih (here + ((d.opCall w).code here).length)
    rw [Decoder.calls, List.length_append, List.length_cons]
    omega

/-- The number of a block's words fits in the register that returns it. -/
theorem length_words_lt {buf : Buffer} {d : Decoder} {b : Made} (h : b.Inside buf d) :
    b.words.length < 2 ^ 32 := by
  have hcalls := d.length_le_calls (blockCodeptr b.ptr + prologue.length) b.words
  obtain ⟨hbase, hstop⟩ := h
  have hsize : bsCodeSize = 4194304 := rfl
  have hptr := ptr_lt_stop d b
  have hwords : b.words = b.insts.map Prod.snd := rfl
  rw [Made.stop, Made.code, List.length_append, List.length_append, ← hwords,
    blockCodeptr_eq] at hstop
  rw [blockCodeptr_eq] at hcalls
  omega

/-- The calls of a block leave the count as it is. -/
theorem count_runBlock (c : Config) (ws : List (BitVec 32)) :
    Keeps tallyFrame (runBlock c ws) := by
  have hcall (w : BitVec 32) : Keeps tallyFrame (callOp c w) := by
    have hop := count_call c w
    unfold callOp
    infer_instance
  induction ws with
  | nil =>
    unfold runBlock
    infer_instance
  | cons w ws ih =>
    have hret : Keeps tallyFrame (Prog.ret : InterpM Unit) := .ret .refl
    have hw := hcall w
    unfold runBlock
    infer_instance

section

variable {buf : Buffer} {c : Config} {d : Decoder} {s t : Sim} {l : Did}

/-- What follows a block counts its words. -/
theorem count_afterBlock {n : ℕ} {g g' : Machine} (h : afterBlock n g = .ok () g') :
    g'.cpu.cpuInstCount = g.cpu.cpuInstCount + (BitVec.ofNat 32 n).setWidth 64 := by
  let u : Machine := { g with cpu := g.cpu.cpuTick ((BitVec.ofNat 32 n).setWidth 64) }
  exact count_interrupts.of_ok (s := u) h

/-- What a round counts. -/
theorem Round.counts (h : Round buf c d s l t) (hl : ∀ ptr, l ≠ .wild ptr)
    (hinv : SimInv buf d s) : t.guest.cpu.cpuInstCount =
      s.guest.cpu.cpuInstCount + BitVec.ofNat 64 l.counted := by
  cases h with
  | fault h hraise hbreak =>
    rename_i st fuel f m g
    have hg : g.cpu.cpuInstCount = s.guest.cpu.cpuInstCount :=
      (count_raiseMem true true _ f 0).of_ok (s := { s.guest with mem := m }) hraise
    rw [hg]
    exact (BitVec.add_zero _).symm
  | again => exact (BitVec.add_zero _).symm
  | returned h hb hrun hafter hbreak =>
    rename_i b m g _
    have hlt := length_words_lt ((obtainBlock_sound hinv.store hinv.last h).1.inside _ hb)
    have hword : (BitVec.ofNat 32 b.words.length).setWidth 64 =
        BitVec.ofNat 64 b.words.length := by
      apply BitVec.eq_of_toNat_eq
      rw [BitVec.toNat_setWidth, BitVec.toNat_ofNat, BitVec.toNat_ofNat]
      omega
    have hg : g.cpu.cpuInstCount = s.guest.cpu.cpuInstCount :=
      (count_runBlock c b.words).of_ok (s := { s.guest with mem := m }) hrun
    rw [count_afterBlock hafter, hword, hg]
    rfl
  | left h hb hrun hbreak =>
    rename_i b m g
    have hg : g.cpu.cpuInstCount = s.guest.cpu.cpuInstCount := by
      have hkeeps := (count_runBlock c b.words).out { s.guest with mem := m }
      rw [hrun] at hkeeps
      exact hkeeps
    rw [hg]
    exact (BitVec.add_zero _).symm
  | wild => exact absurd rfl (hl _)
  | devices irq sys => exact (BitVec.add_zero _).symm

/-- **The run loop counts the blocks that return,** each by the number of its
words; what a block has done before an exception left it is not counted. -/
theorem count_of_runloop (mem : Arena.Mem) (g : Machine) {ls : List Did}
    (hrun : Steps (Round buf c d) ⟨g, initBlockStore buf mem⟩ ls s)
    (hls : ∀ ptr, .wild ptr ∉ ls) : s.guest.cpu.cpuInstCount =
      g.cpu.cpuInstCount + BitVec.ofNat 64 (ls.map Did.counted).sum := by
  induction hrun with
  | nil => exact (BitVec.add_zero _).symm
  | snoc run last ih =>
    rename_i es _ _ l
    have hes : ∀ ptr, .wild ptr ∉ es := fun ptr h => hls ptr (List.mem_append_left _ h)
    have hl : ∀ ptr, l ≠ .wild ptr := fun ptr heq =>
      hls ptr (List.mem_append_right _ (heq ▸ List.mem_singleton_self l))
    rw [last.counts hl (simInv_of_run run hes), ih hes, List.map_append, List.sum_append,
      BitVec.ofNat_add, BitVec.add_assoc]
    rfl

end

/-! ## On the processor -/

/-- **From the instruction table to a run of the simulator.** In every run of
the run loop up to a call of what is no block, a block that a round calls,
executed where the interpreter's functions are compiled, makes the calls of
its words, in their order, up to one that is left, and the round goes on from
what that comes to. -/
theorem runloop_executes
    {p : MkDecode.Program MkDecode.Call × MkDecode.Program MkDecode.GenCall}
    {addr : String → BitVec 64} {unk this : BitVec 64} {buf : Buffer} {c : Config} {s t : Sim}
    {l : Did} {b : Made} {out : X64.Outside Machine (Out Abort Machine Unit)} {x : X64.State}
    (hp : MkDecode.generate MkDecode.ppcRows = .ok p) (mem : Arena.Mem) (g : Machine)
    {ls : List Did}
    (hrun : Steps (Round buf c (.generated p.2 addr unk)) ⟨g, initBlockStore buf mem⟩ ls s)
    (hls : ∀ ptr, .wild ptr ∉ ls) (hround : Round buf c (.generated p.2 addr unk) s l t)
    (hl : l.block = some b)
    (hmem : ∀ a, b.ptr ≤ a → a < b.stop (.generated p.2 addr unk) → x.mem a = t.store.mem a)
    (hent : Entered (.generated p.2 addr unk) b this x)
    (hc : Compiled c addr unk out (b.Keeps (.generated p.2 addr unk) (x.regs .rsp).toNat) this
      (blockCodeptr b.ptr) (b.stop (.generated p.2 addr unk))) :
    ∃ m, Ran (.generated p.2 addr unk) b out x { s.guest with mem := m }
        (runBlock c b.words { s.guest with mem := m }) ∧
      Ended c b { s.guest with mem := m } t.guest := by
  have hinv := simInv_of_run hrun hls
  obtain ⟨⟨hlive, -, -⟩, m, hended⟩ := hround.called_sound hinv hl
  have hcalls : ∀ ptr, l ≠ .wild ptr := by
    rintro ptr rfl
    cases hl
  obtain ⟨hcode, hfits⟩ := code_of_inv (hround.keeps hcalls hinv).store hlive hmem
  exact ⟨m, ran_of_code hcode hfits hent (linked_of_compiled hp hc b.words), hended⟩

/-! ## The load, in the run loop -/

/-- A block of the load has been made, and it is left. -/
def lwzCalled (g : Machine) (m : Mem) : Option (Found × BlockStore) → Bool
  | some (.block b, t) => b == 4096 &&
    (live t.trace).any (fun blk => blk.ptr == 4096 && blk.words == [0x80600005#32]) &&
    (match runBlock (.quiet .default) [0x80600005#32] { g with mem := m } with
    | .ret _ => true
    | _ => false)
  | _ => false

/-- The simulator before the load. -/
def lwzSim : Sim :=
  ⟨lwzMachine 0 ⟨Mmu.zero.construct, lwzSys⟩, initBlockStore .low fun _ => 0⟩

/-- The round of the load, where its block is made. -/
theorem round_of_lwzCalled {d : Decoder}
    (h : (obtainBlock .low (.quiet .default) d 1 lwzSim.guest.cpu lwzSim.store
      lwzSim.guest.mem).test (fun r m => lwzCalled lwzSim.guest m r) = true) :
    ∃ (b : Made) (t : Sim), b.words = [0x80600005#32] ∧ b.ptr = 4096 ∧
      Round .low (.quiet .default) d lwzSim (.left b) t := by
  obtain ⟨r, m, hobtain, hr⟩ := Out.of_test h
  obtain _ | ⟨_ | _ | _, t⟩ := r
  · cases hr
  · next ptr =>
    simp only [lwzCalled, Bool.and_eq_true, beq_iff_eq, List.any_eq_true] at hr
    obtain ⟨⟨rfl, b, hb, hptr, hwords⟩, hleft⟩ := hr
    cases hrun : runBlock (.quiet .default) [0x80600005#32] { lwzSim.guest with mem := m } with
    | ok _ g => rw [hrun] at hleft; cases hleft
    | abort e g => rw [hrun] at hleft; cases hleft
    | ret g =>
      rw [← hwords] at hrun
      rw [← hptr] at hobtain
      exact ⟨b, ⟨g, t⟩, hwords, hptr, .left hobtain hb hrun rfl⟩
  · cases hr
  · cases hr

/-- The round of the load that is not aligned. -/
theorem round_lwz : ∃ (b : Made) (t : Sim), b.words = [0x80600005#32] ∧ b.ptr = 4096 ∧
    Round .low (.quiet .default) .lwz lwzSim (.left b) t :=
  round_of_lwzCalled (by decide +kernel)

/-- The load that is not aligned is called, and left. -/
theorem runloop_sound_lwz : ∃ (b : Made) (t : Sim), b.words = [0x80600005#32] ∧
    b ∈ live t.store.trace ∧ b.Intact .lwz t.store.mem ∧
    b.Serves (.quiet .default) lwzSim.guest.cpu lwzSim.guest.mem := by
  obtain ⟨b, t, hwords, -, hround⟩ := round_lwz
  obtain ⟨⟨hlive, hintact, hserves⟩, -⟩ :=
    (runloop_sound (fun _ => 0) lwzSim.guest .nil (fun _ => List.not_mem_nil) hround).1 b rfl
  exact ⟨b, t, hwords, hlive, hintact, hserves⟩

/-- The load that is not aligned is not counted. -/
theorem count_of_runloop_lwz : ∃ (b : Made) (t : Sim),
    Round .low (.quiet .default) .lwz lwzSim (.left b) t ∧ t.guest.cpu.cpuInstCount = 0 := by
  obtain ⟨b, t, -, -, hround⟩ := round_lwz
  have hrun : Steps (Round .low (.quiet .default) .lwz)
      ⟨lwzSim.guest, initBlockStore .low fun _ => 0⟩ [.left b] t := .single hround
  refine ⟨b, t, hround, ?_⟩
  rw [count_of_runloop (fun _ => 0) lwzSim.guest hrun (by simp)]
  rfl

/-- The run loop calls the block of the load that the generated decoder
makes. -/
theorem runloop_executes_lwz : ∃ p b x g, MkDecode.generate MkDecode.ppcRows = .ok p ∧
    b.words = [0x80600005#32] ∧
    Ran (.generated p.2 rowAddr 0x300000) b (calledOut (.quiet .default)) x g
      (runBlock (.quiet .default) b.words g) := by
  have h : ((MkDecode.generate MkDecode.ppcRows).toOption.any fun p =>
      (obtainBlock .low (.quiet .default) (.generated p.2 rowAddr 0x300000) 1 lwzSim.guest.cpu
        lwzSim.store lwzSim.guest.mem).test fun r m => lwzCalled lwzSim.guest m r) = true := by
    decide +kernel
  cases hp : MkDecode.generate MkDecode.ppcRows with
  | error e =>
    rw [hp] at h
    cases h
  | ok p =>
    rw [hp] at h
    obtain ⟨b, t, hws, hptr, hround⟩ := round_of_lwzCalled h
    have hinv : SimInv .low (.generated p.2 rowAddr 0x300000) lwzSim :=
      ⟨inv_resetBlockstore, .inl rfl⟩
    obtain ⟨⟨hlive, -, -⟩, -⟩ := hround.called_sound hinv rfl
    have hcodeptr : blockCodeptr b.ptr = 4160 := by rw [hptr]; rfl
    let x : X64.State := ⟨fun r => if r = .rsp then 1032 else 0, 4160, t.store.mem⟩
    have hsp : (x.regs .rsp).toNat = 1032 := rfl
    have hent : Entered (.generated p.2 rowAddr 0x300000) b 0 x := by
      refine ⟨by rw [hcodeptr]; rfl, rfl, ?_, ?_, .inr ?_⟩
      all_goals omega
    have hstop := ((hround.keeps (fun _ => nofun) hinv).store.inside b hlive).2
    have hbase : Buffer.low.base = 4096 := rfl
    obtain ⟨m, hran, -⟩ := runloop_executes hp (fun _ => 0) lwzSim.guest .nil
      (fun _ => List.not_mem_nil) hround rfl (fun _ _ _ => rfl) hent (compiled_rowAddr (by
        simp only [bsCodeSize, maxCall] at hstop ⊢
        omega))
    exact ⟨p, b, x, _, rfl, hws, hran⟩

end Jit

end MrIss
