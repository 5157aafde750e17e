import MrIss.Interp.Twin
import MrIss.Jit.Whole
/-!
# A block and the interpreter

A block calls the bodies of the instructions in their order, with what the
decoder made of each word, and is left where one raises an exception. The
interpreter fetches each word, keeps a copy of it, and calls the same body.
The two agree in every register and in memory, but where an alignment
interrupt is taken: DSISR is made from the interpreter's copy of the word,
which a block never sets.
-/

namespace MrIss

namespace Jit

open EarlyReturn Run

/-! ## Running a block -/

/-- The words whose calls are in a block. -/
def Made.words (b : Made) : List (BitVec 32) := b.insts.map Prod.snd

/-- `mtspr` to `SPR_IC_INV_SET`, which only the interpreter ignores: "Need
to implement I$ invalidate for JIT". -/
def isIcInvSet (w : BitVec 32) : Bool := isMtspr w && (xfxSpr w).toNat == sprICInvSet

section

variable (c : Config)

/-- The call of the body of a word, in a program that has the JIT. -/
def callOp (w : BitVec 32) : InterpM Unit :=
  if isIcInvSet w then Prog.abort (.spr sprICInvSet) else Prog.call (decode c w)

/-- The calls of a block. `takeException` jumps back to the run loop, which
leaves the rest of them out. -/
def runBlock : List (BitVec 32) → InterpM Unit
  | [] => pure ()
  | w :: ws => do
    let before ← Prog.gets Machine.raised
    callOp c w
    let after ← Prog.gets Machine.raised
    if after = before then runBlock ws else Prog.ret

/-- The end of a round of `execute`, in a program that has the JIT. -/
def dispatchOp (pc : VA) : Except Fault (BitVec 32) → InterpM (Option (BitVec 32))
  | .error f => do
    raiseMemException true true pc f 0
    pure none
  | .ok inst => do
    Prog.modify fun s => { s with interp := { s.interp with inst := inst } }
    callOp c inst
    pure (some inst)

/-- A round of `execute`, in the same program. -/
def executeOp : InterpM (Option (BitVec 32)) := do
  let pc ← getPC
  Prog.modify fun s => { s with interp := { s.interp with pc := pc } }
  let res ← translating true (Mmu.loadInst32 c pc)
  dispatchOp c pc res

/-- `execute`, for as many instructions, or up to an exception. -/
def runExecute : ℕ → InterpM Unit
  | 0 => pure ()
  | n + 1 => do
    let before ← Prog.gets Machine.raised
    let _ ← executeOp c
    let after ← Prog.gets Machine.raised
    if after = before then runExecute n else Prog.ret

/-! ## What is asked of the two -/

/-- What a block and the interpreter are compared in. -/
structure SameResults (s t : Machine) : Prop where
  cpu : s.cpu = t.cpu
  registers : s.mem.mmu.registers = t.mem.mmu.registers
  memory : s.mem.sys.mem = t.mem.sys.mem
  io : s.mem.sys.io = t.mem.sys.io

/-- **A block does what the interpreter does:** both run through, or both
are left at an exception, with the same results; or the simulator ends in
both, for the same reason. -/
def DoesAsInterpreter (ws : List (BitVec 32)) (s : Machine) : Prop :=
  (runBlock c ws s).Coupled ⟨SameResults, SameResults⟩ (runExecute c ws.length s)

/-- As far as the interpreter gets, it fetches the words of the block, and no
fetch changes memory or the devices, so that no referenced bit is left to be
set. Code that is modified does not meet this, nor does a block that maps its
own page to other code. -/
def Fetches : List (BitVec 32) → Machine → Prop
  | [], _ => True
  | w :: ws, s => (∃ u, Decodes c s w u ∧ u.mem.sys.contents = s.mem.sys.contents) ∧
    ∀ t, executeOp c s = .ok (some w) t → t.raised = s.raised → Fetches ws t

/-- The body of a word takes an alignment interrupt. -/
def TakesAlign (w : BitVec 32) (u : Machine) : Prop :=
  ∃ t, callOp c w u = .ok () t ∧ u.raised < t.raised ∧
    t.shown.exceptions.head? = some (.exception .align)

/-- An alignment interrupt is taken only at words that have the DSISR of
`i`. -/
def AlignsAs (i : BitVec 32) : List (BitVec 32) → Machine → Prop
  | [], _ => True
  | w :: ws, s => (∀ u, Decodes c s w u → TakesAlign c w u → alignDSISR i = alignDSISR w) ∧
    ∀ t, executeOp c s = .ok (some w) t → t.raised = s.raised → AlignsAs i ws t

end

/-! ## One instruction -/

variable {c : Config} {i w : BitVec 32} {ws : List (BitVec 32)} {n : ℕ} {s t u : Machine}

/-- What shows is the results, and more. -/
theorem SameResults.of_shown (h : s.shown = t.shown) : SameResults s t := by
  have hmem : s.mem.dataSide = t.mem.dataSide := congrArg Shown.mem h
  have hmmu : s.mem.mmu.dataSide = t.mem.mmu.dataSide := congrArg Prod.fst hmem
  have hsys : s.mem.sys.contents = t.mem.sys.contents := congrArg Prod.snd hmem
  have hregs : s.mem.mmu.dataSide.registers = t.mem.mmu.dataSide.registers :=
    congrArg Mmu.registers hmmu
  exact ⟨congrArg Shown.cpu h, hregs, congrArg Prod.fst hsys, congrArg Prod.snd hsys⟩

/-- **A fetch shows in nothing** if it leaves memory and devices alone. -/
theorem shown_of_decodes (h : Decodes c s w u) (hsys : u.mem.sys.contents = s.mem.sys.contents) :
    u.shown = s.shown ∧ u.interp.inst = w := by
  obtain ⟨v, hfetch, rfl⟩ := h
  let s₁ : Machine := { s with interp := { s.interp with pc := s.cpu.user.pc } }
  have hrun : translating true (Mmu.loadInst32 c s.cpu.user.pc) s₁ = Prog.zoom Machine.mem
    (fun s t => s.translated true t) (Mmu.loadInst32 c s.cpu.user.pc s.cpu.isPrivileged) s₁ := rfl
  rw [hrun, Prog.zoom] at hfetch
  cases hload : Mmu.loadInst32 c s.cpu.user.pc s.cpu.isPrivileged s₁.mem with
  | ret m => rw [hload] at hfetch; cases hfetch
  | abort e m => rw [hload] at hfetch; cases hfetch
  | ok res m =>
    rw [hload] at hfetch
    cases hfetch
    have hside : m.mmu.dataSide = s.mem.mmu.dataSide := Mmu.dataSide_loadInst32 hload
    have hmem : m.dataSide = s.mem.dataSide := Prod.ext hside hsys
    refine ⟨?_, rfl⟩
    simp only [Machine.shown, s₁, Machine.translated, hmem]
    rfl

/-- A fetch has one outcome. -/
theorem decodes_unique {w' : BitVec 32} {u' : Machine} (h : Decodes c s w u)
    (h' : Decodes c s w' u') : w = w' ∧ u = u' := by
  obtain ⟨v, hfetch, rfl⟩ := h
  obtain ⟨v', hfetch', rfl⟩ := h'
  rw [hfetch] at hfetch'
  cases hfetch'
  exact ⟨rfl, rfl⟩

/-- What `execute` does with a word that it has fetched. -/
theorem executeOp_of_decodes (h : Decodes c s w u) :
    executeOp c s = (callOp c w >>= fun _ => pure (some w)) u := by
  obtain ⟨v, hfetch, rfl⟩ := h
  let s₁ : Machine := { s with interp := { s.interp with pc := s.cpu.user.pc } }
  change (translating true (Mmu.loadInst32 c s.cpu.user.pc) >>= dispatchOp c s.cpu.user.pc) s₁ = _
  rw [Prog.bind_of_ok hfetch]
  rfl

/-- Without that `mtspr` the program with the JIT executes as the other. -/
theorem executeOp_eq (h : Decodes c s w u) (hinv : isIcInvSet w = false) :
    executeOp c s = execute c s := by
  rw [executeOp_of_decodes h]
  obtain ⟨v, hfetch, rfl⟩ := h
  let s₁ : Machine := { s with interp := { s.interp with pc := s.cpu.user.pc } }
  change _ = (translating true (Mmu.loadInst32 c s.cpu.user.pc) >>= dispatch c s.cpu.user.pc) s₁
  rw [Prog.bind_of_ok hfetch, callOp, hinv]
  rfl

/-- How a call in a block and an execution of its word compare. -/
inductive StepEnds (c : Config) (i w : BitVec 32) (s t u : Machine) : Prop where
  /-- They leave the same. -/
  | same {s' t' : Machine} (hs : callOp c w s = .ok () s') (ht : executeOp c t = .ok (some w) t')
      (hshown : s'.shown = t'.shown) (hinst : s'.interp.inst = i) (halign : ¬TakesAlign c w u)
  /-- They have taken an alignment interrupt, each with its own DSISR. -/
  | parted {s' t' : Machine} (hs : callOp c w s = .ok () s')
      (ht : executeOp c t = .ok (some w) t') (hparted : Parted i w s.raised s' t')
      (halign : TakesAlign c w u)
  /-- Both have ended the simulator. -/
  | aborted {e : Abort} {s' t' : Machine} (hs : callOp c w s = .abort e s')
      (ht : executeOp c t = .abort e t') (halign : ¬TakesAlign c w u)

/-- **One instruction.** -/
theorem step_ends (hu : Decodes c t w u) (hsys : u.mem.sys.contents = t.mem.sys.contents)
    (hshown : s.shown = t.shown) (hinst : s.interp.inst = i) : StepEnds c i w s t u := by
  obtain ⟨hfetched, hright⟩ := shown_of_decodes hu hsys
  have htwin : Twin i w s.raised s u := ⟨hshown.trans hfetched.symm, hinst, hright, le_rfl,
    fun h => absurd h (lt_irrefl _)⟩
  have hraised : s.raised = u.raised := Machine.raised_of_shown htwin.shown
  have hexec := executeOp_of_decodes hu
  -- a call that goes on is no alignment interrupt if the two have stayed twins
  have hplain {s' t' : Machine} (h : Twin i w s.raised s' t') (ht : callOp c w u = .ok () t') :
      ¬TakesAlign c w u := by
    rintro ⟨v, hv, hmore, hlatest⟩
    rw [ht] at hv
    cases hv
    rw [← hraised, ← Machine.raised_of_shown h.shown] at hmore
    rw [← h.shown] at hlatest
    exact h.plain hmore hlatest
  have hends {s' t' : Machine} (hs : callOp c w s = .ok () s') (ht : callOp c w u = .ok () t')
      (h : Twin i w s.raised s' t' ∨ Parted i w s.raised s' t') : StepEnds c i w s t u := by
    have hr : executeOp c t = .ok (some w) t' := by
      rw [hexec, Prog.bind_of_ok ht]
      rfl
    rcases h with h | h
    · exact .same hs hr h.shown h.left (hplain h ht)
    · refine .parted hs hr h ⟨t', ht, ?_, ?_⟩
      · rw [← hraised, ← h.raised]
        exact h.before
      · rw [← h.shown]
        exact h.latest
  have haborts {e : Abort} {s' t' : Machine} (hs : callOp c w s = .abort e s')
      (ht : callOp c w u = .abort e t') : StepEnds c i w s t u := by
    refine .aborted hs (by rw [hexec, Prog.bind_of_abort ht]) ?_
    rintro ⟨v, hv, -⟩
    rw [ht] at hv
    cases hv
  cases hinv : isIcInvSet w with
  | true =>
    have hcall (v : Machine) : callOp c w v = .abort (.spr sprICInvSet) v := by
      rw [callOp, hinv]
      rfl
    exact haborts (hcall s) (hcall u)
  | false =>
    have hcall : callOp c w = Prog.call (decode c w) := by
      rw [callOp, hinv]
      rfl
    have hout := (Twin.decode (c := c) (i := i) (j := w) (n := s.raised) w).out s u htwin
    cases hs : decode c w s <;> cases ht : decode c w u <;> rw [hs, ht] at hout
    case ok.ok a s' b t' =>
      exact hends (by rw [hcall, Prog.call, hs]) (by rw [hcall, Prog.call, ht]) (.inl hout.2)
    case ret.ret s' t' =>
      exact hends (by rw [hcall, Prog.call, hs]) (by rw [hcall, Prog.call, ht]) hout
    case abort.abort e s' e' t' =>
      have hee : e = e' := hout
      subst hee
      exact haborts (by rw [hcall, Prog.call, hs]) (by rw [hcall, Prog.call, ht])
    all_goals exact hout.elim

/-! ## A block -/

section

variable {r : ℕ}

/-- A block after one of its calls. -/
theorem runBlock_cons (h : callOp c w s = .ok () t) : runBlock c (w :: ws) s =
    if t.raised = s.raised then runBlock c ws t else .ret t := by
  rw [runBlock, Prog.gets_bind_apply, Prog.bind_of_ok h, Prog.gets_bind_apply]
  split <;> rfl

theorem runBlock_abort {e : Abort} (h : callOp c w s = .abort e t) :
    runBlock c (w :: ws) s = .abort e t := by
  rw [runBlock, Prog.gets_bind_apply, Prog.bind_of_abort h]

theorem runExecute_succ (h : executeOp c s = .ok (some w) t) : runExecute c (r + 1) s =
    if t.raised = s.raised then runExecute c r t else .ret t := by
  rw [runExecute, Prog.gets_bind_apply, Prog.bind_of_ok h, Prog.gets_bind_apply]
  split <;> rfl

theorem runExecute_abort {e : Abort} (h : executeOp c s = .abort e t) :
    runExecute c (r + 1) s = .abort e t := by
  rw [runExecute, Prog.gets_bind_apply, Prog.bind_of_abort h]

end

/-- **The runs of the calls and of the interpreter.** By induction on the
words: the two show the same as long as there is no exception. -/
theorem coupled_iff (hshown : s.shown = t.shown) (hinst : s.interp.inst = i)
    (hfetches : Fetches c ws t) : (runBlock c ws s).Coupled ⟨SameResults, SameResults⟩
      (runExecute c ws.length t) ↔ AlignsAs c i ws t := by
  induction ws generalizing s t with
  | nil => exact iff_of_true ⟨rfl, .of_shown hshown⟩ trivial
  | cons w ws ih =>
    obtain ⟨⟨u, hu, hsys⟩, hrest⟩ := hfetches
    have hbefore := Machine.raised_of_shown hshown
    -- what is asked of the first word
    have hfirst : (∀ u', Decodes c t w u' → TakesAlign c w u' → alignDSISR i = alignDSISR w) ↔
        (TakesAlign c w u → alignDSISR i = alignDSISR w) := by
      refine ⟨fun h => h u hu, fun h u' hu' => ?_⟩
      obtain ⟨-, rfl⟩ := decodes_unique hu hu'
      exact h
    rw [AlignsAs, hfirst, List.length_cons]
    cases step_ends hu hsys hshown hinst with
    | @same s' t' hs ht hshown' hinst' halign =>
      have hafter := Machine.raised_of_shown hshown'
      rw [runBlock_cons hs, runExecute_succ ht, hafter, hbefore]
      by_cases heq : t'.raised = t.raised
      · rw [if_pos heq, if_pos heq, ih hshown' hinst' (hrest t' ht heq)]
        refine ⟨fun h => ⟨fun hw => absurd hw halign, fun v hv _ => ?_⟩, fun h => h.2 t' ht heq⟩
        rw [ht] at hv
        cases hv
        exact h
      · rw [if_neg heq, if_neg heq]
        refine iff_of_true (SameResults.of_shown hshown') ⟨fun hw => absurd hw halign, fun v hv h => ?_⟩
        rw [ht] at hv
        cases hv
        exact absurd h heq
    | @parted s' t' hs ht hparted halign =>
      have hmore := hparted.before
      have hmore' : t.raised < t'.raised := by rw [← hbefore, ← hparted.raised]; exact hmore
      rw [runBlock_cons hs, runExecute_succ ht, if_neg hmore.ne', if_neg hmore'.ne']
      constructor
      · intro h
        refine ⟨fun _ => hparted.dsisr_eq (SameResults.cpu h), fun v hv heq => ?_⟩
        rw [ht] at hv
        cases hv
        exact absurd heq hmore'.ne'
      · rintro ⟨h, -⟩
        exact SameResults.of_shown (hparted.shown_eq (h halign))
    | aborted hs ht halign =>
      rw [runBlock_abort hs, runExecute_abort ht]
      refine iff_of_true rfl ⟨fun hw => absurd hw halign, fun v hv => ?_⟩
      rw [ht] at hv
      cases hv

/-! ## What `createBlock` makes -/

section

variable {buf : Buffer} {d : Decoder} {p : CpuState} {st st' : BlockStore} {m m' : Mem}
  {b fuel : ℕ}

/-- A pass leaves nothing, or a block of the PC and the MSR, or an empty
store. -/
theorem attempt_made {r : Attempt} (hinv : Inv buf d st)
    (h : attempt buf c d p st m = .ok r m') : r = .done 0 st ∨
      (∃ blk t, r = .done blk.ptr t ∧ blk ∈ live t.trace ∧ blk.pc = p.user.pc ∧
        blk.msr = p.os.msr) ∨ ∃ t, r = .retry t ∧ Inv buf d t := by
  rcases attempt_cases hinv h with rfl | ⟨pcPa, g, hgen, -, rfl⟩
  · exact .inl rfl
  refine .inr ?_
  cases hoom : g.cursor.oomAbort with
  | false =>
    rw [finish_of_not_oom hoom]
    refine .inl ⟨made p pcPa (makeRoom buf st) g, _, rfl, ?_, rfl, rfl⟩
    rw [live_completed]
    exact List.mem_cons_self
  | true =>
    obtain ⟨u, hu⟩ := finish_of_oom buf p pcPa (makeRoom buf st)
      (bytesAvail buf (makeRoom buf st)) hoom
    rw [hu]
    exact .inr ⟨_, rfl, inv_retried⟩

/-- The block is live, and of the PC and the MSR. -/
theorem createBlock_made (hinv : Inv buf d st)
    (h : createBlock buf c d p fuel st m = .ok (some (b, st')) m') (hb : b ≠ 0) :
    ∃ blk ∈ live st'.trace, blk.ptr = b ∧ blk.pc = p.user.pc ∧ blk.msr = p.os.msr := by
  induction fuel generalizing st m with
  | zero =>
    rw [createBlock] at h
    obtain ⟨res, m₁, hres, h⟩ := Prog.bind_eq_ok h
    rcases attempt_made hinv hres with rfl | ⟨blk, t, rfl, hlive, hpc, hmsr⟩ | ⟨t, rfl, -⟩
    · cases h
      exact absurd rfl hb
    · cases h
      exact ⟨blk, hlive, rfl, hpc, hmsr⟩
    · cases h
  | succ fuel ih =>
    rw [createBlock] at h
    obtain ⟨res, m₁, hres, h⟩ := Prog.bind_eq_ok h
    rcases attempt_made hinv hres with rfl | ⟨blk, t, rfl, hlive, hpc, hmsr⟩ | ⟨t, rfl, ht⟩
    · cases h
      exact absurd rfl hb
    · cases h
      exact ⟨blk, hlive, rfl, hpc, hmsr⟩
    · exact ih ht h

/-- **A block does what the interpreter does,** where the interpreter's
fetches return the block's words and change nothing, but for the DSISR of an
alignment interrupt: that is right where the word the interpreter executed
last would give the same. -/
theorem block_agrees (mem : Arena.Mem) {ls : List Label}
    (hrun : Steps (Step buf c d) (initBlockStore buf mem) ls st)
    (h : createBlock buf c d p fuel st m = .ok (some (b, st')) m') (hb : b ≠ 0) :
    ∃ blk ∈ live st'.trace, blk.ptr = b ∧ blk.pc = p.user.pc ∧ blk.msr = p.os.msr ∧
      blk.Intact d st'.mem ∧ Straight blk.pc blk.insts ∧ blk.insts ≠ [] ∧
      ∀ s, Fetches c blk.words s →
        (DoesAsInterpreter c blk.words s ↔ AlignsAs c s.interp.inst blk.words s) := by
  have hinv : Inv buf d st := inv_of_run hrun inv_resetBlockstore
  obtain ⟨blk, hlive, hptr, hpc, hmsr⟩ := createBlock_made hinv h hb
  have hinv' : Inv buf d st' := ((createBlock_moves hinv h).2 b st' rfl).inv
  obtain ⟨hstraight, hne⟩ := hinv'.straight blk hlive
  exact ⟨blk, hlive, hptr, hpc, hmsr, hinv'.intact blk hlive, hstraight, hne,
    fun s hfetches => coupled_iff rfl rfl hfetches⟩

end

/-! ## A load in the page's last word -/

/-- The word that a fetch gets from memory by an entry of the uTLB. -/
def fetchHit (c : Config) (s : Machine) : Option (BitVec 32) :=
  match s.mem.mmu.utlbLookup true s.cpu.isPrivileged s.cpu.user.pc with
  | none => none
  | some (pa, perms) =>
    if Mmu.checkPerms c.build perms true true = true ∧ Mmu.isDirect pa = true then
      some (ByteMem.swap32 (ByteMem.read32 s.mem.sys.mem pa))
    else none

/-- **Such a fetch changes nothing.** -/
theorem decodes_of_fetchHit (h : fetchHit c s = some w) :
    ∃ u, Decodes c s w u ∧ u.mem = s.mem := by
  unfold fetchHit at h
  cases hl : s.mem.mmu.utlbLookup true s.cpu.isPrivileged s.cpu.user.pc with
  | none => rw [hl] at h; cases h
  | some hit =>
    obtain ⟨pa, perms⟩ := hit
    rw [hl] at h
    dsimp only at h
    split at h
    · next hok =>
      cases h
      let s₁ : Machine := { s with interp := { s.interp with pc := s.cpu.user.pc } }
      have hload : Mmu.loadInst32 c s.cpu.user.pc s.cpu.isPrivileged s.mem =
          .ok (.ok (ByteMem.swap32 (ByteMem.read32 s.mem.sys.mem pa))) s.mem := by
        have htr : Mmu.translateAddr c s.cpu.user.pc true true s.cpu.isPrivileged s.mem =
            .ok (.ok pa) s.mem := by
          rw [Mmu.translateAddr, Prog.gets_bind_apply]
          simp only [hl, hok.1, if_true]
          rfl
        rw [Mmu.loadInst32, Prog.bind_of_ok htr]
        simp only [Mmu.readPA, hok.2, if_true]
        rfl
      have hfetch : translating true (Mmu.loadInst32 c s.cpu.user.pc) s₁ =
          .ok (.ok (ByteMem.swap32 (ByteMem.read32 s.mem.sys.mem pa)))
            (s₁.translated true s.mem) := by
        have hrun : translating true (Mmu.loadInst32 c s.cpu.user.pc) s₁ =
          Prog.zoom Machine.mem (fun s t => s.translated true t)
            (Mmu.loadInst32 c s.cpu.user.pc s.cpu.isPrivileged) s₁ := rfl
        rw [hrun, Prog.zoom, show s₁.mem = s.mem from rfl, hload]
      exact ⟨_, ⟨_, hfetch, rfl⟩, rfl⟩
    · cases h

theorem fetches_of_fetchHit (h : fetchHit c s = some w) : Fetches c [w] s := by
  obtain ⟨u, hu, hmem⟩ := decodes_of_fetchHit h
  exact ⟨⟨u, hu, by rw [hmem]⟩, fun _ _ _ => trivial⟩

/-- A decoder that knows `lwz r3, 5(0)`. -/
def Decoder.lwz : Decoder where
  table w := if w = 0x80600005 then some ⟨0x401000, [0, 5, 3], by simp, 0⟩ else .none
  opUnk := 0x400000

/-- That load at 0xffc. -/
def lwzSys : Sys :=
  ⟨fun a => ([0x80, 0x60, 0, 5] : List (BitVec 8)).getD (a - 0x10000ffc).toNat 0, [], 0⟩

/-- The machine whose PC is there, its interpreter having executed `inst`
last. -/
def lwzMachine (inst : BitVec 32) (m : Mem) : Machine where
  cpu := setInitialCpuContext 0xffc 0 .construct
  interp := { InterpState.zero.construct with inst := inst }
  mem := m
  trace := []

/-- A block of that load has been made, and the load is fetched again from
memory. -/
def lwzMade (inst : BitVec 32) (m : Mem) : Option (ℕ × BlockStore) → Bool
  | .some (b, t) => b == 4096 && (live t.trace).all (·.words == [0x80600005#32]) &&
    fetchHit (.quiet .default) (lwzMachine inst m) == some 0x80600005
  | .none => false

/-- The store after the block has been made, and the MMU and memory. -/
theorem exists_lwzMade (inst : BitVec 32) (test : Mem → Bool)
    (h : (createBlock .low (.quiet .default) .lwz (lwzMachine 0 ⟨.zero, lwzSys⟩).cpu 0
      (initBlockStore .low fun _ => 0) ⟨Mmu.zero.construct, lwzSys⟩).test (fun r m =>
        lwzMade inst m r && test m) = true) :
    ∃ t m, createBlock .low (.quiet .default) .lwz (lwzMachine 0 ⟨.zero, lwzSys⟩).cpu 0
        (initBlockStore .low fun _ => 0) ⟨Mmu.zero.construct, lwzSys⟩ = .ok (some (4096, t)) m ∧
      (∀ blk ∈ live t.trace, blk.words = [0x80600005#32]) ∧
      Fetches (.quiet .default) [0x80600005#32] (lwzMachine inst m) ∧ test m = true := by
  obtain ⟨r, m, hrun, hr⟩ := Out.of_test h
  obtain _ | ⟨b, t⟩ := r
  · cases hr
  · simp only [lwzMade, Bool.and_eq_true, beq_iff_eq, List.all_eq_true] at hr
    obtain ⟨⟨⟨rfl, hwords⟩, hhit⟩, htest⟩ := hr
    exact ⟨t, m, hrun, hwords, fetches_of_fetchHit hhit, htest⟩

/-- A load that is not aligned, after the same load. -/
theorem block_agrees_lwz : ∃ (blk : Made) (s : Machine), blk.words = [0x80600005#32] ∧
    Fetches (.quiet .default) blk.words s ∧ DoesAsInterpreter (.quiet .default) blk.words s := by
  obtain ⟨t, m, hrun, hwords, hfetches, -⟩ :=
    exists_lwzMade 0x80600005 (fun _ => true) (by decide +kernel)
  obtain ⟨blk, hlive, -, -, -, -, -, -, hagree⟩ := block_agrees _ .nil hrun (by decide)
  have hws := hwords blk hlive
  rw [← hws] at hfetches
  refine ⟨blk, _, hws, hfetches, (hagree _ hfetches).mpr ?_⟩
  rw [hws]
  exact ⟨fun _ _ _ => rfl, fun _ _ _ => trivial⟩

/-- DSISR where a run is left at an exception. -/
def leftDsisr : Out Abort Machine Unit → Option Reg
  | .ret s => some s.cpu.os.dsisr
  | _ => none

theorem leftDsisr_eq {x y : Out Abort Machine Unit} (h : x.Coupled ⟨SameResults, SameResults⟩ y) :
    leftDsisr x = leftDsisr y := by
  cases x <;> cases y
  case ret.ret s t =>
    have hsame : SameResults s t := h
    simp only [leftDsisr, hsame.cpu]
  case ok.ok | abort.abort => rfl
  all_goals exact h.elim

/-- The same load after a word of zeroes: the block leaves DSISR clear. -/
theorem block_dsisr_stale : ∃ t m, createBlock .low (.quiet .default) .lwz
      (lwzMachine 0 ⟨.zero, lwzSys⟩).cpu 0 (initBlockStore .low fun _ => 0)
      ⟨Mmu.zero.construct, lwzSys⟩ = .ok (some (4096, t)) m ∧
    (∀ blk ∈ live t.trace, blk.words = [0x80600005#32]) ∧
    Fetches (.quiet .default) [0x80600005] (lwzMachine 0 m) ∧
    ¬DoesAsInterpreter (.quiet .default) [0x80600005] (lwzMachine 0 m) := by
  obtain ⟨t, m, hrun, hwords, hfetches, hdsisr⟩ := exists_lwzMade 0 (fun m =>
    leftDsisr (runBlock (.quiet .default) [0x80600005] (lwzMachine 0 m)) !=
      leftDsisr (runExecute (.quiet .default) 1 (lwzMachine 0 m))) (by decide +kernel)
  refine ⟨t, m, hrun, hwords, hfetches, fun hagree => ?_⟩
  rw [leftDsisr_eq hagree] at hdsisr
  simp at hdsisr

end Jit

end MrIss
