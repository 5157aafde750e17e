import MrIss.Machine.Reservation
import MrIss.Mmu.Rewalk
/-!
# Fetching

`execute` goes back to its label `fetch` for as long as a fetch faults.
An instruction storage interrupt turns translation off, and in every run
an entry of the uTLB that was made with translation off grants every
access; so that the fetch at the vector does not fault, and the loop goes
round once at most.
-/

namespace MrIss

open EarlyReturn Run

/-! ## With translation off -/

/-- The host's memory, or the address itself, marked. -/
theorem ToItself.place {addr : VA} {pa : HVA} (h : ToItself addr pa) :
    Mmu.isDirect (Block.base 12 pa ||| Block.offset 12 (addr.setWidth 64)) = true ∨
      Block.base 12 pa ||| Block.offset 12 (addr.setWidth 64) =
        addr.setWidth 64 ||| 1#64 <<< 63 := by
  rcases h with h | h
  · left
    rw [Mmu.isDirect, Bool.not_eq_true'] at h ⊢
    simp only [BitVec.getLsbD_or, Block.getLsbD_base, Block.getLsbD_offset, h, Bool.false_and,
      show ¬ 63 < 12 by omega, decide_false, Bool.and_false, Bool.or_false]
  · right
    rw [h, ← PagedBus.io_page rfl]

namespace Mmu

variable {c : Config} {addr : VA} {s : Mem}

/-- **With translation off a fetch is from the address itself,** by an
entry or by a walk. -/
theorem translateAddr_off (priv : Bool) (hoff : s.mmu.enabledI = false) (hs : s.mmu.Straight)
    (hdev : (c.map.target addr).isSome) :
    ∃ h t, translateAddr c addr true true priv s = .ok (.ok h) t ∧ t.sys.io = s.sys.io ∧
      (isDirect h = true ∨ h = addr.setWidth 64 ||| 1#64 <<< 63) := by
  have hen : s.mmu.enabled true = false := hoff
  rw [translateAddr, Prog.gets_bind_apply]
  cases hl : s.mmu.utlbLookup true priv addr with
  | some hit =>
    obtain ⟨h, p⟩ := hit
    obtain ⟨hea, hpa, hp⟩ := utlbLookup_eq_some.mp hl
    rw [hen] at hea
    obtain ⟨hany, hto⟩ := hs _ _ addr hea
    rw [hany] at hp
    subst hp hpa
    have hplace := hto.place
    rw [Utlb.getPA, Block.base_base] at hplace
    exact ⟨_, s, rfl, rfl, hplace⟩
  | none =>
    have hwalk : WalkInRam c.map s.mmu addr true priv := fun ht => by
      rw [hen] at ht
      cases ht
    have hres : resolve c s.mmu s.sys.mem addr true true priv = .ok ⟨addr, .any, s.sys.mem⟩ := by
      simp only [resolve, route, hen, Bool.not_false, if_true]
    rcases doLookup_eq true hwalk 1 with ⟨f, _, hf, -⟩ | ⟨r, _, hr, hn, -⟩ | ⟨r, h, i, hr, ht, hx⟩
    · rw [hres] at hf
      cases hf
    · rw [hres] at hr
      cases hr
      rw [hn] at hdev
      cases hdev
    · rw [hres] at hr
      cases hr
      have hplace := (toItself_of_target ht).place
      rw [target_join ht rfl] at hplace
      exact ⟨h, _, hx, rfl, hplace⟩

/-- A device answers a fetch from a physical address. -/
def AnswersRead (c : Config) (io : List IoAccess) (addr : PA) : Prop :=
  ∃ d, c.map.deviceAt addr = some d ∧
    (d.dev = .io → (c.io.reply (⟨false, .word, addr, 0⟩ :: io)).isSome)

/-- The access of the bus. -/
theorem read32_of_answers {sys : Sys} (h : AnswersRead c sys.io addr) :
    ∃ w t, c.map.bus.read32 c.io addr sys = .ok w t := by
  obtain ⟨d, hd, hio⟩ := h
  rcases PagedBus.getDev_eq (B := c.map) addr sys with ⟨hn, -⟩ | ⟨e, i, he, hg⟩
  · cases hn.symm.trans hd
  · cases he.symm.trans hd
    rw [Bus.read32, Prog.bind_of_ok hg]
    cases hdev : d.dev with
    | ram r => exact ⟨_, _, rfl⟩
    | io =>
      obtain ⟨v, hv⟩ := Option.isSome_iff_exists.mp (hio hdev)
      dsimp only
      rw [PagedBus.ioAccess_eq]
      simp only [hv]
      exact ⟨_, _, rfl⟩

/-- **A fetch with translation off succeeds** where a device answers. -/
theorem loadInst32_off (priv : Bool) (hoff : s.mmu.enabledI = false) (hs : s.mmu.Straight)
    (hdev : AnswersRead c s.sys.io addr) :
    ∃ inst t, loadInst32 c addr priv s = .ok (.ok inst) t := by
  have htarget : (c.map.target addr).isSome := by
    obtain ⟨d, hd, -⟩ := hdev
    rw [PagedBus.target, hd]
    rfl
  obtain ⟨h, t, ht, hio, hplace⟩ := translateAddr_off priv hoff hs htarget
  suffices hread : ∃ v u, readPA c .word h t = .ok v u by
    obtain ⟨v, u, hu⟩ := hread
    exact ⟨v, u, by rw [loadInst32, Prog.bind_of_ok ht]; dsimp only; rw [Prog.bind_of_ok hu]; rfl⟩
  rcases hplace with hd | rfl
  · exact ⟨_, _, by simp only [readPA, hd, if_true]; rfl⟩
  · have hback : (addr.setWidth 64 ||| 1#64 <<< 63).setWidth 32 = addr := by
      apply BitVec.eq_of_getLsbD_eq
      intro i hi
      simp [hi]
    have hmark : isDirect (addr.setWidth 64 ||| 1#64 <<< 63) = false := by simp [isDirect]
    rw [← hio] at hdev
    obtain ⟨w, u, hu⟩ := read32_of_answers hdev
    refine ⟨ByteMem.swap32 w, { t with sys := u }, onBus_of_ok ?_⟩
    simp only [hmark, Bool.false_eq_true, if_false, hback]
    rw [Prog.bind_of_ok hu]
    rfl

/-- A fetch does not return early. -/
theorem goesOn_loadInst32 (c : Config) (addr : VA) (priv : Bool) :
    GoesOn (loadInst32 c addr priv) := by
  have htr : GoesOn (translateAddr c addr true true priv) := keeps_translateAddr_of inferInstance
  have hread (pa : HVA) : GoesOn (readPA c .word pa) := by
    unfold readPA
    infer_instance
  unfold loadInst32
  refine .seq htr fun res => ?_
  split <;> infer_instance

end Mmu

/-! ## Entries over runs -/

/-- **Every statement keeps** what entries made with translation off grant. -/
theorem straight_allows : Allows fun s t => s.mem.mmu.Straight → t.mem.mmu.Straight where
  refl _ h := h
  trans h h' := h' ∘ h
  user _ _ _ h := h
  quit _ h := h
  translated _ _ _ ht h := ht.straight h
  accessed _ _ _ _ h := h
  os _ _ _ h := h
  enter _ _ _ _ h := h
  fetched _ _ _ h := h
  tick _ _ h := h

instance straight_xerOps : XerOps straight_allows.frame := straight_allows.xerOps fun _ _ h => h

instance straight_systemOps : SystemOps straight_allows.frame :=
  straight_allows.systemOps (fun _ _ hm h => hm.straight h) fun _ _ h => h

instance straight_reservationOps : ReservationOps straight_allows.frame :=
  straight_allows.reservationOps straight_systemOps (fun _ _ h => h) fun _ _ _ h => h

instance straight_pass (c : Config) : Keeps straight_allows.frame (pass c) :=
  straight_allows.keeps_pass fun _ _ h => h

/-- **The entries of a reachable machine.** -/
theorem straight_run {c : Config} {startAddr startMsr : Reg} {i : InterpState} {m : Mmu}
    {sys : Sys} {ls : List Label} {s : Machine}
    (hrun : Steps (Step c) (.boot startAddr startMsr i m sys) ls s) : s.mem.mmu.Straight := by
  refine hrun.invariant (I := fun s => s.mem.mmu.Straight) (Mmu.straight_construct m)
    fun t l u ht hstep => ?_
  cases hstep with
  | pass hbreak hpass => exact (straight_pass c).of_ok hpass ht
  | devices irq sys => exact ht

/-! ## The loop -/

section

variable (c : Config)

/-- The interpreter's copy of PC is set. -/
def Machine.fetching (s : Machine) : Machine :=
  { s with interp := { s.interp with pc := s.cpu.user.pc } }

/-- The fetch of a round. -/
def fetch (s : Machine) : Out Abort Machine (Except Fault (BitVec 32)) :=
  translating true (Mmu.loadInst32 c s.cpu.user.pc) s.fetching

/-- A device answers at every physical address that the fetch from a state
accesses: it is not the bus that ends the process. -/
def Served (s : Machine) : Prop := ∀ e t, fetch c s = .abort e t → e.ofBus = false

/-- **The loop of `execute`:** from a state, with a number of times back to
the label `fetch`, to the word that is decoded and the state that it is
decoded in. -/
inductive FetchLoop : Machine → ℕ → BitVec 32 → Machine → Prop where
  | decoded {s u : Machine} {inst : BitVec 32} (h : Decodes c s inst u) : FetchLoop s 0 inst u
  /-- The fetch has faulted, and its exception has been taken. -/
  | again {s t u : Machine} {n : ℕ} {inst : BitVec 32} (h : execute c s = .ok none t)
      (rest : FetchLoop t n inst u) : FetchLoop s (n + 1) inst u

/-- The fetch from a state has faulted, and the instruction storage
interrupt for it been delivered. -/
def Interrupted (s t : Machine) : Prop :=
  ∃ f v cause, Mmu.TranslationFault true f ∧ fetch c s = .ok (.error f) v ∧
    t = v.enter .isi ((v.cpu.os.msr &&& ~~~0xf8000000#32) ||| cause)

end

variable {c : Config} {s t : Machine}

/-- What a fetch is, by how the MMU's ends. -/
theorem fetch_eq (c : Config) (s : Machine) :
    fetch c s = match Mmu.loadInst32 c s.cpu.user.pc s.cpu.isPrivileged s.mem with
      | .ok res m => .ok res (s.fetching.translated true m)
      | .ret m => .ret (s.fetching.translated true m)
      | .abort e m => .abort e (s.fetching.translated true m) := by
  change Prog.zoom Machine.mem (fun s t => s.translated true t)
    (Mmu.loadInst32 c s.cpu.user.pc s.cpu.isPrivileged) s.fetching = _
  rw [Prog.zoom, show s.fetching.mem = s.mem from rfl]
  cases Mmu.loadInst32 c s.cpu.user.pc s.cpu.isPrivileged s.mem <;> rfl

/-- A round is its fetch, and what becomes of the result. -/
theorem execute_eq (c : Config) (s : Machine) : execute c s = match fetch c s with
    | .ok res v => dispatch c s.cpu.user.pc res v
    | .ret v => .ret v
    | .abort e v => .abort e v := by
  change (translating true (Mmu.loadInst32 c s.cpu.user.pc) >>= dispatch c s.cpu.user.pc)
    s.fetching = _
  cases hx : fetch c s with
  | ok res v => exact Prog.bind_of_ok hx
  | ret v => exact Prog.bind_of_ret hx
  | abort e v => exact Prog.bind_of_abort hx

/-- A fetch does not return early; it faults as a translation does, and
only the bus ends the process in it. -/
theorem fetch_cases (c : Config) (s : Machine) :
    (∃ inst v, fetch c s = .ok (.ok inst) v) ∨
    (∃ f v, fetch c s = .ok (.error f) v ∧ Mmu.TranslationFault true f) ∨
    ∃ e v, fetch c s = .abort e v ∧ e.ofBus = true := by
  have hout := (Mmu.goesOn_loadInst32 c s.cpu.user.pc s.cpu.isPrivileged).out s.mem
  have hstops : Stops (fun e => e.ofBus = true)
    (Mmu.loadInst32 c s.cpu.user.pc s.cpu.isPrivileged) := inferInstance
  rw [fetch_eq]
  cases hx : Mmu.loadInst32 c s.cpu.user.pc s.cpu.isPrivileged s.mem with
  | ret m => rw [hx] at hout; exact hout.elim
  | abort e m => exact .inr (.inr ⟨e, _, rfl, hstops.out _ _ _ hx⟩)
  | ok res m =>
    cases res with
    | ok inst => exact .inl ⟨inst, _, rfl⟩
    | error f => exact .inr (.inl ⟨f, _, rfl, Mmu.loadInst32_faults _ _ _ hx f rfl⟩)

/-- A fault of a fetch is an instruction storage interrupt. -/
theorem execute_of_fault {f : Fault} {v : Machine} (h : fetch c s = .ok (.error f) v) :
    ∃ t, execute c s = .ok none t ∧ Interrupted c s t := by
  have hf : Mmu.TranslationFault true f := by
    rcases fetch_cases c s with ⟨_, _, hx⟩ | ⟨g, _, hx, hg⟩ | ⟨_, _, hx, -⟩
    · cases h.symm.trans hx
    · cases h.symm.trans hx
      exact hg
    · cases h.symm.trans hx
  have hraise : ∃ cause, dispatch c s.cpu.user.pc (.error f) v =
      .ok none (v.enter .isi ((v.cpu.os.msr &&& ~~~0xf8000000#32) ||| cause)) := by
    rcases hf with rfl | rfl | ⟨rfl, -⟩ <;> exact ⟨_, rfl⟩
  obtain ⟨cause, hd⟩ := hraise
  exact ⟨_, by rw [execute_eq, h]; exact hd, f, v, cause, hf, h, rfl⟩

theorem decodes_of_fetch {inst : BitVec 32} {v : Machine} (h : fetch c s = .ok (.ok inst) v) :
    Decodes c s inst { v with interp := { v.interp with inst := inst } } := ⟨v, h, rfl⟩

/-- **A round that decodes nothing** has delivered an instruction storage
interrupt. -/
theorem interrupted_of_again (h : execute c s = .ok none t) :
    (∃ f v, fetch c s = .ok (.error f) v) ∧ Interrupted c s t := by
  cases hx : fetch c s with
  | ret v => rw [execute_eq, hx] at h; cases h
  | abort e v => rw [execute_eq, hx] at h; cases h
  | ok res v =>
    cases res with
    | error f =>
      obtain ⟨t', ht', hint⟩ := execute_of_fault hx
      cases ht'.symm.trans h
      exact ⟨⟨f, v, rfl⟩, hint⟩
    | ok inst =>
      -- what has been decoded is returned
      rw [execute_eq, hx] at h
      obtain ⟨_, u, -, hu⟩ := Prog.bind_eq_ok h
      obtain ⟨_, w, -, hw⟩ := Prog.bind_eq_ok hu
      cases hw

/-- The loop ends in one way. -/
theorem FetchLoop.unique {n n' : ℕ} {inst inst' : BitVec 32} {u u' : Machine}
    (h : FetchLoop c s n inst u) (h' : FetchLoop c s n' inst' u') :
    n = n' ∧ inst = inst' ∧ u = u' := by
  have hfetch {s u : Machine} {inst : BitVec 32} (h : Decodes c s inst u) :
      ∃ v, fetch c s = .ok (.ok inst) v ∧ u = { v with interp := { v.interp with inst := inst } } :=
    h
  induction h generalizing n' inst' u' with
  | decoded h =>
    obtain ⟨v, hv, rfl⟩ := hfetch h
    cases h' with
    | decoded h' =>
      obtain ⟨v', hv', rfl⟩ := hfetch h'
      cases hv.symm.trans hv'
      exact ⟨rfl, rfl, rfl⟩
    | again h' _ =>
      obtain ⟨⟨f, w, hw⟩, -⟩ := interrupted_of_again h'
      cases hv.symm.trans hw
  | again h _ ih =>
    cases h' with
    | decoded h' =>
      obtain ⟨v, hv, -⟩ := hfetch h'
      obtain ⟨⟨f, w, hw⟩, -⟩ := interrupted_of_again h
      cases hv.symm.trans hw
    | again h' rest =>
      cases h.symm.trans h'
      obtain ⟨rfl, rfl, rfl⟩ := ih rest
      exact ⟨rfl, rfl, rfl⟩

/-! ## Progress -/

theorem cpu_of_fetch {res : Except Fault (BitVec 32)} {v : Machine} (h : fetch c s = .ok res v) :
    v.cpu = s.cpu := by
  rw [fetch_eq] at h
  cases hx : Mmu.loadInst32 c s.cpu.user.pc s.cpu.isPrivileged s.mem with
  | ok res' m =>
    rw [hx] at h
    cases h
    rfl
  | ret m | abort e m => rw [hx] at h; cases h

theorem straight_fetch {res : Except Fault (BitVec 32)} {v : Machine}
    (h : fetch c s = .ok res v) (hs : s.mem.mmu.Straight) : v.mem.mmu.Straight := by
  have hops := straight_allows.accessOps
  have hkeeps : Keeps straight_allows.frame (translating true (Mmu.loadInst32 c s.cpu.user.pc)) :=
    hops.translating true _ fun _ => inferInstance
  exact hkeeps.of_ok h hs

/-- **The fetch at the vector.** -/
theorem decodes_of_interrupted (h : Interrupted c s t) (hs : s.mem.mmu.Straight)
    (hdev : Mmu.AnswersRead c t.mem.sys.io t.cpu.user.pc) : ∃ inst u, Decodes c t inst u := by
  obtain ⟨f, v, cause, -, hx, ht⟩ := h
  have hoff : t.mem.mmu.enabledI = false := by
    rw [ht]
    exact Machine.enter_enabledI ..
  have hst : t.mem.mmu.Straight := by
    have hv : v.mem.mmu.Straight := straight_fetch hx hs
    rw [ht]
    exact hv
  obtain ⟨inst, m, hm⟩ := Mmu.loadInst32_off t.cpu.isPrivileged hoff hst hdev
  have hfetch := fetch_eq c t
  rw [hm] at hfetch
  exact ⟨inst, _, decodes_of_fetch hfetch⟩

/-- **The loop of `execute` goes round once at most.** In every state of a
run of a machine that is set up and booted, where a device answers at every
physical address that is fetched from: the loop ends, in one way. Either
the word at PC is decoded; or its fetch faults, an instruction storage
interrupt is delivered, and the word at the vector is decoded. -/
theorem execute_progress {c : Config} {startAddr startMsr : Reg} {i : InterpState} {m : Mmu}
    {sys : Sys} {ls : List Label} {s : Machine}
    (hrun : Steps (Step c) (.boot startAddr startMsr i m sys) ls s) (hserved : Served c s)
    (hvector : ∀ t, execute c s = .ok none t → Mmu.AnswersRead c t.mem.sys.io t.cpu.user.pc) :
    ∃ n inst u, n ≤ 1 ∧ FetchLoop c s n inst u ∧
      (∀ n' inst' u', FetchLoop c s n' inst' u' → n' = n ∧ inst' = inst ∧ u' = u) ∧
      (n = 0 → Decodes c s inst u) ∧
      (n = 1 → ∃ t, execute c s = .ok none t ∧ Interrupted c s t ∧
        t.cpu.user.pc = (if s.cpu.os.msr &&& msrIP = 0 then 0 else 0xfff00000#32) + 0x400 ∧
        Decodes c t inst u) := by
  have hstraight := straight_run hrun
  rcases fetch_cases c s with ⟨inst, v, hx⟩ | ⟨f, v, hx, -⟩ | ⟨e, v, hx, he⟩
  · have hdec := decodes_of_fetch hx
    exact ⟨0, inst, _, Nat.zero_le 1, .decoded hdec,
      fun _ _ _ h => h.unique (.decoded hdec), fun _ => hdec, nofun⟩
  · obtain ⟨t, ht, hint⟩ := execute_of_fault hx
    obtain ⟨inst, u, hdec⟩ := decodes_of_interrupted hint hstraight (hvector t ht)
    have hloop : FetchLoop c s 1 inst u := .again ht (.decoded hdec)
    refine ⟨1, inst, u, le_rfl, hloop, fun _ _ _ h => h.unique hloop, nofun,
      fun _ => ⟨t, ht, hint, ?_, hdec⟩⟩
    obtain ⟨f', v', cause, -, hx', rfl⟩ := hint
    have hmsr : v'.cpu.os.msr = s.cpu.os.msr := congrArg (·.os.msr) (cpu_of_fetch hx')
    exact (Machine.enter_pc ..).trans (by rw [hmsr]; rfl)
  · rw [hserved e v hx] at he
    cases he

/-- `addi 3,0,0x20` and `mtmsr 3`, and `nop` everywhere else. The sample
host maps RAM at 0x10000000. -/
def Sys.turnsOn : Sys := .program 0x10000100 [0x38, 0x60, 0x00, 0x20, 0x7c, 0x60, 0x01, 0x24]
  [0x60, 0x00, 0x00, 0x00]

/-- A machine that has turned translation on, with no page to fetch from. -/
theorem execute_progress_unmapped :
    ∃ ls s t inst u, Steps (Step (.quiet .default)) (.boot 0x100 0 .zero .zero .turnsOn) ls s ∧
      Interrupted (.quiet .default) s t ∧ FetchLoop (.quiet .default) s 1 inst u := by
  have key : ((passes (.quiet .default) 2 (.boot 0x100 0 .zero .zero .turnsOn)).any fun r =>
      (execute (.quiet .default) r.2).test fun o t => decide (o = none ∧ t.cpu.user.pc = 0x400)) =
        true := by
    decide +kernel
  obtain ⟨⟨ls, s⟩, hrun, htest⟩ := (Option.any_eq_true ..).mp key
  obtain ⟨o, t, ht, h⟩ := Out.of_test htest
  obtain ⟨rfl, hpc⟩ := of_decide_eq_true h
  obtain ⟨⟨f, v, hv⟩, hint⟩ := interrupted_of_again ht
  have hserved : Served (.quiet .default) s := fun e w hw => by cases hv.symm.trans hw
  have hanswers (io : List IoAccess) : Mmu.AnswersRead (.quiet .default) io 0x400 :=
    ⟨_, rfl, fun h => by cases h⟩
  obtain ⟨n, inst, u, hn, hloop, -, hzero, -⟩ := execute_progress (steps_of_passes _ hrun) hserved
    fun t' ht' => by
      cases ht.symm.trans ht'
      rw [hpc]
      exact hanswers _
  refine ⟨ls, s, t, inst, u, steps_of_passes _ hrun, hint, ?_⟩
  -- a fetch that faults decodes nothing
  rcases Nat.eq_zero_or_pos n with h0 | h1
  · obtain ⟨w, hw, -⟩ := hzero h0
    cases hv.symm.trans hw
  · obtain rfl : n = 1 := by omega
    exact hloop

end MrIss
