import Mathlib.Tactic.IntervalCases
import MrIss.Interp.Table
import MrIss.Machine.Run
/-!
# Precise memory exceptions

An instruction that accesses memory computes its address, accesses, checks
for a fault, and only then writes registers. `before` is the frame of what
comes until the check, `after` that of what follows; an instruction put
together in this order is precise.
-/

namespace MrIss

open EarlyReturn

/-! ## What is delivered -/

/-- Fields of a word moved to other places and put together. A field is
given by its first and last bit and by where the last goes, bit 0 being
the most significant. -/
def gatherBits (w : Reg) (fields : List (ℕ × ℕ × ℕ)) : Reg :=
  fields.foldr (fun b r => (((w >>> (31 - b.2.1)) &&& (BitVec.ofNat 32 (2 ^ (b.2.1 + 1 - b.1)) - 1))
    <<< (31 - b.2.2)) ||| r) 0

/-- DSISR of an alignment interrupt, by the instruction's form: of the
opcode or the extended opcode in bits 15 to 21, RS or RT in 22 to 26, RA
in 27 to 31. -/
def alignmentDSISR (form : Form) (inst : BitVec 32) : Reg :=
  gatherBits inst <| match form with
    | .D => [(5, 5, 17), (1, 4, 21), (6, 10, 26), (11, 15, 31)]
    | _ => [(29, 30, 16), (25, 25, 17), (21, 24, 21), (6, 10, 26), (11, 15, 31)]

/-- DSISR of a memory exception. -/
def exceptionDSISR (form : Form) (inst : BitVec 32) (rnW : Bool) : Fault → Reg
  | .align => alignmentDSISR form inst
  | .noPage => 0x40000000 ||| (if rnW then 0 else 0x02000000)
  | _ => 0x08000000 ||| (if rnW then 0 else 0x02000000)

/-- A memory exception has been delivered: from the state before the
instruction to the handler. -/
structure Delivered (form : Form) (s t : Machine) (rnW : Bool) (addr : VA) (f : Fault) :
    Prop where
  gprs : t.cpu.user.gprs = s.cpu.user.gprs
  cr : t.cpu.user.cr = s.cpu.user.cr
  xer : t.cpu.user.xer = s.cpu.user.xer
  lr : t.cpu.user.lr = s.cpu.user.lr
  ctr : t.cpu.user.ctr = s.cpu.user.ctr
  srr0 : t.cpu.os.srr0 = s.cpu.user.pc &&& ~~~3
  srr1 : t.cpu.os.srr1 = s.cpu.os.msr
  msr : t.cpu.os.msr = s.cpu.os.msr &&& msrIP
  ir : t.mem.mmu.enabledI = false
  dr : t.mem.mmu.enabledD = false
  pc : t.cpu.user.pc = (if s.cpu.os.msr &&& msrIP = 0 then 0 else 0xfff00000) +
    (if f = .align then 0x600 else 0x300)
  dar : t.cpu.os.dar = addr
  dsisr : t.cpu.os.dsisr = exceptionDSISR form s.interp.inst rnW f

/-- What is delivered is about the registers and the word alone. -/
theorem Delivered.of_untouched {form : Form} {s t u : Machine} {rnW : Bool} {addr : VA} {f : Fault}
    (hcpu : t.cpu = s.cpu) (hinst : t.interp.inst = s.interp.inst)
    (h : Delivered form t u rnW addr f) : Delivered form s u rnW addr f := by
  obtain ⟨h₁, h₂, h₃, h₄, h₅, h₆, h₇, h₈, h₉, h₁₀, h₁₁, h₁₂, h₁₃⟩ := h
  rw [hcpu] at h₁ h₂ h₃ h₄ h₅ h₆ h₇ h₈ h₁₁
  rw [hinst] at h₁₃
  exact ⟨h₁, h₂, h₃, h₄, h₅, h₆, h₇, h₈, h₉, h₁₀, h₁₁, h₁₂, h₁₃⟩

/-! ## Which form a word has -/

/-- The form that the code takes a word for. -/
def codeForm (inst : BitVec 32) : Form := if inst &&& 0x80000000#32 != 0 then .D else .X

theorem toNat_getOpcode (inst : BitVec 32) : (getOpcode inst).toNat = inst.toNat / 2 ^ 26 := by
  have hlt : inst.toNat / 2 ^ 26 < 2 ^ 6 := by omega
  change (inst >>> 26 &&& 0x3f#32).toNat = _
  rw [BitVec.toNat_and, BitVec.toNat_ushiftRight, Nat.shiftRight_eq_div_pow,
    show (0x3f#32).toNat = 2 ^ 6 - 1 from rfl, Nat.and_two_pow_sub_one_eq_mod,
    Nat.mod_eq_of_lt hlt]

/-- The top bit of a word says whether its opcode is at least 32. -/
theorem codeForm_eq (inst : BitVec 32) :
    codeForm inst = if 32 ≤ (getOpcode inst).toNat then .D else .X := by
  have hbit : (inst &&& 0x80000000#32 != 0) = inst.msb := by
    rw [show (0x80000000#32) = BitVec.twoPow 32 31 from rfl, BitVec.and_twoPow,
      BitVec.msb_eq_getLsbD_last, show 32 - 1 = 31 from rfl]
    cases inst.getLsbD 31 <;> decide
  have hmsb : inst.msb = decide (32 ≤ (getOpcode inst).toNat) := by
    rw [toNat_getOpcode, BitVec.msb_eq_decide, decide_eq_decide]
    omega
  simp only [codeForm, hbit, hmsb, decide_eq_true_eq]

/-- **The code's encoding is the architected one,** bit by bit. -/
theorem alignDSISR_eq (inst : BitVec 32) :
    alignDSISR inst = alignmentDSISR (codeForm inst) inst := by
  unfold alignDSISR codeForm alignmentDSISR
  split
  · simp only [List.foldr, gatherBits]
    apply BitVec.eq_of_getLsbD_eq
    intro i hi
    interval_cases i <;> simp
  · simp only [List.foldr, gatherBits]
    apply BitVec.eq_of_getLsbD_eq
    intro i hi
    interval_cases i <;> simp

/-- The instructions whose exceptions are to be precise: those that make one
access, or several to one line. -/
def memoryRows (c : Config) : List Row :=
  loadRows c ++ storeRows c ++ reservationRows c ++ blockRows c

/-- Their forms are as their opcodes say. -/
theorem memoryRows_form (c : Config) : (memoryRows c).all (fun r =>
    decide (r.form = if 32 ≤ r.opcode then .D else .X)) = true := rfl

/-- **The code knows the form** of every word of these rows. -/
theorem codeForm_row {c : Config} {r : Row} {inst : BitVec 32} (hr : r ∈ memoryRows c)
    (hacc : r.accepts inst = true) : codeForm inst = r.form := by
  have hform := List.all_eq_true.mp (memoryRows_form c) r hr
  have hop : (getOpcode inst).toNat = r.opcode := by
    rw [Row.accepts, Bool.and_eq_true, beq_iff_eq] at hacc
    exact hacc.1
  rw [codeForm_eq, hop, of_decide_eq_true hform]

/-! ## Frames -/

/-- Since a state, no access has faulted. -/
def NoFault (s t : Machine) : Prop :=
  ∃ evs, t.trace = evs ++ s.trace ∧ ∀ rnW addr f, .access rnW addr (some f) ∉ evs

namespace NoFault

theorem refl (s : Machine) : NoFault s s := ⟨[], rfl, by simp⟩

theorem trans {s t u : Machine} (h : NoFault s t) (h' : NoFault t u) : NoFault s u := by
  obtain ⟨evs, ht, hevs⟩ := h
  obtain ⟨evs', hu, hevs'⟩ := h'
  refine ⟨evs' ++ evs, by rw [hu, ht, List.append_assoc], fun rnW addr f hmem => ?_⟩
  rcases List.mem_append.mp hmem with hmem | hmem
  · exact hevs' rnW addr f hmem
  · exact hevs rnW addr f hmem

/-- An event that is no access. -/
theorem cons {s t : Machine} {e : Event} (ht : t.trace = e :: s.trace)
    (he : ∀ rnW addr f, e ≠ .access rnW addr (some f)) : NoFault s t :=
  ⟨[e], ht, fun rnW addr f hmem => he rnW addr f (List.mem_singleton.mp hmem).symm⟩

end NoFault

/-- Since a state one access has faulted, and its exception has been
delivered. -/
def FaultDelivered (s t : Machine) : Prop :=
  ∃ evs rnW addr f, t.trace = evs ++ s.trace ∧
    (∀ rnW' addr' f', .access rnW' addr' (some f') ∈ evs → rnW' = rnW ∧ addr' = addr ∧ f' = f) ∧
    Delivered (codeForm s.interp.inst) s t rnW addr f

/-- Since a state, registers are as they were. -/
def Untouched (s t : Machine) : Prop :=
  t.cpu = s.cpu ∧ t.interp.inst = s.interp.inst ∧ NoFault s t

/-- The frame of what comes before the registers are written. -/
def before : Frame Machine where
  go := Untouched
  leave s t := NoFault s t ∨ FaultDelivered s t
  stop := NoFault
  go_refl s := ⟨rfl, rfl, .refl s⟩
  stop_refl := .refl
  go_go h h' := ⟨h'.1.trans h.1, h'.2.1.trans h.2.1, h.2.2.trans h'.2.2⟩
  go_leave := by
    rintro s t u ⟨hcpu, hinst, evs₀, ht, hevs₀⟩ (h' | ⟨evs, rnW, addr, f, hu, hone, hd⟩)
    · exact .inl (.trans ⟨evs₀, ht, hevs₀⟩ h')
    · refine .inr ⟨evs ++ evs₀, rnW, addr, f, by rw [hu, ht, List.append_assoc], ?_, ?_⟩
      · intro rnW' addr' f' hmem
        rcases List.mem_append.mp hmem with hmem | hmem
        · exact hone rnW' addr' f' hmem
        · exact absurd hmem (hevs₀ rnW' addr' f')
      · rw [hinst] at hd
        exact hd.of_untouched hcpu hinst
  go_stop h h' := h.2.2.trans h'

/-- The frame of what comes after. -/
def after : Frame Machine := .always NoFault .refl .trans

instance after_userOps : UserOps after where
  onUser _ _ := .modify fun _ => .refl _

/-- **A precise instruction.** -/
def Precise (x : InterpM Unit) : Prop := ∀ s, match x s with
  | .ok _ t => NoFault s t
  | .ret t => NoFault s t ∨ FaultDelivered s t
  | .abort _ t => NoFault s t

namespace Precise

/-- What is read comes first. -/
theorem read {α : Type} {x : InterpM α} {f : α → InterpM Unit} (hx : Keeps before x)
    (hf : ∀ a, Precise (f a)) : Precise (x >>= f) := by
  intro s
  rw [Prog.bind_apply]
  cases h : x s with
  | ret t => exact hx.of_ret h
  | abort e t => exact hx.of_abort h
  | ok a t =>
    have hgo := hx.of_ok h
    have hend := hf a t
    cases h' : f a t with
    | ok b u => rw [h'] at hend; simpa [h'] using hgo.2.2.trans hend
    | ret u => rw [h'] at hend; simp only [h']; exact before.go_leave hgo hend
    | abort e u => rw [h'] at hend; simpa [h'] using hgo.2.2.trans hend

/-- What writes comes last. -/
theorem write {x : InterpM Unit} (hx : Keeps after x) : Precise x := by
  intro s
  have := hx.out s
  cases h : x s with
  | ok a t => rw [h] at this; exact this
  | ret t => rw [h] at this; exact .inl this
  | abort e t => rw [h] at this; exact this

end Precise

/-! ## Accesses that are checked -/

/-- An access has been made: what the interpreter keeps of it is its
fault, and no other has faulted. -/
def Accessed (rnW : Bool) (s t : Machine) : Prop :=
  t.cpu = s.cpu ∧ t.interp.inst = s.interp.inst ∧ ∃ evs, t.trace = evs ++ s.trace ∧
    (∀ rnW' addr' f', .access rnW' addr' (some f') ∈ evs →
      rnW' = rnW ∧ addr' = t.interp.memAccessAddr ∧ t.interp.memAccessFault = some f') ∧
    ∀ f, t.interp.memAccessFault = some f → Mmu.DataFault f ∧
      .access rnW t.interp.memAccessAddr (some f) ∈ evs

/-- A statement that makes one access. -/
def Accesses {α : Type} (rnW : Bool) (x : InterpM α) : Prop := ∀ s, match x s with
  | .ok _ t => Accessed rnW s t
  | .ret t => NoFault s t
  | .abort _ t => NoFault s t

variable {rnW : Bool} {s t : Machine}

theorem mfcheck_none (h : t.interp.memAccessFault = none) : mfcheck rnW t = .ok () t := by
  simp only [mfcheck, Prog.gets_bind_apply, h]
  rfl

/-- What a handler finds. -/
theorem delivered_enter {form : Form} {e : Exception} {o : OsState} {addr : VA} {f : Fault}
    (hmsr : o.msr = t.cpu.os.msr) (he : e.vector = if f = .align then 0x600 else 0x300)
    (hdar : o.dar = addr) (hdsisr : o.dsisr = exceptionDSISR form t.interp.inst rnW f) :
    Delivered form t ((t.setOs o).enter e t.cpu.os.msr) rnW addr f where
  gprs := rfl
  cr := rfl
  xer := rfl
  lr := rfl
  ctr := rfl
  srr0 := rfl
  srr1 := rfl
  msr := congrArg (· &&& msrIP) hmsr
  ir := Machine.enter_enabledI ..
  dr := Machine.enter_enabledD ..
  pc := by
    rw [Machine.enter_pc, he]
    exact congrArg (fun m => (if m &&& msrIP = 0 then 0 else 0xfff00000) + _) hmsr
  dar := hdar
  dsisr := hdsisr

/-- **The check delivers the fault.** -/
theorem mfcheck_some (rnW : Bool) {f : Fault} (h : t.interp.memAccessFault = some f) (hf : Mmu.DataFault f) :
    ∃ u e, mfcheck rnW t = .ret u ∧ u.trace = .exception e :: t.trace ∧
      Delivered (codeForm t.interp.inst) t u rnW t.interp.memAccessAddr f := by
  rcases hf with rfl | rfl | rfl
  · simp only [mfcheck, Prog.gets_bind_apply, h]
    exact ⟨_, .dsi, rfl, rfl, delivered_enter rfl rfl rfl rfl⟩
  · simp only [mfcheck, Prog.gets_bind_apply, h]
    exact ⟨_, .dsi, rfl, rfl, delivered_enter rfl rfl rfl rfl⟩
  · simp only [mfcheck, Prog.gets_bind_apply, h]
    exact ⟨_, .align, rfl, rfl, delivered_enter rfl rfl rfl (alignDSISR_eq _)⟩

/-- **An access checked:** its fault is delivered, or there is none. -/
theorem keeps_checked {α : Type} {x : InterpM α} (hx : Accesses rnW x) :
    Keeps before (do let a ← x; mfcheck rnW; pure a) where
  out s := by
    have := hx s
    cases h : x s with
    | ret t => rw [Prog.bind_of_ret h]; rw [h] at this; exact .inl this
    | abort e t => rw [Prog.bind_of_abort h]; rw [h] at this; exact this
    | ok a t =>
      rw [h] at this
      rw [Prog.bind_of_ok h]
      obtain ⟨hcpu, hinst, evs, htrace, hone, hfault⟩ := this
      cases hf : t.interp.memAccessFault with
      | none =>
        rw [Prog.bind_of_ok (mfcheck_none hf)]
        refine ⟨hcpu, hinst, evs, htrace, fun rnW' addr' f' hmem => ?_⟩
        have := (hone rnW' addr' f' hmem).2.2
        rw [hf] at this
        cases this
      | some f =>
        obtain ⟨u, e, hu, hutrace, hd⟩ := mfcheck_some rnW hf (hfault f hf).1
        rw [Prog.bind_of_ret hu]
        rw [hinst] at hd
        refine .inr ⟨.exception e :: evs, rnW, t.interp.memAccessAddr, f,
          by rw [hutrace, htrace, List.cons_append], fun rnW' addr' f' hmem => ?_,
          hd.of_untouched hcpu hinst⟩
        obtain ⟨hr, ha, hf'⟩ := hone rnW' addr' f' (by simpa using hmem)
        rw [hf] at hf'
        exact ⟨hr, ha, (Option.some.inj hf').symm⟩

/-- The same, with what follows. -/
theorem keeps_checked_bind {α β : Type} {x : InterpM α} (hx : Accesses rnW x)
    {f : α → InterpM β} (hf : ∀ a, Keeps before (f a)) :
    Keeps before (do let a ← x; mfcheck rnW; f a) := by
  have hassoc : (do let a ← x; mfcheck rnW; f a : InterpM β) =
      (do let a ← x; mfcheck rnW; pure a : InterpM α) >>= f := by
    simp only [Prog.bind_assoc, Prog.pure_bind]
  rw [hassoc]
  exact .seq (keeps_checked hx) hf

theorem Precise.checked {α : Type} {x : InterpM α} (hx : Accesses rnW x)
    {f : α → InterpM Unit} (hf : ∀ a, Precise (f a)) :
    Precise (do let a ← x; mfcheck rnW; f a) := by
  have hassoc : (do let a ← x; mfcheck rnW; f a : InterpM Unit) =
      (do let a ← x; mfcheck rnW; pure a : InterpM α) >>= f := by
    simp only [Prog.bind_assoc, Prog.pure_bind]
  rw [hassoc]
  exact .read (keeps_checked hx) hf

/-- An access through the MMU. -/
theorem accesses_translating {α β : Type} {x : Bool → MmuM (Except Fault α)} {v : Except Fault α → β}
    (hx : ∀ priv, Returns (Mmu.FaultsIn Mmu.DataFault) (x priv)) (addr : VA) :
    Accesses rnW (do
      let res ← translating false x
      Prog.modify (·.accessed rnW addr (faultOf res))
      pure (v res)) := by
  intro s
  have hnone (m : Mem) : NoFault s (s.translated false m) :=
    .cons rfl fun _ _ _ => nofun
  have hrun : translating false x s = Prog.zoom Machine.mem
    (fun s t => s.translated false t) (x s.cpu.isPrivileged) s := rfl
  cases h : x s.cpu.isPrivileged s.mem with
  | ret m =>
    rw [Prog.bind_of_ret (by rw [hrun, Prog.zoom, h])]
    exact hnone m
  | abort e m =>
    rw [Prog.bind_of_abort (by rw [hrun, Prog.zoom, h])]
    exact hnone m
  | ok res m =>
    rw [Prog.bind_of_ok (by rw [hrun, Prog.zoom, h])]
    refine ⟨rfl, rfl, [.access rnW addr (faultOf res), _], rfl, ?_, ?_⟩
    · intro rnW' addr' f' hmem
      rcases List.mem_cons.mp hmem with hmem | hmem
      · injection hmem with hr ha hf'
        exact ⟨hr, by simp [Machine.accessed, ← hf', ha], hf'.symm⟩
      · cases List.mem_singleton.mp hmem
    · intro f hf
      cases res with
      | ok a => cases hf
      | error g =>
        cases hf
        exact ⟨hx _ _ _ _ h _ rfl, List.mem_cons_self ..⟩

/-- What follows an access may note it. -/
theorem Accesses.note {α β : Type} {x : InterpM α} (hx : Accesses rnW x) {f : α → InterpM β}
    (hf : ∀ a t, ∃ b u, f a t = .ok b u ∧ u.cpu = t.cpu ∧ u.interp.inst = t.interp.inst ∧
      u.interp.memAccessFault = t.interp.memAccessFault ∧
      u.interp.memAccessAddr = t.interp.memAccessAddr ∧ NoFault t u) :
    Accesses rnW (x >>= f) := by
  intro s
  have := hx s
  cases h : x s with
  | ret t => rw [Prog.bind_of_ret h]; rwa [h] at this
  | abort e t => rw [Prog.bind_of_abort h]; rwa [h] at this
  | ok a t =>
    rw [h] at this
    rw [Prog.bind_of_ok h]
    obtain ⟨hcpu, hinst, evs, htrace, hone, hfault⟩ := this
    obtain ⟨b, u, hu, hcpu', hinst', hf', ha', evs', htrace', hevs'⟩ := hf a t
    rw [hu]
    refine ⟨hcpu'.trans hcpu, hinst'.trans hinst, evs' ++ evs,
      by rw [htrace', htrace, List.append_assoc], ?_, ?_⟩
    · intro rnW' addr' f' hmem
      rw [hf', ha']
      rcases List.mem_append.mp hmem with hmem | hmem
      · exact absurd hmem (hevs' rnW' addr' f')
      · exact hone rnW' addr' f' hmem
    · intro f hf
      rw [hf'] at hf
      rw [ha']
      exact ⟨(hfault f hf).1, List.mem_append_right _ (hfault f hf).2⟩

variable {c : Config}

theorem accesses_loadX (size : Size) (addr : VA) : Accesses true (loadX c size addr) :=
  accesses_translating (fun _ => Mmu.load_faults) addr

theorem accesses_storeX (size : Size) (addr : VA) (val : Reg) :
    Accesses false (storeX c size addr val) :=
  accesses_translating (v := fun _ => ()) (fun _ => Mmu.store_faults val) addr

/-! ## The instructions -/

/-- A load is precise. -/
theorem precise_loadTo (size : Size) (ext : Reg → Reg) (rt : Reg) (upd : Option Reg)
    {ea : InterpM VA} (hea : Keeps before ea) : Precise (loadTo c size ext rt upd ea) :=
  .read hea fun x => .checked (accesses_loadX size x) fun v => .write <| by infer_instance

/-- A store is precise. -/
theorem precise_storeFrom (size : Size) (conv : Reg → Reg) (rs : Reg) (upd : Option Reg)
    {ea : InterpM VA} (hea : Keeps before ea) : Precise (storeFrom c size conv rs upd ea) :=
  .read inferInstance fun v => .read hea fun x =>
    .checked (accesses_storeX size x (conv v)) fun _ => .write <| by infer_instance

/-- `lwarx` notes its reservation, and is precise. -/
theorem precise_opLwarx (ra0 rb eh rt : Reg) : Precise (opLwarx c ra0 rb eh rt) := by
  refine .read inferInstance fun a => .read inferInstance fun b => ?_
  have hload : Accesses true (do
      let v ← loadX c .word (a + b)
      Prog.modify fun s => { s with
        interp := { s.interp with
          reservationAddress := a + b
          reservationGencount := s.interp.excGenerationCount } }
      record (.lwarx (a + b))
      pure v) :=
    (accesses_loadX .word (a + b)).note fun v t =>
      ⟨v, _, rfl, rfl, rfl, rfl, rfl, .cons rfl fun _ _ _ => nofun⟩
  have hrest : Precise _ := .checked hload fun v => .write (x := do writeGPR rt v; incPC)
    inferInstance
  simpa only [Prog.bind_assoc, Prog.pure_bind] using hrest

/-- The store of `stwcx.` notes that it was made. -/
theorem keeps_condStore (base : VA) (v : Reg) : Keeps before (condStore c base v) := by
  have hstore : Accesses false (do
      storeX c .word base v
      let i ← Prog.gets Machine.interp
      record (.stwcxStore base i.memAccessFault)) :=
    (accesses_storeX .word base v).note fun _ t =>
      ⟨(), _, rfl, rfl, rfl, rfl, rfl, .cons rfl fun _ _ _ => nofun⟩
  have hchecked := keeps_checked hstore
  simp only [Prog.bind_assoc] at hchecked
  rw [← Prog.bind_pure (condStore c base v)]
  simp only [condStore, Prog.bind_assoc]
  exact hchecked

/-- `stwcx.` is precise. -/
theorem precise_opStwcx (rs ra0 rb : Reg) : Precise (opStwcx c rs ra0 rb) := by
  have hstore := keeps_condStore (c := c)
  have hblow : Keeps after blowReservation := .modify fun _ => .refl _
  have hdone : Keeps after (record .stwcx) := .modify fun _ => .cons rfl fun _ _ _ => nofun
  refine .read inferInstance fun a => .read inferInstance fun b => .read inferInstance fun v =>
    .read inferInstance fun so => .read inferInstance fun i => .read inferInstance fun _ => ?_
  exact .write inferInstance

theorem precise_touch (ra0 rb : Reg) : Precise (touch c ra0 rb) :=
  .read inferInstance fun x => .checked (accesses_loadX .byte x) fun _ => .write inferInstance

/-- The loop of `dcbz` stops at the first fault. -/
theorem keeps_dcbzLoop (line : VA) (left i : ℕ) : Keeps before (dcbzLoop c line left i) := by
  induction left generalizing i with
  | zero => exact .pure ()
  | succ left ih => exact keeps_checked_bind (accesses_storeX .word _ 0) fun _ => ih (i + 1)

theorem precise_opDcbz (ra0 rb : Reg) : Precise (opDcbz c ra0 rb) :=
  .read inferInstance fun _ => .read (keeps_dcbzLoop _ 8 0) fun _ => .write inferInstance

/-- **Every row is precise.** -/
theorem precise_row : ∀ r ∈ memoryRows c, ∀ inst, Precise (r.call inst) := by
  simp only [memoryRows, List.forall_mem_append]
  refine ⟨⟨⟨?_, ?_⟩, ?_⟩, ?_⟩
  · simp only [loadRows, List.forall_mem_cons, List.not_mem_nil, false_imp_iff, implies_true,
      and_true]
    and_intros
    all_goals exact fun _ => precise_loadTo _ _ _ _ inferInstance
  · simp only [storeRows, List.forall_mem_cons, List.not_mem_nil, false_imp_iff, implies_true,
      and_true]
    and_intros
    all_goals exact fun _ => precise_storeFrom _ _ _ _ inferInstance
  · simp only [reservationRows, List.forall_mem_cons, List.not_mem_nil, false_imp_iff,
      implies_true, and_true]
    exact ⟨fun i => precise_opLwarx _ _ (xEH i) _, fun _ => precise_opStwcx _ _ _⟩
  · simp only [blockRows, List.forall_mem_cons, List.not_mem_nil, false_imp_iff, implies_true,
      and_true]
    exact ⟨fun _ => precise_touch _ _, fun _ => precise_touch _ _, fun _ => precise_touch _ _,
      fun _ => precise_opDcbz _ _⟩

/-- The rows are rows of the table. -/
theorem memoryRows_subset (c : Config) {r : Row} (hr : r ∈ memoryRows c) : r ∈ table c := by
  simp only [memoryRows, table, List.mem_append] at hr ⊢
  tauto

/-- **Precise memory exceptions.** For every word that a row of loads,
stores, reservations or cache blocks takes, and from every state: where an
access has faulted, the instruction has returned with GPRs, CR, XER, LR
and CTR as they were and the exception delivered, SRR0 being PC without
its low two bits. -/
theorem memory_exception_precise (c : Config) (s : Machine) {r : Row} (hr : r ∈ memoryRows c)
    (hacc : r.accepts s.interp.inst = true) {evs : List Event}
    (hevs : (decode c s.interp.inst s).state.trace = evs ++ s.trace) {rnW : Bool} {addr : VA}
    {f : Fault} (hf : .access rnW addr (some f) ∈ evs) :
    ∃ t, decode c s.interp.inst s = .ret t ∧ Delivered r.form s t rnW addr f := by
  have hno {t : Machine} (ht : t.trace = evs ++ s.trace) : ¬ NoFault s t := by
    rintro ⟨evs', htrace, hevs'⟩
    rw [ht, List.append_cancel_right_eq] at htrace
    exact hevs' rnW addr f (htrace ▸ hf)
  have := precise_row r hr s.interp.inst s
  rw [decode_of_mem (memoryRows_subset c hr) hacc] at hevs ⊢
  cases h : r.call s.interp.inst s with
  | ok a t => rw [h] at this hevs; exact absurd this (hno hevs)
  | abort e t => rw [h] at this hevs; exact absurd this (hno hevs)
  | ret t =>
    rw [h] at this hevs
    obtain ⟨evs', rnW', addr', f', htrace, hone, hd⟩ := this.resolve_left (hno hevs)
    change t.trace = _ at hevs
    rw [hevs, List.append_cancel_right_eq] at htrace
    obtain ⟨rfl, rfl, rfl⟩ := hone rnW addr f (htrace ▸ hf)
    rw [codeForm_row hr hacc] at hd
    exact ⟨t, rfl, hd⟩

/-- A machine at a `lwz` from a page that has no entry. -/
def Machine.atLoad (pc : VA) : Machine :=
  let s := Machine.boot pc 0x10 { InterpState.zero with inst := 0x80605000 } .zero .fresh
  { s with mem := ⟨.paged, .onePage⟩ }

/-- The load's exception. -/
theorem memory_exception_lwz : ∃ t, decode (.quiet .default) 0x80605000 (.atLoad 0x1000) = .ret t ∧
    Delivered .D (.atLoad 0x1000) t true 0x5000 .noPage := by
  have hmem : .d 32 (argsLoadD (opLwz (.quiet .default))) ∈ memoryRows (.quiet .default) := by
    simp only [memoryRows, loadRows, List.mem_append, List.mem_cons, true_or, or_true]
  have hevs : (decode (.quiet .default) 0x80605000 (.atLoad 0x1000)).state.trace =
      [.exception .dsi, .access true 0x5000 (some .noPage), .translate false false true 0x10] ++
        (Machine.atLoad 0x1000).trace := by
    decide +kernel
  have hf : .access true 0x5000 (some .noPage) ∈ ([.exception .dsi,
      .access true 0x5000 (some .noPage), .translate false false true 0x10] : List Event) := by
    decide
  exact memory_exception_precise (.quiet .default) (.atLoad 0x1000) hmem rfl hevs hf

/-- Where PC is not a multiple of four, SRR0 is not PC. -/
theorem memory_exception_srr0 :
    let t := (decode (.quiet .default) 0x80605000 (.atLoad 0x1002)).state
    .access true 0x5000 (some .noPage) ∈ t.trace ∧
      t.cpu.os.srr0 ≠ (Machine.atLoad 0x1002).cpu.user.pc := by
  decide +kernel

end MrIss
