import MrIss.Machine.Run
/-!
# The interrupt controller

`DevXpsIntc` remembers which sources have triggered and which are enabled,
and drives the IRQ line of a CPU. The world is an edge: the CPU is told
when the output changes, so that the output is held in two places.
-/

namespace MrIss

open EarlyReturn Run

namespace Intc

/-- The registers, `XPSINTC_REG_*`. -/
inductive XpsReg where
  | ISR
  | IPR
  | IER
  | IAR
  | SIE
  | CIE
  | IVR
  | MER
  deriving DecidableEq, Repr

/-- The register at an offset. -/
def XpsReg.ofOffset (reg : PA) : Option XpsReg :=
  match reg.toNat with
  | 0x0 => some .ISR
  | 0x4 => some .IPR
  | 0x8 => some .IER
  | 0xc => some .IAR
  | 0x10 => some .SIE
  | 0x14 => some .CIE
  | 0x18 => some .IVR
  | 0x1c => some .MER
  | _ => none

/-- The register that an access is to. -/
def XpsReg.ofAddr (addr : PA) : Option XpsReg := ofOffset (addr &&& 0x1c#32)

/-- `DevXpsIntc`. -/
structure DevXpsIntc where
  regs : XpsReg → BitVec 32
  triggeredCPU : Bool
  /-- `cpus` is not null. -/
  cpus : Bool

namespace DevXpsIntc

/-- `DevXpsIntc::DevXpsIntc`, with `init`. -/
def construct : DevXpsIntc where
  regs r := if r = .IVR then 0xffffffff else 0
  triggeredCPU := false
  cpus := false

def getActive (d : DevXpsIntc) : BitVec 32 := d.regs .ISR &&& d.regs .IER

def setReg (d : DevXpsIntc) (r : XpsReg) (v : BitVec 32) : DevXpsIntc :=
  { d with regs := Function.update d.regs r v }

/-- The switch of `write32`. -/
def writeReg (d : DevXpsIntc) (data : BitVec 32) : XpsReg → DevXpsIntc
  | .ISR => d.setReg .ISR data
  | .IER => d.setReg .IER data
  | .MER => d.setReg .MER data
  -- Read-only.
  | .IPR | .IVR => d
  -- Writing ones clears.
  | .IAR => d.setReg .ISR (d.regs .ISR &&& ~~~data)
  | .SIE => d.setReg .IER (d.regs .IER ||| data)
  | .CIE => d.setReg .IER (d.regs .IER &&& ~~~data)

/-- The switch of `read32`. -/
def readReg (d : DevXpsIntc) : XpsReg → BitVec 32
  | .ISR => d.regs .ISR
  | .IER => d.regs .IER
  | .MER => d.regs .MER
  -- Write-only.
  | .IAR | .SIE | .CIE => 0
  | .IPR => d.getActive
  | .IVR =>
    match (List.range 32).find? fun i => d.getActive &&& (1#32 <<< i) != 0 with
    | some i => BitVec.ofNat 32 i
    | none => 0xffffffff

end DevXpsIntc

/-- The controller, the CPU it may be connected to, and the arguments of
the calls of `assertIRQ`, latest first, which nothing reads. -/
structure Wired where
  intc : DevXpsIntc
  cpu : CpuState
  calls : List Bool

/-- A routine of the controller. -/
abbrev IntcM : Type → Type := Prog Abort Wired

def onIntc (f : DevXpsIntc → DevXpsIntc) : IntcM Unit :=
  Prog.modify fun s => { s with intc := f s.intc }

def assertIRQ (status : Bool) : IntcM Unit :=
  Prog.modify fun s => { s with cpu := { s.cpu with irqFlag := status }, calls := status :: s.calls }

def reassessOutput : IntcM Unit := do
  let d ← Prog.gets (·.intc)
  if d.getActive != 0 && !d.triggeredCPU then
    onIntc ({ · with triggeredCPU := true })
    Prog.when d.cpus (assertIRQ true)
  else if d.getActive == 0 && d.triggeredCPU then
    onIntc ({ · with triggeredCPU := false })
    Prog.when d.cpus (assertIRQ false)
  else pure ()

def read32 (addr : PA) : IntcM (BitVec 32) :=
  match XpsReg.ofAddr addr with
  | some r => Prog.gets (·.intc.readReg r)
  | none => Prog.abort .device

def write32 (addr : PA) (data : BitVec 32) : IntcM Unit :=
  match XpsReg.ofAddr addr with
  | some r => do
    onIntc (·.writeReg data r)
    reassessOutput
  | none => Prog.abort .device

/-- There is no support for levels. -/
def triggerIRQ (n : ℕ) : IntcM Unit := do
  Prog.when (decide (n < 32)) <| onIntc fun d => d.setReg .ISR (d.regs .ISR ||| (1#32 <<< n))
  reassessOutput

/-! ## Runs -/

/-- What happens to a controller. -/
inductive Input where
  | write32 (addr : PA) (data : BitVec 32)
  | triggerIRQ (n : ℕ)
  deriving DecidableEq, Repr

def Input.run : Input → IntcM Unit
  | .write32 addr data => Intc.write32 addr data
  | .triggerIRQ n => Intc.triggerIRQ n

def Step (s : Wired) (e : Input) (t : Wired) : Prop := e.run s = .ok () t

/-- A controller as constructed, connected by `setCPUState` to a CPU as
constructed. -/
def Wired.init : Wired := ⟨{ DevXpsIntc.construct with cpus := true }, .construct, []⟩

namespace Wired

/-- Some source is enabled and has triggered. -/
def active (s : Wired) : Bool := s.intc.getActive != 0

/-- `ISR` and `IER` have bit `n` set. -/
def pending (s : Wired) (n : ℕ) : Bool :=
  (s.intc.regs .ISR).getLsbD n && (s.intc.regs .IER).getLsbD n

/-- What a controller settles to: a change of the output is what the CPU
is told. -/
def settle (s : Wired) : Wired :=
  if s.active = s.intc.triggeredCPU then s
  else
    { intc := { s.intc with triggeredCPU := s.active }
      cpu := { s.cpu with irqFlag := s.active }
      calls := s.active :: s.calls }

/-- The controller is connected, its output is what its registers say, and
the CPU's line is its output. -/
structure Settled (s : Wired) : Prop where
  connected : s.intc.cpus = true
  output : s.intc.triggeredCPU = s.active
  line : s.cpu.irqFlag = s.intc.triggeredCPU

end Wired

variable {s t : Wired} {e : Input} {n : ℕ}

/-! ## What a step does -/

/-- Every address is of some register. -/
theorem ofAddr_isSome (addr : PA) : (XpsReg.ofAddr addr).isSome := by
  have hmask : ∀ i : Fin 32, (0x1c#32)[i.val] = (!decide (i.val < 2) && decide (i.val - 2 < 3)) := by
    decide
  have hbits : addr &&& 0x1c#32 = ((addr >>> 2).setWidth 3).setWidth 32 <<< 2 := by
    ext i hi
    rw [BitVec.getElem_and, hmask ⟨i, hi⟩]
    by_cases h2 : i < 2
    · simp [h2]
    · have hi' : 2 + (i - 2) = i := by omega
      simp [h2, hi', hi, Bool.and_comm]
  have hall : ∀ v : BitVec 3, (XpsReg.ofOffset (v.setWidth 32 <<< 2)).isSome := by decide
  rw [XpsReg.ofAddr, hbits]
  exact hall _

/-- What an input does to the registers. -/
def Input.apply (d : DevXpsIntc) : Input → DevXpsIntc
  | .write32 addr data => (XpsReg.ofAddr addr).elim d (d.writeReg data)
  | .triggerIRQ n => if n < 32 then d.setReg .ISR (d.regs .ISR ||| (1#32 <<< n)) else d

@[simp] theorem setReg_cpus (d : DevXpsIntc) (r : XpsReg) (v : BitVec 32) :
    (d.setReg r v).cpus = d.cpus := rfl

@[simp] theorem setReg_triggeredCPU (d : DevXpsIntc) (r : XpsReg) (v : BitVec 32) :
    (d.setReg r v).triggeredCPU = d.triggeredCPU := rfl

@[simp] theorem setReg_regs (d : DevXpsIntc) (r r' : XpsReg) (v : BitVec 32) :
    (d.setReg r v).regs r' = if r' = r then v else d.regs r' :=
  Function.update_apply _ _ _ _

/-- Only the registers are written. -/
theorem apply_frame (d : DevXpsIntc) (e : Input) :
    (e.apply d).cpus = d.cpus ∧ (e.apply d).triggeredCPU = d.triggeredCPU := by
  cases e with
  | write32 addr data =>
    obtain ⟨r, hr⟩ := Option.isSome_iff_exists.mp (ofAddr_isSome addr)
    simp only [Input.apply, hr, Option.elim]
    cases r <;> exact ⟨rfl, rfl⟩
  | triggerIRQ n =>
    simp only [Input.apply]
    split <;> exact ⟨rfl, rfl⟩

namespace Wired

@[simp] theorem settle_regs : s.settle.intc.regs = s.intc.regs := by
  unfold settle
  split <;> rfl

@[simp] theorem settle_active : s.settle.active = s.active := by
  rw [active, active, DevXpsIntc.getActive, DevXpsIntc.getActive, settle_regs]

/-- Settling settles, where the line was the output. -/
theorem settled_settle (hc : s.intc.cpus = true) (hl : s.cpu.irqFlag = s.intc.triggeredCPU) :
    s.settle.Settled := by
  unfold settle
  split
  case isTrue h => exact ⟨hc, h.symm, hl⟩
  case isFalse => exact ⟨hc, rfl, rfl⟩

/-- The CPU is called where the output was not what the registers say. -/
theorem settle_calls : s.settle.calls =
    if s.active = s.intc.triggeredCPU then s.calls else s.active :: s.calls := by
  unfold settle
  split <;> rfl

end Wired

/-- `reassessOutput` settles. -/
theorem reassessOutput_eq (hc : s.intc.cpus = true) : reassessOutput s = .ok () s.settle := by
  have hneg : (s.intc.getActive == 0) = !s.active := by rw [Wired.active, bne, Bool.not_not]
  rw [reassessOutput, Prog.gets_bind_apply, hneg]
  change (if (s.active && !s.intc.triggeredCPU) = true then _ else _ : IntcM Unit) s = _
  rcases ha : s.active with - | - <;> rcases ht : s.intc.triggeredCPU with - | - <;>
    simp [Wired.settle, ha, ht, hc, onIntc, assertIRQ, Prog.when]

/-- **What a step does:** the registers change and the output settles. -/
theorem run_eq (e : Input) (hc : s.intc.cpus = true) :
    e.run s = .ok () ({ s with intc := e.apply s.intc } : Wired).settle := by
  have hset : reassessOutput { s with intc := e.apply s.intc } =
      .ok () ({ s with intc := e.apply s.intc } : Wired).settle :=
    reassessOutput_eq ((apply_frame s.intc e).1.trans hc)
  rw [← hset]
  cases e with
  | write32 addr data =>
    obtain ⟨r, hr⟩ := Option.isSome_iff_exists.mp (ofAddr_isSome addr)
    simp only [Input.run, write32, Input.apply, hr]
    rfl
  | triggerIRQ n =>
    by_cases hn : n < 32
    · simp only [Input.run, triggerIRQ, Input.apply, hn, decide_true, Prog.when, if_true]
      rfl
    · simp only [Input.run, triggerIRQ, Input.apply, hn, decide_false, Prog.when, if_false]
      rfl

theorem step_iff (hs : s.Settled) :
    Step s e t ↔ t = ({ s with intc := e.apply s.intc } : Wired).settle := by
  rw [Step, run_eq e hs.connected]
  exact ⟨fun h => by cases h; rfl, fun h => by rw [h]⟩

/-- A step keeps a controller settled. -/
theorem settled_step (hs : s.Settled) (h : Step s e t) : t.Settled := by
  rw [(step_iff hs).mp h]
  exact Wired.settled_settle ((apply_frame s.intc e).1.trans hs.connected)
    (hs.line.trans (apply_frame s.intc e).2.symm)

/-- Every run keeps it settled. -/
theorem settled_of_run {es : List Input} (hrun : Steps Step .init es s) : s.Settled :=
  hrun.invariant (I := Wired.Settled) ⟨rfl, rfl, rfl⟩ fun _ _ _ hs h => settled_step hs h

/-- The CPU is called when the condition changes, and only then. -/
theorem calls_step (hs : s.Settled) (h : Step s e t) :
    t.calls = if t.active = s.active then s.calls else t.active :: s.calls := by
  rw [(step_iff hs).mp h, Wired.settle_active, Wired.settle_calls, (apply_frame s.intc e).2,
    hs.output]

/-! ## What has triggered -/

/-- The input takes bit `n` out of `ISR`: it is acknowledged, or `ISR` is
written without it. -/
def Input.clears (n : ℕ) : Input → Bool
  | .write32 addr data => match XpsReg.ofAddr addr with
    | some .IAR => data.getLsbD n
    | some .ISR => !data.getLsbD n
    | _ => false
  | .triggerIRQ _ => false

/-- The input puts bit `n` into `ISR`. -/
def Input.sets (n : ℕ) : Input → Bool
  | .write32 addr data => match XpsReg.ofAddr addr with
    | some .ISR => data.getLsbD n
    | _ => false
  | .triggerIRQ m => m == n

theorem getLsbD_one_shiftLeft {m n : ℕ} (hn : n < 32) : (1#32 <<< m).getLsbD n = (m == n) := by
  rw [← BitVec.twoPow_eq, BitVec.getLsbD_twoPow]
  by_cases hmn : m = n
  · simp [hmn, hn]
  · simp [hmn]

/-- **The bits of `ISR`** after an input. -/
theorem isr_apply (d : DevXpsIntc) (e : Input) (hn : n < 32) :
    ((e.apply d).regs .ISR).getLsbD n =
      ((d.regs .ISR).getLsbD n && !e.clears n || e.sets n) := by
  cases e with
  | write32 addr data =>
    obtain ⟨r, hr⟩ := Option.isSome_iff_exists.mp (ofAddr_isSome addr)
    simp only [Input.apply, Input.clears, Input.sets, hr, Option.elim]
    cases r <;> simp [DevXpsIntc.writeReg, hn]
  | triggerIRQ m =>
    simp only [Input.apply, Input.clears, Input.sets]
    split
    case isTrue => simp [getLsbD_one_shiftLeft hn]
    case isFalse hm => simp [show m ≠ n by omega]

theorem isr_step (hs : s.Settled) (h : Step s e t) (hn : n < 32) :
    (t.intc.regs .ISR).getLsbD n =
      ((s.intc.regs .ISR).getLsbD n && !e.clears n || e.sets n) := by
  rw [(step_iff hs).mp h, Wired.settle_regs]
  exact isr_apply s.intc e hn

/-- A source that has triggered stays in `ISR` over inputs that do not take
it out. -/
theorem isr_of_run {es : List Input} (hs : s.Settled) (hrun : Steps Step s es t) (hn : n < 32)
    (hno : ∀ e ∈ es, e.clears n = false) (h : (s.intc.regs .ISR).getLsbD n = true) :
    (t.intc.regs .ISR).getLsbD n = true := by
  have key := hrun.invariant_of_forall
    (I := fun t => t.Settled ∧ (t.intc.regs .ISR).getLsbD n = true) ⟨hs, h⟩ hno
    fun t e u he ht hstep => ⟨settled_step ht.1 hstep, by
      rw [isr_step ht.1 hstep hn, ht.2, he]
      rfl⟩
  exact key.2

/-! ## What a read gives -/

theorem read32_eq {addr : PA} {r : XpsReg} (h : XpsReg.ofAddr addr = some r) :
    read32 addr s = .ok (s.intc.readReg r) s := by
  rw [read32, h]
  rfl

theorem getActive_getLsbD : s.intc.getActive.getLsbD n = s.pending n := BitVec.getLsbD_and

/-- The test of one bit. -/
theorem and_shiftLeft_one (v : BitVec 32) (hn : n < 32) :
    (v &&& (1#32 <<< n) != 0) = v.getLsbD n := by
  have hone : 1#32 <<< n ≠ 0 := fun h => by
    have hbit := getLsbD_one_shiftLeft (m := n) hn
    rw [h] at hbit
    simp at hbit
  rw [← BitVec.twoPow_eq, BitVec.and_twoPow]
  cases v.getLsbD n with
  | false => rfl
  | true => simpa [BitVec.twoPow_eq] using hone

/-- `IVR` names the first source that is pending, or none. -/
theorem readReg_IVR : (s.intc.getActive = 0 ∧ s.intc.readReg .IVR = 0xffffffff) ∨
    ∃ n < 32, s.pending n = true ∧ (∀ m < n, s.pending m = false) ∧
      s.intc.readReg .IVR = BitVec.ofNat 32 n := by
  have htest : ∀ n < 32, (s.intc.getActive &&& (1#32 <<< n) != 0) = s.pending n := fun n hn =>
    (and_shiftLeft_one _ hn).trans getActive_getLsbD
  have hread : s.intc.readReg .IVR =
      match (List.range 32).find? fun i => s.intc.getActive &&& (1#32 <<< i) != 0 with
      | some i => BitVec.ofNat 32 i
      | none => 0xffffffff := rfl
  rw [hread]
  cases hf : (List.range 32).find? fun i => s.intc.getActive &&& (1#32 <<< i) != 0 with
  | none =>
    refine .inl ⟨BitVec.eq_of_getLsbD_eq fun i hi => ?_, rfl⟩
    have := List.find?_range_eq_none.mp hf i hi
    rw [htest i hi, ← getActive_getLsbD] at this
    simpa using this
  | some n =>
    obtain ⟨hp, hmem, hfirst⟩ := List.find?_range_eq_some.mp hf
    have hn : n < 32 := List.mem_range.mp hmem
    refine .inr ⟨n, hn, (htest n hn).symm.trans hp, fun m hm => ?_, rfl⟩
    have := hfirst m hm
    rw [htest m (by omega)] at this
    simpa using this

/-- **No interrupt is dropped or invented.** After every run the CPU's line
and the output are up exactly when a source that has triggered is enabled,
and `IVR` names the first of these; every further input is accepted and
calls the CPU exactly when that condition changes; a source that triggers
is in `ISR` until it is taken out; and an input leaves in `ISR` what was there
and it does not take out, and what it puts there, and no other. -/
theorem never_drops_or_invents {es : List Input} (hrun : Steps Step .init es s) :
    (s.cpu.irqFlag = true ↔ s.intc.regs .ISR &&& s.intc.regs .IER ≠ 0) ∧
    (s.intc.triggeredCPU = true ↔ s.intc.regs .ISR &&& s.intc.regs .IER ≠ 0) ∧
    (∀ e, ∃ t, Step s e t ∧
      t.calls = if t.active = s.active then s.calls else t.active :: s.calls) ∧
    (∀ n < 32, ∀ fs t, Steps Step s (.triggerIRQ n :: fs) t →
      (∀ e ∈ fs, e.clears n = false) → (t.intc.regs .ISR).getLsbD n = true) ∧
    (∀ n < 32, ∀ e t, Step s e t → (t.intc.regs .ISR).getLsbD n =
      ((s.intc.regs .ISR).getLsbD n && !e.clears n || e.sets n)) ∧
    ∀ addr addr', XpsReg.ofAddr addr = some .IVR → XpsReg.ofAddr addr' = some .IPR →
      ∃ ivr ipr, read32 addr s = .ok ivr s ∧ read32 addr' s = .ok ipr s ∧
        (ivr = 0xffffffff ↔ ipr = 0) ∧
        (ipr ≠ 0 → ∃ n < 32, ivr = BitVec.ofNat 32 n ∧ s.pending n = true ∧
          ∀ m < n, s.pending m = false) := by
  have hs := settled_of_run hrun
  have hactive : s.active = true ↔ s.intc.regs .ISR &&& s.intc.regs .IER ≠ 0 := bne_iff_ne
  refine ⟨?_, ?_, fun e => ?_, fun n hn fs t ht hno => ?_,
    fun n hn e t ht => isr_step hs ht hn, fun addr addr' h h' => ?_⟩
  · rw [hs.line, hs.output, hactive]
  · rw [hs.output, hactive]
  · exact ⟨_, (step_iff hs).mpr rfl, calls_step hs ((step_iff hs).mpr rfl)⟩
  · obtain ⟨u, hu, hrest⟩ := ht.first
    refine isr_of_run (settled_step hs hu) hrest hn hno ?_
    rw [isr_step hs hu hn]
    simp [Input.sets]
  · refine ⟨_, _, read32_eq h, read32_eq h', ?_⟩
    change (_ ↔ s.intc.getActive = 0) ∧ (s.intc.getActive ≠ 0 → _)
    rcases readReg_IVR (s := s) with ⟨h0, hv⟩ | ⟨n, hn, hp, hlow, hv⟩
    · exact ⟨⟨fun _ => h0, fun _ => hv⟩, fun hne => absurd h0 hne⟩
    · have hne : s.intc.getActive ≠ 0 := fun h0 => by
        rw [← getActive_getLsbD, h0] at hp
        simp at hp
      refine ⟨⟨fun hall => ?_, fun h0 => absurd h0 hne⟩, fun _ => ⟨n, hn, hv, hp, hlow⟩⟩
      rw [hv] at hall
      have := congrArg BitVec.toNat hall
      simp at this
      omega

/-- Source 3 triggers and is then enabled: the line is up. -/
theorem never_drops_or_invents_sie : ∃ s,
    Steps Step .init [.triggerIRQ 3, .write32 0x10 0x8] s ∧ s.cpu.irqFlag = true := by
  have hinit : Wired.init.Settled := ⟨rfl, rfl, rfl⟩
  have htrigger := (step_iff (e := .triggerIRQ 3) hinit).mpr rfl
  have henable := (step_iff (e := .write32 0x10 0x8) (settled_step hinit htrigger)).mpr rfl
  have hrun := Steps.snoc (.single htrigger) henable
  exact ⟨_, hrun, (never_drops_or_invents hrun).1.mpr (by decide)⟩

end Intc

end MrIss
