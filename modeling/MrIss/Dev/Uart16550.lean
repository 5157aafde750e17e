import MrIss.Bus
import MrIss.Lib.Run
/-!
# The 16550

`DevUart` is read and written by the CPU and called back by the thread that
listens at the serial back end, each time under its mutex. Whatever the
access, it ends in `assessIRQstatus`, which works out IIR anew. The cause
"transmitter empty" counts as reported from the moment it is raised, so it
is in IIR for the next access and for no later one; the cause "data ready"
is in IIR for as long as it lasts.
-/

namespace MrIss

open Run

namespace Uart16550

abbrev Byte : Type := BitVec 8

/-! ## The UART -/

/-- `UART_REG_*`. The first is `RBR` when read, the third `IIR`; on page 1
the first two are `DLL` and `DLM`. -/
inductive UartReg where
  | THR
  | IER
  | FCR
  | LCR
  | MCR
  | LSR
  | MSR
  | SCR
  deriving DecidableEq, Repr

/-- The register that an access is to: `addr & 0x7`. -/
def UartReg.ofAddr (addr : PA) : UartReg :=
  match (addr &&& 0x7#32).toNat with
  | 0 => .THR
  | 1 => .IER
  | 2 => .FCR
  | 3 => .LCR
  | 4 => .MCR
  | 5 => .LSR
  | 6 => .MSR
  -- Three bits: the `default` of the source's switches is out of reach.
  | _ => .SCR

def ierRXDA : Byte := 0x01
def ierTHRE : Byte := 0x02
def lcrDLAB : Byte := 0x80
def lsrDR : Byte := 0x01
def lsrTHRE : Byte := 0x20
def lsrTEMT : Byte := 0x40
def lsrDefault : Byte := lsrTHRE ||| lsrTEMT

/-- `DevUart`: `regs[0..7]` and `regs[8..15]`, whether there is an interrupt
controller and a serial back end, how often `raiseIRQ` has called the one
and what `sendByte` has given the other and the standard output. -/
structure DevUart where
  page0 : UartReg → Byte
  page1 : UartReg → Byte
  intc : Bool
  irqActive : Bool
  serio : Bool
  threReported : Bool
  triggered : ℕ
  put : List Byte
  stdout : List Byte

namespace DevUart

/-- The constructor, which leaves the registers as the memory has them,
with what `setIntc` and `setSerIO` then set. -/
def new (page0 page1 : UartReg → Byte) (intc serio : Bool) : DevUart :=
  { page0, page1, intc, irqActive := false, serio, threReported := false, triggered := 0,
    put := [], stdout := [] }

/-- `DevUart::init`. -/
def init (u : DevUart) : DevUart :=
  { u with
    page0 := fun
      | .LSR => lsrDefault
      | .THR | .IER | .FCR | .LCR | .MCR | .MSR | .SCR => 0
    page1 := fun
      | .FCR => 0x01
      | .THR => 0x45
      | .IER => 0x01
      | r => u.page1 r }

/-- `regs[8 + UART_REG_IIR]`. -/
def iir (u : DevUart) : Byte := u.page1 .FCR

def isPage1 (u : DevUart) : Bool := u.page0 .LCR &&& lcrDLAB != 0

def sendByte (u : DevUart) (data : Byte) : DevUart :=
  { u with
    stdout := u.stdout ++ [data]
    put := if u.serio then u.put ++ [data] else u.put }

/-- `getByte`, where the back end gives `b`. -/
def getByte (u : DevUart) (b : Byte) : Byte := if u.serio then b else 0

/-- `dr_irq`: data is ready, and IER asks for it. -/
def drIrq (u : DevUart) : Bool :=
  u.page0 .LSR &&& lsrDR != 0 && u.page0 .IER &&& ierRXDA != 0

/-- `thre_irq`: the transmitter is empty, IER asks for it, and it is not
reported. -/
def threIrq (u : DevUart) : Bool :=
  (u.page0 .LSR &&& lsrTHRE != 0 && u.page0 .IER &&& ierTHRE != 0) && !u.threReported

def wantIrq (u : DevUart) : Bool := u.drIrq || u.threIrq

def raiseIRQ (u : DevUart) : DevUart :=
  if u.intc then { u with triggered := u.triggered + 1 } else u

/-- The cause that goes to IIR. -/
def cause (u : DevUart) : Byte := if u.drIrq then 4 else if u.threIrq then 2 else 1

def assessIRQstatus (u : DevUart) : DevUart :=
  let v := { u with page1 := Function.update u.page1 .FCR u.cause }
  if !u.irqActive && u.wantIrq then
    let w := raiseIRQ { v with irqActive := true }
    { w with threReported := u.threReported || u.threIrq }
  else if u.irqActive && !u.wantIrq then { v with irqActive := false }
  else v

/-- `asyncRxCB`, with the mutex held. -/
def asyncRxCB (u : DevUart) : DevUart :=
  assessIRQstatus { u with page0 := Function.update u.page0 .LSR (u.page0 .LSR ||| lsrDR) }

/-- The switch of `read8`, where the back end gives `b`. -/
def readReg (u : DevUart) (b : Byte) : UartReg → Byte × DevUart
  | .THR =>
    if u.isPage1 then (u.page1 .THR, u)
    else (u.getByte b,
      { u with page0 := Function.update u.page0 .LSR (u.page0 .LSR &&& ~~~lsrDR) })
  | .IER => (if u.isPage1 then u.page1 .IER else u.page0 .IER, u)
  | .FCR => (u.page1 .FCR, u)
  | r => (u.page0 r, u)

def read8 (u : DevUart) (addr : PA) (b : Byte) : Byte × DevUart :=
  let (data, v) := u.readReg b (.ofAddr addr)
  (data, v.assessIRQstatus)

/-- `regs[reg] = data`. -/
def setPage0 (u : DevUart) (r : UartReg) (data : Byte) : DevUart :=
  { u with page0 := Function.update u.page0 r data }

/-- `regs[8+reg] = data`. -/
def setPage1 (u : DevUart) (r : UartReg) (data : Byte) : DevUart :=
  { u with page1 := Function.update u.page1 r data }

/-- The switch of `write8`; `true` where a byte was sent. -/
def writeReg (u : DevUart) (data : Byte) : UartReg → Bool × DevUart
  | .THR => if u.isPage1 then (false, u.setPage1 .THR data) else (true, u.sendByte data)
  | .IER => (false, if u.isPage1 then u.setPage1 .IER data else u.setPage0 .IER data)
  | r => (false, u.setPage0 r data)

def write8 (u : DevUart) (addr : PA) (data : Byte) : DevUart :=
  let (sentByte, v) := u.writeReg data (.ofAddr addr)
  -- The transmitter is not empty, and empty again, in no time.
  assessIRQstatus (if sentByte then { v with threReported := false } else v)

end DevUart

/-- What is done to the UART under its mutex. The accesses of two and four
bytes end the process. -/
inductive Access where
  | read8 (addr : PA) (b : Byte)
  | write8 (addr : PA) (data : Byte)
  | asyncRxCB
  deriving DecidableEq, Repr

/-- The UART before `assessIRQstatus`, with which every access ends. -/
def DevUart.touched (u : DevUart) : Access → DevUart
  | .read8 addr b => (u.readReg b (.ofAddr addr)).2
  | .write8 addr data =>
    if (u.writeReg data (.ofAddr addr)).1 then
      { (u.writeReg data (.ofAddr addr)).2 with threReported := false }
    else (u.writeReg data (.ofAddr addr)).2
  | .asyncRxCB => { u with page0 := Function.update u.page0 .LSR (u.page0 .LSR ||| lsrDR) }

/-- The UART after an access. -/
def DevUart.access (u : DevUart) : Access → DevUart
  | .read8 addr b => (u.read8 addr b).2
  | .write8 addr data => u.write8 addr data
  | .asyncRxCB => u.asyncRxCB

/-- One access of a run. -/
def Step (u : DevUart) (a : Access) (v : DevUart) : Prop := v = u.access a

/-- A value of IIR with its lowest bit clear: an interrupt is pending. -/
def Pending (data : Byte) : Prop := data &&& 1 = 0

instance : DecidablePred Pending := fun _ => inferInstanceAs (Decidable (_ = _))

/-- Between two states the interrupt has been raised, for the transmitter. -/
def RaisedThre (u v : DevUart) : Prop :=
  u.irqActive = false ∧ v.irqActive = true ∧ v.iir = 2

instance (u v : DevUart) : Decidable (RaisedThre u v) := inferInstanceAs (Decidable (_ ∧ _))

/-- What takes a transmitter interrupt back: a read of IIR, a byte for THR,
IER without THRE, LSR without THRE. -/
def Clears (u : DevUart) : Access → Prop
  | .read8 addr _ => UartReg.ofAddr addr = .FCR
  | .write8 addr data =>
    (UartReg.ofAddr addr = .THR ∧ u.isPage1 = false) ∨
      (UartReg.ofAddr addr = .IER ∧ u.isPage1 = false ∧ data &&& ierTHRE = 0) ∨
        (UartReg.ofAddr addr = .LSR ∧ data &&& lsrTHRE = 0)
  | .asyncRxCB => False

/-- An access that leaves it. -/
def QuietStep (u : DevUart) (a : Access) (v : DevUart) : Prop := Step u a v ∧ ¬ Clears u a

/-! ## What an access leaves -/

namespace DevUart

variable {u v w : DevUart} {a : Access} {as : List Access}

/-- Every access ends in `assessIRQstatus`. -/
theorem access_eq (u : DevUart) (a : Access) : u.access a = (u.touched a).assessIRQstatus := by
  cases a <;> rfl

@[simp] theorem raiseIRQ_page0 (u : DevUart) : u.raiseIRQ.page0 = u.page0 := by
  unfold raiseIRQ
  split_ifs <;> rfl

@[simp] theorem raiseIRQ_page1 (u : DevUart) : u.raiseIRQ.page1 = u.page1 := by
  unfold raiseIRQ
  split_ifs <;> rfl

@[simp] theorem raiseIRQ_irqActive (u : DevUart) : u.raiseIRQ.irqActive = u.irqActive := by
  unfold raiseIRQ
  split_ifs <;> rfl

/-- IIR has the cause, whatever else `assessIRQstatus` does. -/
@[simp] theorem iir_assessIRQstatus (u : DevUart) : u.assessIRQstatus.iir = u.cause := by
  have hself : Function.update u.page1 .FCR u.cause .FCR = u.cause := Function.update_self ..
  unfold assessIRQstatus iir
  dsimp only
  split_ifs <;> simp only [raiseIRQ_page1, hself]

/-- No register of page 0 changes. -/
@[simp] theorem page0_assessIRQstatus (u : DevUart) : u.assessIRQstatus.page0 = u.page0 := by
  unfold assessIRQstatus
  dsimp only
  split_ifs <;> simp only [raiseIRQ_page0]

@[simp] theorem drIrq_assessIRQstatus (u : DevUart) : u.assessIRQstatus.drIrq = u.drIrq := by
  rw [drIrq, page0_assessIRQstatus, drIrq]

/-- The interrupt is active afterwards exactly if it is wanted. -/
@[simp] theorem irqActive_assessIRQstatus (u : DevUart) :
    u.assessIRQstatus.irqActive = u.wantIrq := by
  unfold assessIRQstatus
  cases hi : u.irqActive <;> cases hw : u.wantIrq <;> simp

/-- A cause is reported if it was, or if it is raised here. -/
theorem threReported_assessIRQstatus (u : DevUart) :
    u.assessIRQstatus.threReported = (u.threReported || (!u.irqActive && u.threIrq)) := by
  have hwant : u.wantIrq = false → u.threIrq = false := fun h => by
    rw [wantIrq, Bool.or_eq_false_iff] at h
    exact h.2
  unfold assessIRQstatus
  cases hi : u.irqActive <;> cases hw : u.wantIrq <;> simp [hwant, hw]

/-- IIR reports what is wanted. -/
theorem pending_cause (u : DevUart) : Pending u.cause ↔ u.wantIrq = true := by
  unfold cause wantIrq
  cases u.drIrq <;> cases u.threIrq <;> decide

/-- With IIR at 2 the transmitter's cause is there. -/
theorem threIrq_of_cause (h : u.cause = 2) : u.threIrq = true := by
  unfold cause at h
  cases hx : u.threIrq with
  | true => rfl
  | false =>
    rw [hx, if_neg Bool.false_ne_true] at h
    split_ifs at h <;> exact absurd h (by decide)

/-- A byte is sent on a write of THR, which page 1 has not. -/
theorem writeReg_sent {data : Byte} {r : UartReg} :
    (u.writeReg data r).1 = true ↔ r = .THR ∧ u.isPage1 = false := by
  cases r <;> cases hp : u.isPage1 <;> simp [writeReg, hp]

/-- The switches change neither flag. -/
theorem flags_writeReg (u : DevUart) (data : Byte) (r : UartReg) :
    (u.writeReg data r).2.irqActive = u.irqActive ∧
      (u.writeReg data r).2.threReported = u.threReported := by
  cases r <;> cases hp : u.isPage1 <;>
    simp [writeReg, hp, setPage0, setPage1, sendByte]

theorem flags_readReg (u : DevUart) (b : Byte) (r : UartReg) :
    (u.readReg b r).2.irqActive = u.irqActive ∧
      (u.readReg b r).2.threReported = u.threReported := by
  cases r <;> cases hp : u.isPage1 <;> simp [readReg, hp]

/-- No access changes `irq_active` before `assessIRQstatus` does. -/
theorem irqActive_touched (u : DevUart) (a : Access) : (u.touched a).irqActive = u.irqActive := by
  cases a with
  | read8 addr b => exact (flags_readReg u b _).1
  | write8 addr data =>
    rw [touched]
    split_ifs <;> exact (flags_writeReg u data _).1
  | asyncRxCB => rfl

/-- Only a byte for THR has the transmitter's cause count as new. -/
theorem threReported_touched (h : ¬ Clears u a) : (u.touched a).threReported = u.threReported := by
  cases a with
  | read8 addr b => exact (flags_readReg u b _).2
  | write8 addr data =>
    rw [touched, if_neg fun hsent => h (.inl (writeReg_sent.mp hsent))]
    exact (flags_writeReg u data _).2
  | asyncRxCB => rfl

/-- After any access IIR is by the flags that the access left. -/
theorem iir_access (u : DevUart) (a : Access) : (u.access a).iir = (u.touched a).cause := by
  rw [access_eq, iir_assessIRQstatus]

/-! ## Runs -/

/-- The interrupt is active exactly while IIR reports one. -/
def Agrees (u : DevUart) : Prop := u.irqActive = true ↔ Pending u.iir

theorem agrees_init (p q : UartReg → Byte) (i s : Bool) : (new p q i s).init.Agrees :=
  ⟨fun h => Bool.noConfusion h, fun h => absurd h (show ¬ Pending 0x01 by decide)⟩

/-- Whatever the UART was, an access makes the two agree. -/
theorem agrees_access (u : DevUart) (a : Access) : (u.access a).Agrees := by
  rw [Agrees, access_eq, irqActive_assessIRQstatus, iir_assessIRQstatus, pending_cause]

/-- **In every state of a run** `irq_active` is what IIR says. -/
theorem agrees_of_run {p q : UartReg → Byte} {i s : Bool}
    (hrun : Steps Step (new p q i s).init as u) : u.Agrees :=
  hrun.invariant (agrees_init p q i s) fun t e _ _ (h : _ = t.access e) => h ▸ agrees_access t e

/-- An interrupt raised for the transmitter is a reported one. -/
theorem threReported_of_raised (h : Step u a v) (hraise : RaisedThre u v) :
    v.threReported = true := by
  obtain ⟨hbefore, -, hiir⟩ := hraise
  rw [Step, access_eq] at h
  subst h
  rw [iir_assessIRQstatus] at hiir
  rw [threReported_assessIRQstatus, irqActive_touched, hbefore, threIrq_of_cause hiir]
  exact Bool.or_true _

/-- It stays reported through accesses that leave it. -/
theorem threReported_quiet (h : QuietStep u a v) (hr : u.threReported = true) :
    v.threReported = true := by
  obtain ⟨rfl, hquiet⟩ := h
  rw [access_eq, threReported_assessIRQstatus, threReported_touched hquiet, hr, Bool.true_or]

/-- A reported cause is not in IIR: after an access that leaves it, IIR has
the receiver's cause or none. -/
theorem pending_quiet (h : QuietStep u a v) (hr : u.threReported = true) :
    Pending v.iir ↔ v.drIrq = true := by
  obtain ⟨rfl, hquiet⟩ := h
  rw [iir_access, pending_cause, access_eq, drIrq_assessIRQstatus, wantIrq, threIrq,
    threReported_touched hquiet, hr, Bool.not_true, Bool.and_false, Bool.or_false]

/-- **How long the transmitter's interrupt is reported.** In every state of
a run `irq_active` is set exactly if IIR reports a pending interrupt. Where
an access raises the interrupt for the transmitter, and what follows
neither reads IIR nor sends a byte nor clears THRE in IER or LSR, a read of
IIR reports a pending interrupt exactly if it follows at once, or if data
is ready and IER asks for that. -/
theorem reported_iff {p q : UartReg → Byte} {i s : Bool}
    (hrun : Steps Step (new p q i s).init as u) :
    (u.irqActive = true ↔ Pending u.iir) ∧
      ∀ a v, Step u a v → RaisedThre u v → ∀ between w, Steps QuietStep v between w →
        ∀ addr b, UartReg.ofAddr addr = .FCR →
          (Pending (w.read8 addr b).1 ↔ between = [] ∨ w.drIrq = true) := by
  refine ⟨agrees_of_run hrun, fun a v ha hraise between w hbetween addr b haddr => ?_⟩
  have hread : (w.read8 addr b).1 = w.iir := by
    rw [read8, haddr]
    rfl
  rw [hread]
  cases hbetween with
  | nil =>
    refine iff_of_true ?_ (.inl rfl)
    rw [hraise.2.2]
    decide
  | @snoc es x _ e hes hlast =>
    have hr : x.threReported = true :=
      hes.invariant (threReported_of_raised ha hraise)
        fun _ _ _ hr hstep => threReported_quiet hstep hr
    rw [pending_quiet hlast hr]
    simp

/-- The UART as it starts, with a back end and an interrupt controller. -/
def attached : DevUart := (new (fun _ => 0) (fun _ => 0) true true).init

/-- THRE in IER raises the interrupt, and a read of IIR says so. -/
theorem reported_iff_at_once :
    Pending ((attached.write8 1 ierTHRE).read8 2 0).1 :=
  have hraise : RaisedThre attached (attached.write8 1 ierTHRE) := by decide +kernel
  ((reported_iff .nil).2 (.write8 1 ierTHRE) _ rfl hraise [] _ .nil 2 0 rfl).mpr (.inl rfl)

/-- **A look at LSR takes the interrupt back.** Nothing of what should have
cleared it has happened, and a read of IIR reports none. -/
theorem lost_on_lsr_read :
    let v := attached.write8 1 ierTHRE
    RaisedThre attached v ∧ ¬ Clears v (.read8 5 0) ∧
      ¬ Pending (((v.access (.read8 5 0)).read8 2 0).1) := by
  have hlsr : ¬ UartReg.ofAddr 5 = .FCR := by decide
  exact ⟨by decide +kernel, hlsr, by decide +kernel⟩

end DevUart

end Uart16550

end MrIss
