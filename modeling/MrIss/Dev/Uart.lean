import MrIss.Bus
import MrIss.Lib.Run
/-!
# The console's two threads

`DevSimpleUart` is read and written by the CPU's thread; `SerialPTY` has a
thread of its own, which waits for input at the pseudo-terminal and calls
the UART back. Both change the UART's registers under its mutex; the flag
`reportRX`, by which the CPU's thread asks for the next call, is shared
without it. The steps of the two threads come in any order, and bytes
arrive at any time.
-/

namespace MrIss

open Run

namespace Console

abbrev Byte : Type := BitVec 8

/-! ## The UART -/

/-- `UART_REG_*`. The first is `RX` when read and `TX` when written. -/
inductive UartReg where
  | RX
  | STATUS
  | IRQ_STATUS
  | IRQ_ENABLE
  deriving DecidableEq, Repr

/-- The register that an access is to; others end the process. -/
def UartReg.ofAddr (addr : PA) : Option UartReg :=
  match (addr &&& 0xf#32).toNat with
  | 0x0 => some .RX
  | 0x4 => some .STATUS
  | 0x8 => some .IRQ_STATUS
  | 0xc => some .IRQ_ENABLE
  | _ => none

def statusRXNE : Byte := 1
def statusTXNF : Byte := 2
def irqStatusRX : Byte := 1

/-- `DevSimpleUart`: the registers that are used, and how often it has
called `raiseIRQ`. -/
structure DevSimpleUart where
  status : Byte
  irqStatus : Byte
  irqEnable : Byte
  irqActive : Bool
  raised : ℕ

namespace DevSimpleUart

/-- `DevSimpleUart::init`. -/
def init : DevSimpleUart := ⟨statusTXNF, 0, 0, false, 0⟩

/-- RX is not empty, by the status register. -/
def rxne (u : DevSimpleUart) : Bool := u.status &&& statusRXNE != 0

def assessIRQstatus (u : DevSimpleUart) : DevSimpleUart :=
  let wantIrq := u.irqStatus &&& u.irqEnable != 0
  if !u.irqActive && wantIrq then { u with irqActive := true, raised := u.raised + 1 }
  else if u.irqActive && !wantIrq then { u with irqActive := false }
  else u

/-- `asyncRxCB`, with the mutex held. -/
def asyncRxCB (u : DevSimpleUart) : DevSimpleUart :=
  assessIRQstatus
    { u with status := u.status ||| statusRXNE, irqStatus := u.irqStatus ||| irqStatusRX }

/-- What `read8` does to the status register once it has a byte. -/
def clearRXNE (u : DevSimpleUart) : DevSimpleUart := { u with status := u.status &&& ~~~statusRXNE }

/-- The registers that `read8` returns as they are. -/
def readReg (u : DevSimpleUart) : UartReg → Option Byte
  | .RX => none
  | .STATUS => some u.status
  | .IRQ_STATUS => some u.irqStatus
  | .IRQ_ENABLE => some u.irqEnable

/-- The switch of `write8`. -/
def writeReg (u : DevSimpleUart) (data : Byte) : UartReg → Option DevSimpleUart
  -- The byte is sent, and no register changes.
  | .RX => some u
  -- Writing ones clears.
  | .IRQ_STATUS => some { u with irqStatus := u.irqStatus &&& ~~~data }
  | .IRQ_ENABLE => some { u with irqEnable := data }
  | .STATUS => none

@[simp] theorem assessIRQstatus_status (u : DevSimpleUart) :
    u.assessIRQstatus.status = u.status := by
  unfold assessIRQstatus
  grind

@[simp] theorem rxne_assessIRQstatus (u : DevSimpleUart) : u.assessIRQstatus.rxne = u.rxne := by
  rw [rxne, assessIRQstatus_status, rxne]

/-- The callback sets RXNE. -/
@[simp] theorem rxne_asyncRxCB (u : DevSimpleUart) : u.asyncRxCB.rxne = true := by
  have hbit : ∀ v : Byte, ((v ||| statusRXNE) &&& statusRXNE != 0) = true := by decide
  rw [asyncRxCB, rxne_assessIRQstatus]
  exact hbit _

@[simp] theorem rxne_clearRXNE (u : DevSimpleUart) : u.clearRXNE.rxne = false := by
  have hbit : ∀ v : Byte, ((v &&& ~~~statusRXNE) &&& statusRXNE != 0) = false := by decide
  exact hbit _

/-- Nothing else that the CPU writes changes RXNE. -/
theorem rxne_writeReg {u v : DevSimpleUart} {data : Byte} {r : UartReg}
    (h : u.writeReg data r = some v) : v.rxne = u.rxne := by
  cases r <;> cases h <;> rfl

end DevSimpleUart

/-! ## The threads -/

inductive Thread where
  | cpu
  | listener
  deriving DecidableEq, Repr

/-- What the CPU's thread calls. -/
inductive Op where
  | read8 (addr : PA)
  | write8 (addr : PA) (data : Byte)
  deriving DecidableEq, Repr

/-- A `read8` of RX. -/
def Op.isRX : Op → Bool
  | .read8 addr => UartReg.ofAddr addr == some .RX
  | .write8 .. => false

/-- A `read8` of the status register. -/
def Op.isStatus : Op → Bool
  | .read8 addr => UartReg.ofAddr addr == some .STATUS
  | .write8 .. => false

/-- Where the CPU's thread is: in the rest of `init`, which has started the
other thread; between calls; or in a call. -/
inductive CpuPc where
  /-- `rx_cb = func`. -/
  | registerCb
  /-- `rx_cb_arg = arg`. -/
  | registerArg
  | idle
  /-- `pthread_mutex_lock`. -/
  | lock (op : Op)
  /-- The switch. -/
  | body (op : Op)
  /-- `reportRX = true`, at the end of `SerialPTY::getByte`. -/
  | report (op : Op) (b : Byte)
  /-- RXNE is cleared. -/
  | clear (op : Op) (b : Byte)
  /-- `assessIRQstatus` and `pthread_mutex_unlock`. -/
  | unlock (op : Op) (data : Byte)
  deriving DecidableEq, Repr

/-- Where `listenThread` is. -/
inductive ListenPc where
  /-- `reportRX = true`, before the loop. -/
  | start
  | poll
  /-- `reportRX && rx_cb`. -/
  | test
  /-- `reportRX = false`. -/
  | clear
  /-- `rx_cb(rx_cb_arg)`, up to the mutex. -/
  | call
  /-- `asyncRxCB`, with the mutex. -/
  | callback
  deriving DecidableEq, Repr

/-- The two threads and the pseudo-terminal. The last three fields are a
record, which no step looks at: the bytes that have arrived, those that reads
of RX have returned, and whether the guest has seen RXNE set since it last
read RX. -/
structure State where
  uart : DevSimpleUart
  reportRX : Bool
  rxCb : Bool
  rxCbArg : Bool
  /-- What the host holds, first byte first. -/
  unread : List Byte
  /-- Nobody has the terminal open. -/
  hup : Bool
  mutex : Option Thread
  cpu : CpuPc
  listener : ListenPc
  arrived : List Byte
  received : List Byte
  seen : Bool

/-- The call of `serio->init()` in `DevSimpleUart::init` has returned. -/
def State.init : State where
  uart := .init
  reportRX := true
  rxCb := false
  rxCbArg := false
  unread := []
  hup := true
  mutex := none
  cpu := .registerCb
  listener := .start
  arrived := []
  received := []
  seen := false

/-- Who takes a step. -/
inductive Event where
  | arrive (b : Byte)
  | hangUp (hup : Bool)
  /-- The guest's next access. -/
  | begin (op : Op)
  | cpu
  | listener
  deriving DecidableEq, Repr

/-- The steps. A thread that waits for the mutex has none while it is held,
and a call through a null argument has none at all. -/
inductive Step : State → Event → State → Prop where
  | arrive {s : State} (b : Byte) :
      Step s (.arrive b) { s with unread := s.unread ++ [b], arrived := s.arrived ++ [b] }
  | hangUp {s : State} (hup : Bool) : Step s (.hangUp hup) { s with hup := hup }
  | registerCb {s : State} (h : s.cpu = .registerCb) :
      Step s .cpu { s with rxCb := true, cpu := .registerArg }
  | registerArg {s : State} (h : s.cpu = .registerArg) :
      Step s .cpu { s with rxCbArg := true, cpu := .idle }
  | begin {s : State} (op : Op) (h : s.cpu = .idle) :
      Step s (.begin op) { s with cpu := .lock op, seen := s.seen && !op.isRX }
  | lock {s : State} {op : Op} (h : s.cpu = .lock op) (hm : s.mutex = none) :
      Step s .cpu { s with mutex := some .cpu, cpu := .body op }
  | getByte {s : State} {op : Op} {b : Byte} {bs : List Byte} (h : s.cpu = .body op)
      (hrx : op.isRX = true) (hb : s.unread = b :: bs) :
      Step s .cpu { s with unread := bs, cpu := .report op b }
  -- `EAGAIN`: `getByte` goes round.
  | again {s : State} {op : Op} (h : s.cpu = .body op) (hrx : op.isRX = true)
      (hb : s.unread = []) (hup : s.hup = false) : Step s .cpu s
  -- Any other error ends the loop with the byte that `b` was set to.
  | error {s : State} {op : Op} (h : s.cpu = .body op) (hrx : op.isRX = true)
      (hb : s.unread = []) (hup : s.hup = true) : Step s .cpu { s with cpu := .report op 0 }
  | report {s : State} {op : Op} {b : Byte} (h : s.cpu = .report op b) :
      Step s .cpu { s with reportRX := true, cpu := .clear op b }
  | clear {s : State} {op : Op} {b : Byte} (h : s.cpu = .clear op b) :
      Step s .cpu { s with uart := s.uart.clearRXNE, cpu := .unlock op b }
  | read {s : State} {addr : PA} {r : UartReg} {data : Byte} (h : s.cpu = .body (.read8 addr))
      (hr : UartReg.ofAddr addr = some r) (hdata : s.uart.readReg r = some data) :
      Step s .cpu { s with cpu := .unlock (.read8 addr) data }
  | write {s : State} {addr : PA} {r : UartReg} {data : Byte} {u : DevSimpleUart}
      (h : s.cpu = .body (.write8 addr data)) (hr : UartReg.ofAddr addr = some r)
      (hu : s.uart.writeReg data r = some u) :
      Step s .cpu { s with uart := u, cpu := .unlock (.write8 addr data) data }
  | unlock {s : State} {op : Op} {data : Byte} (h : s.cpu = .unlock op data) :
      Step s .cpu
        { s with
          uart := s.uart.assessIRQstatus
          mutex := none
          cpu := .idle
          received := if op.isRX then s.received ++ [data] else s.received
          seen := if op.isStatus then data &&& statusRXNE != 0 else s.seen }
  | start {s : State} (h : s.listener = .start) :
      Step s .listener { s with reportRX := true, listener := .poll }
  | poll {s : State} (h : s.listener = .poll) (hb : s.unread ≠ []) (hup : s.hup = false) :
      Step s .listener { s with listener := .test }
  | sleep {s : State} (h : s.listener = .poll) (hup : s.hup = true) : Step s .listener s
  | skip {s : State} (h : s.listener = .test) (hr : (s.reportRX && s.rxCb) = false) :
      Step s .listener { s with listener := .poll }
  | test {s : State} (h : s.listener = .test) (hr : (s.reportRX && s.rxCb) = true) :
      Step s .listener { s with listener := .clear }
  | clearReport {s : State} (h : s.listener = .clear) :
      Step s .listener { s with reportRX := false, listener := .call }
  | call {s : State} (h : s.listener = .call) (harg : s.rxCbArg = true) (hm : s.mutex = none) :
      Step s .listener { s with mutex := some .listener, listener := .callback }
  | callback {s : State} (h : s.listener = .callback) :
      Step s .listener
        { s with uart := s.uart.asyncRxCB, mutex := none, listener := .poll }

/-! ## The mutex -/

/-- The CPU's thread has the mutex. -/
def CpuPc.holds : CpuPc → Bool
  | .body _ | .report _ _ | .clear _ _ | .unlock _ _ => true
  | .registerCb | .registerArg | .idle | .lock _ => false

/-- The listener has cleared `reportRX` and its callback is still to run. -/
def ListenPc.owes : ListenPc → Bool
  | .call | .callback => true
  | .start | .poll | .test | .clear => false

/-- Who has the mutex is where it says. -/
structure Mutual (s : State) : Prop where
  cpu : s.cpu.holds = true ↔ s.mutex = some .cpu
  listener : s.listener = .callback ↔ s.mutex = some .listener

variable {s t : State} {e : Event}

/-- While the callback runs, the CPU's thread is outside. -/
theorem Mutual.not_holds (h : Mutual s) (hl : s.listener = .callback) : s.cpu.holds = false := by
  have hm := h.listener.mp hl
  by_contra hc
  rw [Bool.not_eq_false, h.cpu, hm] at hc
  cases hc

theorem mutual_step (h : Mutual s) (hstep : Step s e t) : Mutual t := by
  obtain ⟨hcpu, hlist⟩ := h
  cases hstep with
  | arrive | hangUp | again | sleep => exact ⟨hcpu, hlist⟩
  | registerCb hpc | registerArg hpc | begin _ hpc | getByte hpc | error hpc | report hpc
  | clear hpc | read hpc | write hpc =>
    rw [hpc] at hcpu
    exact ⟨hcpu, hlist⟩
  | lock hpc hm =>
    rw [hm] at hlist
    exact ⟨by simp [CpuPc.holds], by simpa using hlist⟩
  | unlock hpc =>
    rw [hpc] at hcpu
    rw [hcpu.mp rfl] at hlist
    exact ⟨by simp [CpuPc.holds], by simpa using hlist⟩
  | start hpc | poll hpc | skip hpc | test hpc | clearReport hpc =>
    rw [hpc] at hlist
    exact ⟨hcpu, by simpa using hlist⟩
  | call hpc harg hm =>
    rw [hm] at hcpu
    exact ⟨by simpa using hcpu, by simp⟩
  | callback hpc =>
    rw [hlist.mp hpc] at hcpu
    exact ⟨by simpa using hcpu, by simp⟩

/-! ## Every byte is announced -/

/-- The listener will be told, the guest is told, or the callback is on its
way; what is about to be cleared does not count. -/
structure Announced (s : State) : Prop where
  excl : Mutual s
  told : s.reportRX = true ∨ s.listener.owes = true ∨
    (s.uart.rxne = true ∧ ∀ op b, s.cpu ≠ .clear op b)

theorem announced_step (h : Announced s) (hstep : Step s e t) : Announced t := by
  refine ⟨mutual_step h.excl hstep, ?_⟩
  have htold := h.told
  cases hstep with
  | arrive | hangUp | again | sleep => exact htold
  | registerCb hpc | registerArg hpc | begin _ hpc | lock hpc | getByte hpc | error hpc
  | read hpc =>
    exact htold.imp_right (Or.imp_right fun h => ⟨h.1, fun op b heq => by cases heq⟩)
  | write hpc hr hu =>
    refine htold.imp_right (Or.imp_right fun h => ⟨?_, fun op b heq => by cases heq⟩)
    exact (DevSimpleUart.rxne_writeReg hu).trans h.1
  | unlock hpc =>
    refine htold.imp_right (Or.imp_right fun h => ⟨?_, fun op b heq => by cases heq⟩)
    exact (DevSimpleUart.rxne_assessIRQstatus _).trans h.1
  | report hpc => exact .inl rfl
  | clear hpc => exact htold.imp_right (Or.imp_right fun h => absurd hpc (h.2 _ _))
  | start hpc => exact .inl rfl
  | poll hpc | skip hpc | test hpc =>
    rw [hpc] at htold
    exact htold.imp_right (Or.imp_left fun h => by cases h)
  | clearReport hpc => exact .inr (.inl rfl)
  | call hpc => exact .inr (.inl rfl)
  | callback hpc =>
    refine .inr (.inr ⟨DevSimpleUart.rxne_asyncRxCB _, fun op b heq => ?_⟩)
    have hout := h.excl.not_holds hpc
    rw [heq] at hout
    cases hout

/-- **No received character goes unannounced.** Whatever order the steps
come in and whenever bytes arrive, in every state reached, whether or not
the host holds a byte or the CPU reads one: the listener will see
`reportRX`, or RXNE is set, or the callback is still to run. -/
theorem announced {es : List Event} (hrun : Steps Step .init es s) :
    s.reportRX = true ∨ s.uart.rxne = true ∨ s.listener.owes = true := by
  have h := hrun.invariant (I := Announced) ⟨⟨by decide, by decide⟩, .inl rfl⟩
    fun _ _ _ h hstep => announced_step h hstep
  rcases h.told with hr | ho | hx
  · exact .inl hr
  · exact .inr (.inr ho)
  · exact .inr (.inl hx.1)

/-- Of two bytes the first is announced and read; then the listener has
cleared the flag for the second, and is about to call the UART back. -/
theorem announced_second : ∃ es s, Steps Step .init es s ∧ s.received = [0x41] ∧
    s.unread = [0x42] ∧ s.reportRX = false ∧
      (s.reportRX = true ∨ s.uart.rxne = true ∨ s.listener.owes = true) := by
  have harrive := (Steps.single (Step.arrive (s := .init) 0x41)).snoc (.arrive 0x42)
  have hready := ((harrive.snoc (.hangUp false)).snoc (.registerCb rfl)).snoc (.registerArg rfl)
  have hpoll := (hready.snoc (.start rfl)).snoc (.poll rfl (by decide) rfl)
  have hclear := (hpoll.snoc (.test rfl rfl)).snoc (.clearReport rfl)
  have hset := (hclear.snoc (.call rfl rfl rfl)).snoc (.callback rfl)
  have hread := (hset.snoc (.begin (.read8 0x0) rfl)).snoc (.lock rfl rfl)
  have hbyte := (hread.snoc (.getByte rfl rfl rfl)).snoc (.report rfl)
  have hreceived := (hbyte.snoc (.clear rfl)).snoc (.unlock rfl)
  have hagain := (hreceived.snoc (.poll rfl (by simp) rfl)).snoc (.test rfl rfl)
  have hrun := hagain.snoc (.clearReport rfl)
  exact ⟨_, _, hrun, rfl, rfl, rfl, announced hrun⟩

end Console

end MrIss
