import MrIss.Dev.Dma
import MrIss.Dev.SdCard
/-!
# The SD host controller

`DevSD` has a request bit and an acknowledge bit for commands, for data
received and for data sent: a channel is pending where they differ. A write
of any register looks for work. A command is served first, and data is
received only after a command; data is sent at once.
-/

namespace MrIss

open EarlyReturn

namespace Sd

/-! ## Registers -/

def SD_REG_RB0 : ℕ := 0
def SD_REG_CB0 : ℕ := 4
def SD_REG_CB1 : ℕ := 5
def SD_REG_CTRL : ℕ := 6
def SD_REG_DATACFG : ℕ := 12
def SD_REG_DMA_ADDR : ℕ := 14
def SD_REG_IRQ : ℕ := 15

def SD_CTRL_CMDREQ : BitVec 32 := 0x01
def SD_CTRL_RXREQ : BitVec 32 := 0x10
def SD_CTRL_TXREQ : BitVec 32 := 0x100

def SD_IRQ_RX_COMPLETE : BitVec 32 := 0x01
def SD_IRQ_TX_COMPLETE : BitVec 32 := 0x02
def SD_IRQ_RX_ENABLE : BitVec 32 := 0x100
def SD_IRQ_TX_ENABLE : BitVec 32 := 0x200

/-- The register that an access is to. -/
def regOf (addr : PA) : ℕ := ((addr &&& 0x3f#32) >>> 2).toNat

/-- `!!(x & m)`. -/
def bit (x m : BitVec 32) : Bool := x &&& m != 0

/-- `DevSD`; `intc` says whether an interrupt controller is attached. -/
structure DevSD where
  regs : ℕ → BitVec 32
  intc : Bool
  irqTxTriggered : Bool
  irqTxEnabled : Bool
  irqRxTriggered : Bool
  irqRxEnabled : Bool
  txblocks : BitVec 32
  cmdAck : Bool
  txAck : Bool
  rxAck : Bool
  cmdStatus : BitVec 32
  txStatus : BitVec 32
  rxStatus : BitVec 32
  dmaStatus : BitVec 32

namespace DevSD

/-- `DevSD::init`. -/
def init (intc : Bool) : DevSD where
  regs _ := 0
  intc := intc
  irqTxTriggered := false
  irqTxEnabled := false
  irqRxTriggered := false
  irqRxEnabled := false
  txblocks := 0
  cmdAck := false
  txAck := false
  rxAck := false
  cmdStatus := 0
  txStatus := 0
  rxStatus := 0
  dmaStatus := 0

def cmdReq (d : DevSD) : Bool := bit (d.regs SD_REG_CTRL) SD_CTRL_CMDREQ
def txReq (d : DevSD) : Bool := bit (d.regs SD_REG_CTRL) SD_CTRL_TXREQ
def rxReq (d : DevSD) : Bool := bit (d.regs SD_REG_CTRL) SD_CTRL_RXREQ

def cmdPending (d : DevSD) : Bool := d.cmdReq ^^ d.cmdAck
def txPending (d : DevSD) : Bool := d.txReq ^^ d.txAck
def rxPending (d : DevSD) : Bool := d.rxReq ^^ d.rxAck

def setReg (d : DevSD) (r : ℕ) (v : BitVec 32) : DevSD :=
  { d with regs := Function.update d.regs r v }

/-- A write of the IRQ register. -/
def setIrq (d : DevSD) (data : BitVec 32) : DevSD :=
  { d with
    irqTxEnabled := bit data SD_IRQ_TX_ENABLE, irqRxEnabled := bit data SD_IRQ_RX_ENABLE,
    irqTxTriggered := if bit data SD_IRQ_TX_COMPLETE then false else d.irqTxTriggered,
    irqRxTriggered := if bit data SD_IRQ_RX_COMPLETE then false else d.irqRxTriggered }

/-- The words of a response, in `RB0` and on. -/
def setResponse (d : DevSD) : Response → DevSD
  | .unchanged => d
  | .short r => (d.setReg SD_REG_RB0 r.1).setReg (SD_REG_RB0 + 1) r.2
  | .long r => (List.range 4).foldl (fun d k =>
      d.setReg (SD_REG_RB0 + k) (r (4 * k + 3) ++ r (4 * k + 2) ++ r (4 * k + 1) ++ r (4 * k))) d

/-- The command in the command registers. -/
def cmd (d : DevSD) : BitVec 32 := commandOf (d.regs SD_REG_CB1)

def arg (d : DevSD) : BitVec 32 := argumentOf (d.regs SD_REG_CB0) (d.regs SD_REG_CB1)

/-- `SD_DATACFG_NRBLK`. -/
def nrBlk (d : DevSD) : BitVec 32 := (d.regs SD_REG_DATACFG &&& 0xffff0000) >>> 16

/-- `rx_len`. -/
def rxLen (d : DevSD) : BitVec 32 :=
  if d.nrBlk = 0 then (d.regs SD_REG_DATACFG &&& 0xff) * 4 else (d.nrBlk + 1) * 512

/-- `tx_len`. -/
def txLen (d : DevSD) : BitVec 32 := (d.nrBlk + 1) * 512

/-- `regs[SD_REG_DMA_ADDR]`. -/
def dmaAddr (d : DevSD) : PA := d.regs SD_REG_DMA_ADDR

end DevSD

/-- What the controller asks of the card and of the interrupt controller. -/
inductive Work where
  | command (cmd arg : BitVec 32)
  | read (size : BitVec 32) (reply : Reply)
  | write (data : ℕ → Byte) (size : BitVec 32) (reply : Reply)
  | irq

/-- The controller, the card in it, and what its transfers reach; and a log
of its calls. -/
structure Slot where
  dev : DevSD
  card : DevSDCard
  host : Host
  log : List Work

/-! ## Work -/

namespace Slot

/-- After `DevSD::init` with a card. -/
def init (intc : Bool) (card : DevSDCard) (host : Host) : Slot := ⟨.init intc, card, host, []⟩

/-- A command is served. -/
def command (t : Slot) : Slot :=
  let r := t.card.command t.dev.cmd t.dev.arg
  { t with
    dev := { t.dev.setResponse r.2.1 with
      cmdStatus := if r.1 then 0 else 1, cmdAck := !t.dev.cmdAck }
    card := r.2.2
    log := t.log ++ [.command t.dev.cmd t.dev.arg] }

/-- Data is received at a place in the host. -/
def receive (t : Slot) (ha : HVA) : Slot :=
  let r := t.card.read t.host.image t.dev.rxLen
  { dev :=
      if r.1 = .idle then t.dev
      else { t.dev with
        rxStatus := if r.1 = .bad then 1 else 0, rxAck := !t.dev.rxAck, irqRxTriggered := true }
    card := r.2.2
    host := { t.host with
      sys := { t.host.sys with mem := ByteMem.writeBytes t.host.sys.mem ha r.2.1 } }
    log := t.log ++ [.read t.dev.rxLen r.1] }

/-- Data is sent from a place in the host. -/
def transmit (t : Slot) (ha : HVA) : Slot :=
  let data := fun j => t.host.sys.mem (ha + BitVec.ofNat 64 j)
  let r := t.card.write t.host.image data t.dev.txLen
  { dev := { t.dev with
      txStatus := if r.1 = .done then 0 else 1, txAck := !t.dev.txAck, irqTxTriggered := true }
    card := r.2.2
    host := { t.host with image := r.2.1 }
    log := t.log ++ [.write data t.dev.txLen r.1] }

/-- The interrupt, where one is enabled. -/
def trigger (t : Slot) : Slot :=
  if t.dev.intc && ((t.dev.irqTxTriggered && t.dev.irqTxEnabled) ||
      (t.dev.irqRxTriggered && t.dev.irqRxEnabled)) then
    { t with log := t.log ++ [.irq] }
  else t

def getAddrDMA (bus : Bus) : Prog Abort Slot HVA := do
  let addr ← Prog.gets fun t : Slot => t.dev.dmaAddr
  Prog.zoom Slot.host (fun t h => { t with host := h }) (Host.getAddrDMA bus addr)

/-- "RX is triggered off a command completion." -/
def receiveWork (bus : Bus) : Prog Abort Slot Unit := do
  let pending ← Prog.gets fun t : Slot => t.dev.rxPending
  Prog.when pending do
    let base ← getAddrDMA bus
    Prog.modify fun t => t.receive base

def commandWork (bus : Bus) : Prog Abort Slot Unit := do
  let pending ← Prog.gets fun t : Slot => t.dev.cmdPending
  Prog.when pending do
    Prog.modify Slot.command
    receiveWork bus

def transmitWork (bus : Bus) : Prog Abort Slot Unit := do
  let pending ← Prog.gets fun t : Slot => t.dev.txPending
  Prog.when pending do
    let base ← getAddrDMA bus
    Prog.modify fun t => t.transmit base

/-- **`checkForWork`**. -/
def checkForWork (bus : Bus) : Prog Abort Slot Unit := do
  commandWork bus
  transmitWork bus
  Prog.modify Slot.trigger

/-- The registers that are simply kept. -/
def kept : List ℕ := [SD_REG_CB0, SD_REG_CB1, SD_REG_CTRL, SD_REG_DATACFG, SD_REG_DMA_ADDR]

/-- The registers that a write changes; a write of any other ends the
process. -/
def setRegs (addr : PA) (data : BitVec 32) : Prog Abort Slot Unit :=
  if regOf addr ∈ kept then
    Prog.modify fun t => { t with dev := t.dev.setReg (regOf addr) data }
  else if regOf addr = SD_REG_IRQ then
    Prog.modify fun t => { t with dev := t.dev.setIrq data }
  else
    Prog.abort .device

/-- **`DevSD::write32`**. -/
def write32 (bus : Bus) (addr : PA) (data : BitVec 32) : Prog Abort Slot Unit := do
  setRegs addr data
  checkForWork bus

/-- A sequence of register writes. -/
def run (bus : Bus) (ws : List (PA × BitVec 32)) : Prog Abort Slot Unit :=
  ws.forM fun w => write32 bus w.1 w.2

end Slot

/-! ## What the parts of the work do -/

namespace Slot

variable {B : PagedBus} {t t' : Slot}

/-- The machine after a lookup on the bus. -/
def found (t : Slot) (i : ℕ) : Slot := { t with host := t.host.found i }

@[simp] theorem found_dev (t : Slot) (i : ℕ) : (t.found i).dev = t.dev := rfl
@[simp] theorem found_card (t : Slot) (i : ℕ) : (t.found i).card = t.card := rfl
@[simp] theorem found_log (t : Slot) (i : ℕ) : (t.found i).log = t.log := rfl
@[simp] theorem found_image (t : Slot) (i : ℕ) : (t.found i).host.image = t.host.image := rfl
@[simp] theorem found_mem (t : Slot) (i : ℕ) : (t.found i).host.sys.mem = t.host.sys.mem := rfl

/-- The place of an address of RAM is found, and no other. -/
theorem getAddrDMA_eq (B : PagedBus) (t : Slot) :
    (∃ ha k i, B.ramFrom t.dev.dmaAddr = some (ha, k) ∧
        getAddrDMA B.bus t = .ok ha (t.found i)) ∨
      (B.ramFrom t.dev.dmaAddr = none ∧ ∃ e u, getAddrDMA B.bus t = .abort e u) := by
  have hzoom : getAddrDMA B.bus t =
      Prog.zoom Slot.host (fun t h => { t with host := h })
        (Host.getAddrDMA B.bus t.dev.dmaAddr) t := rfl
  rw [hzoom, Prog.zoom]
  rcases B.getAddrDMA_eq t.dev.dmaAddr t.host with ⟨ha, k, i, hram, hget⟩ | ⟨hram, e, u, hget⟩
  · rw [hget]
    exact .inl ⟨ha, k, i, hram, rfl⟩
  · rw [hget]
    exact .inr ⟨hram, e, _, rfl⟩

/-- What a transfer at the DMA address does to a slot. -/
theorem atDMA_ok {f : Slot → HVA → Slot}
    (h : (getAddrDMA B.bus >>= fun base => Prog.modify fun t => f t base) t = .ok () t') :
    ∃ ha k i, B.ramFrom t.dev.dmaAddr = some (ha, k) ∧ t' = f (t.found i) ha := by
  rcases getAddrDMA_eq B t with ⟨ha, k, i, hram, hget⟩ | ⟨-, e, u, hget⟩
  · rw [Prog.bind_of_ok hget] at h
    cases h
    exact ⟨ha, k, i, hram, rfl⟩
  · rw [Prog.bind_of_abort hget] at h
    cases h

/-- **Receiving**: nothing, or a read at the DMA address. -/
theorem receiveWork_ok (h : receiveWork B.bus t = .ok () t') :
    (t.dev.rxPending = false ∧ t' = t) ∨
      (t.dev.rxPending = true ∧ ∃ ha k i, B.ramFrom t.dev.dmaAddr = some (ha, k) ∧
        t' = (t.found i).receive ha) := by
  rw [receiveWork, Prog.gets_bind_apply] at h
  cases hp : t.dev.rxPending with
  | false =>
    rw [hp] at h
    cases h
    exact .inl ⟨rfl, rfl⟩
  | true =>
    rw [hp] at h
    exact .inr ⟨rfl, atDMA_ok h⟩

/-- **A command**: none, or one and what is received after it. -/
theorem commandWork_ok (h : commandWork B.bus t = .ok () t') :
    (t.dev.cmdPending = false ∧ t' = t) ∨
      (t.dev.cmdPending = true ∧ receiveWork B.bus t.command = .ok () t') := by
  rw [commandWork, Prog.gets_bind_apply] at h
  cases hp : t.dev.cmdPending with
  | false =>
    rw [hp] at h
    cases h
    exact .inl ⟨rfl, rfl⟩
  | true =>
    rw [hp] at h
    exact .inr ⟨rfl, h⟩

/-- **Sending**: nothing, or a write from the DMA address. -/
theorem transmitWork_ok (h : transmitWork B.bus t = .ok () t') :
    (t.dev.txPending = false ∧ t' = t) ∨
      (t.dev.txPending = true ∧ ∃ ha k i, B.ramFrom t.dev.dmaAddr = some (ha, k) ∧
        t' = (t.found i).transmit ha) := by
  rw [transmitWork, Prog.gets_bind_apply] at h
  cases hp : t.dev.txPending with
  | false =>
    rw [hp] at h
    cases h
    exact .inl ⟨rfl, rfl⟩
  | true =>
    rw [hp] at h
    exact .inr ⟨rfl, atDMA_ok h⟩

theorem checkForWork_ok (h : checkForWork B.bus t = .ok () t') :
    ∃ t₁ t₂, commandWork B.bus t = .ok () t₁ ∧ transmitWork B.bus t₁ = .ok () t₂ ∧
      t' = t₂.trigger := by
  obtain ⟨⟨⟩, t₁, h₁, h⟩ := Prog.bind_eq_ok h
  obtain ⟨⟨⟩, t₂, h₂, h⟩ := Prog.bind_eq_ok h
  cases h
  exact ⟨t₁, t₂, h₁, h₂, rfl⟩

/-! ## What a command changes in the controller -/

/-- A response goes to the response registers and nowhere else. -/
theorem setResponse_eq (d : DevSD) (r : Response) :
    ∃ regs : ℕ → BitVec 32, d.setResponse r = { d with regs := regs } ∧
      ∀ j, 4 ≤ j → regs j = d.regs j := by
  cases r with
  | unchanged => exact ⟨d.regs, rfl, fun _ _ => rfl⟩
  | short r =>
    refine ⟨_, rfl, fun j hj => ?_⟩
    simp only [DevSD.setReg, SD_REG_RB0]
    rw [Function.update_of_ne (by omega), Function.update_of_ne (by omega)]
  | long r =>
    refine ⟨_, rfl, fun j hj => ?_⟩
    simp only [DevSD.setReg, SD_REG_RB0]
    rw [Function.update_of_ne (by omega), Function.update_of_ne (by omega),
      Function.update_of_ne (by omega), Function.update_of_ne (by omega)]

/-- A command toggles its acknowledge bit; the registers of requests and of
transfers, the other bits and the interrupts are as before. -/
theorem command_dev (t : Slot) :
    ∃ (regs : ℕ → BitVec 32) (st : BitVec 32),
      t.command.dev = { t.dev with regs := regs, cmdStatus := st, cmdAck := !t.dev.cmdAck } ∧
        ∀ j, 4 ≤ j → regs j = t.dev.regs j := by
  obtain ⟨regs, hregs, hsame⟩ := setResponse_eq t.dev (t.card.command t.dev.cmd t.dev.arg).2.1
  refine ⟨regs, if (t.card.command t.dev.cmd t.dev.arg).1 then 0 else 1, ?_, hsame⟩
  rw [command]
  dsimp only
  rw [hregs]

theorem command_regs (t : Slot) {j : ℕ} (hj : 4 ≤ j) : t.command.dev.regs j = t.dev.regs j := by
  obtain ⟨regs, st, hd, hsame⟩ := command_dev t
  rw [hd]
  exact hsame j hj

@[simp] theorem command_cmdReq (t : Slot) : t.command.dev.cmdReq = t.dev.cmdReq := by
  rw [DevSD.cmdReq, command_regs t (by decide), DevSD.cmdReq]

@[simp] theorem command_rxReq (t : Slot) : t.command.dev.rxReq = t.dev.rxReq := by
  rw [DevSD.rxReq, command_regs t (by decide), DevSD.rxReq]

@[simp] theorem command_rxLen (t : Slot) : t.command.dev.rxLen = t.dev.rxLen := by
  have hcfg : t.command.dev.regs SD_REG_DATACFG = t.dev.regs SD_REG_DATACFG :=
    command_regs t (by decide)
  rw [DevSD.rxLen, DevSD.nrBlk, hcfg, DevSD.rxLen, DevSD.nrBlk]

@[simp] theorem command_dmaAddr (t : Slot) : t.command.dev.dmaAddr = t.dev.dmaAddr := by
  rw [DevSD.dmaAddr, command_regs t (by decide), DevSD.dmaAddr]

@[simp] theorem command_cmdAck (t : Slot) : t.command.dev.cmdAck = !t.dev.cmdAck := by
  obtain ⟨regs, st, hd, -⟩ := command_dev t
  rw [hd]

/-- The bits of the two other channels, and their interrupts. -/
theorem command_others (t : Slot) :
    t.command.dev.rxAck = t.dev.rxAck ∧ t.command.dev.txAck = t.dev.txAck ∧
      t.command.dev.irqRxTriggered = t.dev.irqRxTriggered ∧
        t.command.dev.irqTxTriggered = t.dev.irqTxTriggered := by
  obtain ⟨regs, st, hd, -⟩ := command_dev t
  rw [hd]
  exact ⟨rfl, rfl, rfl, rfl⟩

/-! ## Work that goes through -/

/-- A transfer at an address of RAM goes through. -/
theorem atDMA_total (f : Slot → HVA → Slot) (h : B.ramFrom t.dev.dmaAddr ≠ none) :
    ∃ t', (getAddrDMA B.bus >>= fun base => Prog.modify fun t => f t base) t = .ok () t' := by
  rcases getAddrDMA_eq B t with ⟨ha, k, i, -, hget⟩ | ⟨hnone, -⟩
  · exact ⟨_, Prog.bind_of_ok hget⟩
  · exact absurd hnone h

theorem receiveWork_total (h : B.ramFrom t.dev.dmaAddr ≠ none) :
    ∃ t', receiveWork B.bus t = .ok () t' := by
  rw [receiveWork, Prog.gets_bind_apply]
  cases t.dev.rxPending with
  | false => exact ⟨t, rfl⟩
  | true => exact atDMA_total _ h

theorem commandWork_total (h : B.ramFrom t.dev.dmaAddr ≠ none) :
    ∃ t', commandWork B.bus t = .ok () t' := by
  rw [commandWork, Prog.gets_bind_apply]
  cases t.dev.cmdPending with
  | false => exact ⟨t, rfl⟩
  | true =>
    have hram : B.ramFrom t.command.dev.dmaAddr ≠ none := by rwa [command_dmaAddr]
    exact receiveWork_total hram

theorem transmitWork_total (h : B.ramFrom t.dev.dmaAddr ≠ none) :
    ∃ t', transmitWork B.bus t = .ok () t' := by
  rw [transmitWork, Prog.gets_bind_apply]
  cases t.dev.txPending with
  | false => exact ⟨t, rfl⟩
  | true => exact atDMA_total _ h

theorem receive_dmaAddr (t : Slot) (ha : HVA) : (t.receive ha).dev.dmaAddr = t.dev.dmaAddr := by
  unfold receive
  dsimp only
  split <;> rfl

/-- The DMA address is not changed by a command. -/
theorem commandWork_dmaAddr (h : commandWork B.bus t = .ok () t') :
    t'.dev.dmaAddr = t.dev.dmaAddr := by
  rcases commandWork_ok h with ⟨-, rfl⟩ | ⟨-, h⟩
  · rfl
  · rcases receiveWork_ok h with ⟨-, rfl⟩ | ⟨-, ha, k, i, -, rfl⟩
    · exact command_dmaAddr t
    · rw [receive_dmaAddr]
      exact command_dmaAddr t

/-- **Work at an address of RAM goes through.** -/
theorem checkForWork_total (h : B.ramFrom t.dev.dmaAddr ≠ none) :
    ∃ t', checkForWork B.bus t = .ok () t' := by
  obtain ⟨t₁, h₁⟩ := commandWork_total h
  obtain ⟨t₂, h₂⟩ := transmitWork_total (t := t₁) (by rwa [commandWork_dmaAddr h₁])
  refine ⟨t₂.trigger, ?_⟩
  rw [checkForWork, Prog.bind_of_ok h₁, Prog.bind_of_ok h₂]
  rfl

end Slot

end Sd

end MrIss
