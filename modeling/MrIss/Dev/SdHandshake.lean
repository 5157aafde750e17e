import MrIss.Dev.SdCommands
import MrIss.Dev.SdReceive
/-!
# The handshake of the SD host

From the register writes alone one sees what was asked for: a command at
each change of its request bit, and data sent at each change of its own. The
log of the controller's calls has these and no others, in this order, and
replayed it gives what the card and the image are; data is received after a
command or not at all; and the interrupts are those of the transfers that
came to an end.
-/

namespace MrIss

open EarlyReturn ByteFile

namespace Sd

/-! ## What the writes ask for -/

/-- The registers that requests are made with, as they were last written. -/
structure Bank where
  cb0 : BitVec 32
  cb1 : BitVec 32
  ctrl : BitVec 32

/-- What is asked of the card. -/
inductive Request where
  | command (cmd arg : BitVec 32)
  | write
  deriving DecidableEq

namespace Bank

def write (b : Bank) (w : PA × BitVec 32) : Bank :=
  if regOf w.1 = SD_REG_CB0 then { b with cb0 := w.2 }
  else if regOf w.1 = SD_REG_CB1 then { b with cb1 := w.2 }
  else if regOf w.1 = SD_REG_CTRL then { b with ctrl := w.2 }
  else b

/-- A bit of the control register changes. -/
def Changes (b b' : Bank) (m : BitVec 32) : Prop := bit b.ctrl m ≠ bit b'.ctrl m

instance (b b' : Bank) (m : BitVec 32) : Decidable (b.Changes b' m) :=
  inferInstanceAs (Decidable (_ ≠ _))

/-- The requests of one write: one for each bit that it changes. -/
def requests (b b' : Bank) : List Request :=
  (if b.Changes b' SD_CTRL_CMDREQ then [.command (commandOf b'.cb1) (argumentOf b'.cb0 b'.cb1)]
    else []) ++
  if b.Changes b' SD_CTRL_TXREQ then [.write] else []

/-- The requests of a sequence of writes. -/
def asked (b : Bank) : List (PA × BitVec 32) → List Request
  | [] => []
  | w :: ws => b.requests (b.write w) ++ asked (b.write w) ws

end Bank

/-- After `DevSD::init`. -/
def Bank.zero : Bank := ⟨0, 0, 0⟩

/-! ## What the log says -/

namespace Work

/-- The requests that were served. -/
def request : Work → Option Request
  | command cmd arg => some (.command cmd arg)
  | write .. => some .write
  | read _ _ => none
  | irq => none

/-- A read that came to an end: with the data or with an error. -/
def completes : Work → Bool
  | read _ reply => reply != .idle
  | _ => false

def isCommand : Work → Bool
  | command _ _ => true
  | _ => false

def isRead : Work → Bool
  | read _ _ => true
  | _ => false

def isWrite : Work → Bool
  | write .. => true
  | _ => false

/-- The call of the card that an entry is of. -/
def call : Work → Option Call
  | command cmd arg => some (.command cmd arg)
  | read size _ => some (.read size)
  | write data size _ => some (.write data size)
  | irq => none

/-- What a transfer came to. -/
def reply : Work → Option Reply
  | read _ r | write _ _ r => some r
  | _ => none

end Work

def served (log : List Work) : List Request := log.filterMap Work.request

theorem served_append (l l' : List Work) : served (l ++ l') = served l ++ served l' :=
  List.filterMap_append

/-- What the transfers of a session came to. -/
def replies (log : List Event) : List Reply :=
  log.filterMap fun
    | .command _ => none
    | .transfer r => some r

/-- A card that has had the calls of a log, and no others. -/
def replay (card : DevSDCard) (image : Bytes) (log : List Work) : Session :=
  Session.run ⟨card, image, []⟩ (log.filterMap Work.call)

variable (card : DevSDCard) (image : Bytes) {w : Work}

/-- A call at the end of a log is made last. -/
theorem replay_of_call (log : List Work) {call : Call} (h : w.call = some call) :
    replay card image (log ++ [w]) = (replay card image log).step call := by
  rw [replay, replay, List.filterMap_append, Session.run, Session.run, List.foldl_append,
    List.filterMap_cons_some h]
  rfl

/-- An entry that is no call changes nothing. -/
theorem replay_of_none (log : List Work) (h : w.call = none) :
    replay card image (log ++ [w]) = replay card image log := by
  rw [replay, replay, List.filterMap_append, List.filterMap_cons_none h, List.filterMap_nil,
    List.append_nil]

/-- **The log is what the card has had**: replayed on the card of the start it
gives the card, the image, and what the transfers came to. -/
structure Replays (c : DevSDCard) (bs : Bytes) (t : Slot) : Prop where
  card : (replay c bs t.log).card = t.card
  image : (replay c bs t.log).image = t.host.image
  replies : Sd.replies (replay c bs t.log).log = t.log.filterMap Work.reply

/-! ## The handshake -/

/-- The acknowledge bits of commands and of data sent equal the request
bits. -/
structure Settled (d : DevSD) : Prop where
  command : d.cmdAck = d.cmdReq
  transmit : d.txAck = d.txReq

/-- **What one register write does**, with the calls `l` that it makes. -/
structure Handshake (d d' : DevSD) (w : PA × BitVec 32) (l : List Work) : Prop where
  settled : Settled d'
  /-- Of the reads only one after a command may come to an end, and it is
  that which changes the receive bit. -/
  once : l.countP Work.completes ≤ l.countP Work.isCommand
  one : l.countP Work.isCommand ≤ 1
  rxAck : (d'.rxAck ≠ d.rxAck) ↔ 0 < l.countP Work.completes
  /-- A read is made at a command while the request is pending, and only
  then. -/
  pending : 0 < l.countP Work.isRead ↔
    0 < l.countP Work.isCommand ∧ d'.rxReq ≠ d.rxAck
  irqRx : d'.irqRxTriggered = true ↔ 0 < l.countP Work.completes ∨
    (d.irqRxTriggered = true ∧ ¬ (regOf w.1 = SD_REG_IRQ ∧ bit w.2 SD_IRQ_RX_COMPLETE = true))
  irqTx : d'.irqTxTriggered = true ↔ 0 < l.countP Work.isWrite ∨
    (d.irqTxTriggered = true ∧ ¬ (regOf w.1 = SD_REG_IRQ ∧ bit w.2 SD_IRQ_TX_COMPLETE = true))

namespace Slot

variable {B : PagedBus} {t t' : Slot}

/-- The registers of requests. -/
def bank (d : DevSD) : Bank := ⟨d.regs SD_REG_CB0, d.regs SD_REG_CB1, d.regs SD_REG_CTRL⟩

/-- The registers that a guest writes are the same. -/
def SameRegs (d d' : DevSD) : Prop := ∀ j, 4 ≤ j → d'.regs j = d.regs j

theorem SameRegs.trans {d d' d'' : DevSD} (h : SameRegs d d') (h' : SameRegs d' d'') :
    SameRegs d d'' := fun j hj => (h' j hj).trans (h j hj)

theorem SameRegs.bank {d d' : DevSD} (h : SameRegs d d') : bank d' = bank d := by
  rw [Slot.bank, h _ (by decide), h _ (by decide), h _ (by decide), Slot.bank]

theorem SameRegs.reqs {d d' : DevSD} (h : SameRegs d d') :
    d'.cmdReq = d.cmdReq ∧ d'.rxReq = d.rxReq ∧ d'.txReq = d.txReq := by
  have hctrl : d'.regs SD_REG_CTRL = d.regs SD_REG_CTRL := h _ (by decide)
  rw [DevSD.cmdReq, DevSD.rxReq, DevSD.txReq, hctrl]
  exact ⟨rfl, rfl, rfl⟩

theorem SameRegs.dmaAddr {d d' : DevSD} (h : SameRegs d d') : d'.dmaAddr = d.dmaAddr :=
  h _ (by decide)

/-! ## The work -/

/-- **A command's work**: the bit is settled; of the calls the command is
the first, if there is one; a read is made where it is pending. -/
structure Commanded (t t' : Slot) (l : List Work) : Prop where
  log : t'.log = t.log ++ l
  ack : t'.dev.cmdAck = t'.dev.cmdReq
  regs : SameRegs t.dev t'.dev
  others : t'.dev.txAck = t.dev.txAck ∧ t'.dev.irqTxTriggered = t.dev.irqTxTriggered
  served : served l =
    if t.dev.cmdPending then [.command t.dev.cmd t.dev.arg] else []
  once : l.countP Work.completes ≤ l.countP Work.isCommand
  one : l.countP Work.isCommand = if t.dev.cmdPending then 1 else 0
  noWrite : l.countP Work.isWrite = 0
  pending : 0 < l.countP Work.isRead ↔
    0 < l.countP Work.isCommand ∧ t.dev.rxReq ≠ t.dev.rxAck
  rxAck : (t'.dev.rxAck ≠ t.dev.rxAck) ↔ 0 < l.countP Work.completes
  irqRx : t'.dev.irqRxTriggered = true ↔
    0 < l.countP Work.completes ∨ t.dev.irqRxTriggered = true

/-- What a read does to the controller. -/
theorem receive_dev (t : Slot) (ha : HVA) :
    let reply := (t.card.read t.host.image t.dev.rxLen).1
    (t.receive ha).log = t.log ++ [.read t.dev.rxLen reply] ∧
      (t.receive ha).dev.regs = t.dev.regs ∧ (t.receive ha).dev.cmdAck = t.dev.cmdAck ∧
        (t.receive ha).dev.txAck = t.dev.txAck ∧
          (t.receive ha).dev.irqTxTriggered = t.dev.irqTxTriggered ∧
            ((t.receive ha).dev.rxAck ≠ t.dev.rxAck ↔ reply ≠ .idle) ∧
              ((t.receive ha).dev.irqRxTriggered = true ↔
                reply ≠ .idle ∨ t.dev.irqRxTriggered = true) := by
  unfold receive
  dsimp only
  split
  · next h => simp [h]
  · next h => simp [h]

theorem commanded (h : commandWork B.bus t = .ok () t') : ∃ l, Commanded t t' l := by
  rcases commandWork_ok h with ⟨hno, rfl⟩ | ⟨hcmd, h⟩
  · refine ⟨[], by simp, ?_, fun _ _ => rfl, ⟨rfl, rfl⟩, ?_, ?_, ?_, ?_, ?_, ?_, ?_⟩
    · rw [DevSD.cmdPending] at hno
      cases hr : t'.dev.cmdReq <;> cases ha : t'.dev.cmdAck <;> simp [hr, ha] at hno ⊢
    all_goals simp [hno, served]
  obtain ⟨hrx, htx, hirqRx, hirqTx⟩ := command_others t
  have hack : t.command.dev.cmdAck = t.command.dev.cmdReq := by
    rw [command_cmdAck, command_cmdReq]
    rw [DevSD.cmdPending] at hcmd
    cases hr : t.dev.cmdReq <;> cases ha : t.dev.cmdAck <;> simp [hr, ha] at hcmd ⊢
  have hlog : t.command.log = t.log ++ [.command t.dev.cmd t.dev.arg] := rfl
  have hpend : t.command.dev.rxPending = (t.dev.rxReq ^^ t.dev.rxAck) := by
    rw [DevSD.rxPending, command_rxReq, hrx]
  rcases receiveWork_ok h with ⟨hno, rfl⟩ | ⟨hyes, ha, k, i, -, rfl⟩
  · rw [hpend] at hno
    refine ⟨[.command t.dev.cmd t.dev.arg], hlog, hack, fun _ hj => command_regs t hj,
      ⟨htx, hirqTx⟩, ?_, ?_, ?_, ?_, ?_, ?_, ?_⟩
    · simp [hcmd, served, Work.request]
    · simp [Work.completes]
    · simp [hcmd, Work.isCommand]
    · simp [Work.isWrite]
    · cases hr : t.dev.rxReq <;> cases ha : t.dev.rxAck <;>
        simp [hr, ha, Work.isRead, Work.isCommand] at hno ⊢
    · simp [hrx, Work.completes]
    · simp [hirqRx, Work.completes]
  · rw [hpend] at hyes
    obtain ⟨hrlog, hregs, hrcmd, hrtx, hrirqTx, hrrx, hrirqRx⟩ := receive_dev (t.command.found i) ha
    simp only [found_dev, found_card, found_log, found_image] at hrlog hregs hrcmd hrtx
    simp only [found_dev, found_card, found_image] at hrirqTx hrrx hrirqRx
    have hsame : SameRegs t.dev ((t.command.found i).receive ha).dev := fun j hj => by
      rw [hregs, command_regs t hj]
    obtain ⟨reply, hreply⟩ : ∃ reply,
        (t.command.card.read t.command.host.image t.command.dev.rxLen).1 = reply := ⟨_, rfl⟩
    rw [hreply] at hrlog hrrx hrirqRx
    refine ⟨[.command t.dev.cmd t.dev.arg, .read t.command.dev.rxLen reply], ?_, ?_, hsame, ?_, ?_,
      ?_, ?_, ?_, ?_, ?_, ?_⟩
    · rw [hrlog, hlog, List.append_assoc]
      rfl
    · rw [hrcmd, hack, hsame.reqs.1, command_cmdReq]
    · rw [hrtx, hrirqTx]
      exact ⟨htx, hirqTx⟩
    · simp [hcmd, served, Work.request]
    · cases reply <;> simp [Work.completes, Work.isCommand]
    · simp [hcmd, Work.isCommand, List.countP_cons]
    · simp [Work.isWrite]
    · cases hr : t.dev.rxReq <;> cases ha : t.dev.rxAck <;>
        simp [hr, ha, Work.isRead, Work.isCommand] at hyes ⊢
    · rw [← hrx, hrrx]
      cases reply <;> simp [Work.completes]
    · rw [hrirqRx, hirqRx]
      cases reply <;> simp [Work.completes]

/-- **Sending**: the bit is settled, and a write is made where it was
pending. -/
structure Transmitted (t t' : Slot) (l : List Work) : Prop where
  log : t'.log = t.log ++ l
  ack : t'.dev.txAck = t'.dev.txReq
  regs : SameRegs t.dev t'.dev
  others : t'.dev.cmdAck = t.dev.cmdAck ∧ t'.dev.rxAck = t.dev.rxAck ∧
    t'.dev.irqRxTriggered = t.dev.irqRxTriggered
  served : served l = if t.dev.txPending then [.write] else []
  only : l.countP Work.completes = 0 ∧ l.countP Work.isCommand = 0 ∧ l.countP Work.isRead = 0
  irqTx : t'.dev.irqTxTriggered = true ↔
    0 < l.countP Work.isWrite ∨ t.dev.irqTxTriggered = true

theorem transmitted (h : transmitWork B.bus t = .ok () t') : ∃ l, Transmitted t t' l := by
  rcases transmitWork_ok h with ⟨hno, rfl⟩ | ⟨hyes, ha, k, i, -, rfl⟩
  · refine ⟨[], by simp, ?_, fun _ _ => rfl, ⟨rfl, rfl, rfl⟩, ?_, ⟨rfl, rfl, rfl⟩, by simp⟩
    · rw [DevSD.txPending] at hno
      cases hr : t'.dev.txReq <;> cases ha : t'.dev.txAck <;> simp [hr, ha] at hno ⊢
    · simp [hno, Sd.served]
  · refine ⟨[.write _ t.dev.txLen _], rfl, ?_, fun _ _ => rfl, ⟨rfl, rfl, rfl⟩, ?_,
      ⟨rfl, rfl, rfl⟩, ?_⟩
    · have hack : ((t.found i).transmit ha).dev.txAck = !t.dev.txAck := rfl
      have hreq : ((t.found i).transmit ha).dev.txReq = t.dev.txReq := rfl
      rw [hack, hreq]
      rw [DevSD.txPending] at hyes
      cases hr : t.dev.txReq <;> cases ha : t.dev.txAck <;> simp [hr, ha] at hyes ⊢
    · simp [hyes, Sd.served, Work.request]
    · have htrig : ((t.found i).transmit ha).dev.irqTxTriggered = true := rfl
      simp [htrig, Work.isWrite]

/-- The interrupt is no call of the card. -/
theorem trigger_log (t : Slot) : ∃ l, t.trigger.log = t.log ++ l ∧ t.trigger.dev = t.dev ∧
    (l = [] ∨ l = [.irq]) := by
  unfold trigger
  split
  · exact ⟨[.irq], rfl, rfl, .inr rfl⟩
  · exact ⟨[], (List.append_nil _).symm, rfl, .inl rfl⟩

/-! ## One write -/

/-- **What a write puts in the registers**, before the work. -/
structure Registered (d d₀ : DevSD) (w : PA × BitVec 32) : Prop where
  bank : bank d₀ = (bank d).write w
  acks : d₀.cmdAck = d.cmdAck ∧ d₀.txAck = d.txAck ∧ d₀.rxAck = d.rxAck
  irqRx : d₀.irqRxTriggered = true ↔ d.irqRxTriggered = true ∧
    ¬ (regOf w.1 = SD_REG_IRQ ∧ bit w.2 SD_IRQ_RX_COMPLETE = true)
  irqTx : d₀.irqTxTriggered = true ↔ d.irqTxTriggered = true ∧
    ¬ (regOf w.1 = SD_REG_IRQ ∧ bit w.2 SD_IRQ_TX_COMPLETE = true)
  dma : d₀.dmaAddr = if regOf w.1 = SD_REG_DMA_ADDR then w.2 else d.dmaAddr

theorem registered_setReg (d : DevSD) {w : PA × BitVec 32} (h : regOf w.1 ∈ kept) :
    Registered d (d.setReg (regOf w.1) w.2) w := by
  have hirq : regOf w.1 ≠ SD_REG_IRQ := by
    intro heq
    rw [heq] at h
    exact absurd h (by decide)
  refine ⟨?_, ⟨rfl, rfl, rfl⟩, by simp [hirq, DevSD.setReg], by simp [hirq, DevSD.setReg], ?_⟩
  · simp only [kept, List.mem_cons, List.not_mem_nil, or_false] at h
    rcases h with h | h | h | h | h <;> rw [h] <;> simp only [bank, Bank.write, h, DevSD.setReg] <;>
      rfl
  · by_cases hdma : regOf w.1 = SD_REG_DMA_ADDR
    · rw [if_pos hdma, hdma]
      exact Function.update_self SD_REG_DMA_ADDR w.2 d.regs
    · rw [if_neg hdma]
      exact Function.update_of_ne (Ne.symm hdma) w.2 d.regs

theorem registered_setIrq (d : DevSD) {w : PA × BitVec 32} (h : regOf w.1 = SD_REG_IRQ) :
    Registered d (d.setIrq w.2) w := by
  refine ⟨?_, ⟨rfl, rfl, rfl⟩, ?_, ?_, ?_⟩
  · simp only [Bank.write, h]
    rfl
  · cases hb : bit w.2 SD_IRQ_RX_COMPLETE <;> simp [DevSD.setIrq, h, hb]
  · cases hb : bit w.2 SD_IRQ_TX_COMPLETE <;> simp [DevSD.setIrq, h, hb]
  · rw [if_neg (by rw [h]; decide)]
    rfl

/-- A write that goes through is of a register that can be written. -/
theorem setRegs_ok {addr : PA} {data : BitVec 32} (h : setRegs addr data t = .ok () t') :
    ∃ d₀, t' = { t with dev := d₀ } ∧ Registered t.dev d₀ (addr, data) := by
  unfold setRegs at h
  by_cases hkept : regOf addr ∈ kept
  · rw [if_pos hkept] at h
    cases h
    exact ⟨t.dev.setReg (regOf addr) data, rfl, registered_setReg t.dev (w := (addr, data)) hkept⟩
  · rw [if_neg hkept] at h
    by_cases hirq : regOf addr = SD_REG_IRQ
    · rw [if_pos hirq] at h
      cases h
      exact ⟨t.dev.setIrq data, rfl, registered_setIrq t.dev (w := (addr, data)) hirq⟩
    · rw [if_neg hirq] at h
      cases h

/-- A channel that was settled is pending exactly if its bit changes. -/
theorem pending_iff {req ack : Bool} {c c' m : BitVec 32} (hack : ack = bit c m)
    (hreq : req = bit c' m) : (req ^^ ack) = decide (bit c m ≠ bit c' m) := by
  subst hack hreq
  cases bit c m <;> cases bit c' m <;> rfl

/-- **One register write**: its calls are the requests it makes, and they
keep the handshake. -/
theorem write32_handshake {w : PA × BitVec 32} (hs : Settled t.dev)
    (h : write32 B.bus w.1 w.2 t = .ok () t') :
    ∃ l, t'.log = t.log ++ l ∧ Handshake t.dev t'.dev w l ∧
      served l = (bank t.dev).requests ((bank t.dev).write w) ∧
        bank t'.dev = (bank t.dev).write w := by
  obtain ⟨⟨⟩, t₀, h₀, h⟩ := Prog.bind_eq_ok h
  obtain ⟨d₀, rfl, hreg⟩ := setRegs_ok h₀
  obtain ⟨t₁, t₂, h₁, h₂, rfl⟩ := checkForWork_ok h
  obtain ⟨l₁, hc⟩ := commanded h₁
  obtain ⟨l₂, ht⟩ := transmitted h₂
  obtain ⟨l₃, hlog, hdev, hl₃⟩ := trigger_log t₂
  obtain ⟨hack, hackTx, hackRx⟩ := hreg.acks
  have hcmd : d₀.cmdPending = decide (Bank.Changes (bank t.dev) ((bank t.dev).write w)
      SD_CTRL_CMDREQ) := by
    rw [← hreg.bank, DevSD.cmdPending, hack]
    exact pending_iff hs.command rfl
  have htx : d₀.txPending = decide (Bank.Changes (bank t.dev) ((bank t.dev).write w)
      SD_CTRL_TXREQ) := by
    rw [← hreg.bank, DevSD.txPending, hackTx]
    exact pending_iff hs.transmit rfl
  have hpending : t₁.dev.txPending = d₀.txPending := by
    rw [DevSD.txPending, hc.regs.reqs.2.2, hc.others.1, DevSD.txPending]
  have hregs := hc.regs.trans ht.regs
  obtain ⟨hcompl, hcomm, hread⟩ := ht.only
  -- the interrupt's part of the log counts for nothing
  have hirq : served l₃ = [] ∧ l₃.countP Work.completes = 0 ∧ l₃.countP Work.isCommand = 0 ∧
      l₃.countP Work.isRead = 0 ∧ l₃.countP Work.isWrite = 0 := by
    rcases hl₃ with rfl | rfl <;> exact ⟨rfl, rfl, rfl, rfl, rfl⟩
  obtain ⟨hi₁, hi₂, hi₃, hi₄, hi₅⟩ := hirq
  refine ⟨l₁ ++ l₂ ++ l₃, ?_, ?_, ?_, ?_⟩
  · rw [hlog, ht.log, hc.log]
    simp only [List.append_assoc]
  · rw [hdev]
    constructor
    · refine ⟨?_, ht.ack⟩
      rw [ht.others.1, hc.ack, ht.regs.reqs.1]
    all_goals simp only [List.countP_append, hcompl, hcomm, hread, hi₂, hi₃, hi₄, hi₅, Nat.add_zero]
    · exact hc.once
    · rw [hc.one]
      split <;> omega
    · rw [ht.others.2.1, ← hackRx]
      exact hc.rxAck
    · rw [ht.regs.reqs.2.1, hc.regs.reqs.2.1, ← hackRx]
      exact hc.pending
    · rw [ht.others.2.2, hc.irqRx, hreg.irqRx]
    · rw [ht.irqTx, hc.noWrite, Nat.zero_add, hc.others.2, hreg.irqTx]
  · rw [served_append, served_append, hi₁, List.append_nil, hc.served, ht.served, hpending,
      Bank.requests]
    simp only [hcmd, htx, decide_eq_true_eq, ← hreg.bank]
    rfl
  · rw [hdev, hregs.bank]
    exact hreg.bank

/-- The DMA address after a write is the one that was written last. -/
theorem write32_dmaAddr {w : PA × BitVec 32} (h : write32 B.bus w.1 w.2 t = .ok () t') :
    t'.dev.dmaAddr = if regOf w.1 = SD_REG_DMA_ADDR then w.2 else t.dev.dmaAddr := by
  obtain ⟨⟨⟩, t₀, h₀, h⟩ := Prog.bind_eq_ok h
  obtain ⟨d₀, rfl, hreg⟩ := setRegs_ok h₀
  obtain ⟨t₁, t₂, h₁, h₂, rfl⟩ := checkForWork_ok h
  obtain ⟨l₁, hc⟩ := commanded h₁
  obtain ⟨l₂, ht⟩ := transmitted h₂
  obtain ⟨l₃, -, hdev, -⟩ := trigger_log t₂
  rw [hdev, (hc.regs.trans ht.regs).dmaAddr]
  exact hreg.dma

/-- A write of a register that can be written goes through, with the DMA
address in RAM. -/
theorem write32_total {w : PA × BitVec 32} (hw : regOf w.1 ∈ kept ∨ regOf w.1 = SD_REG_IRQ)
    (hram : B.ramFrom (if regOf w.1 = SD_REG_DMA_ADDR then w.2 else t.dev.dmaAddr) ≠ none) :
    ∃ t', write32 B.bus w.1 w.2 t = .ok () t' := by
  have hset : ∃ t₀, setRegs w.1 w.2 t = .ok () t₀ := by
    unfold setRegs
    by_cases hkept : regOf w.1 ∈ kept
    · rw [if_pos hkept]
      exact ⟨_, rfl⟩
    · rw [if_neg hkept, if_pos (hw.resolve_left hkept)]
      exact ⟨_, rfl⟩
  obtain ⟨t₀, h₀⟩ := hset
  obtain ⟨d₀, rfl, hreg⟩ := setRegs_ok h₀
  rw [← hreg.dma] at hram
  obtain ⟨t', h⟩ := checkForWork_total (t := { t with dev := d₀ }) hram
  exact ⟨t', (Prog.bind_of_ok h₀).trans h⟩

/-! ## What the card has had -/

section

variable {card : DevSDCard} {image : Bytes}

/-- The start, with an empty log. -/
theorem replays_init (intc : Bool) (card : DevSDCard) (host : Host) :
    Replays card host.image (init intc card host) := ⟨rfl, rfl, rfl⟩

/-- The search for a device is no call. -/
theorem replays_found (h : Replays card image t) (i : ℕ) : Replays card image (t.found i) :=
  ⟨h.card, h.image, h.replies⟩

/-- **A call that is made is logged:** the replay goes on as the card has. -/
theorem replays_call (h : Replays card image t) {w : Work} {call : Call} (hw : w.call = some call)
    (hlog : t'.log = t.log ++ [w])
    (hstep : ∀ log, ∃ evs, Session.step ⟨t.card, t.host.image, log⟩ call =
      ⟨t'.card, t'.host.image, log ++ evs⟩ ∧ Sd.replies evs = [w].filterMap Work.reply) :
    Replays card image t' := by
  have hbefore : replay card image t.log =
      ⟨t.card, t.host.image, (replay card image t.log).log⟩ := by
    rw [← h.card, ← h.image]
  obtain ⟨evs, hnext, hevs⟩ := hstep (replay card image t.log).log
  have hafter : replay card image t'.log =
      ⟨t'.card, t'.host.image, (replay card image t.log).log ++ evs⟩ := by
    rw [hlog, replay_of_call card image t.log hw, hbefore, hnext]
  refine ⟨by rw [hafter], by rw [hafter], ?_⟩
  have hreplies : Sd.replies ((replay card image t.log).log ++ evs) =
      Sd.replies (replay card image t.log).log ++ Sd.replies evs := List.filterMap_append
  rw [hafter, hreplies, h.replies, hevs, hlog, List.filterMap_append]

/-- A command goes to the card and to the log. -/
theorem replays_command (h : Replays card image t) : Replays card image t.command :=
  replays_call h (w := .command t.dev.cmd t.dev.arg) rfl rfl fun _ => ⟨_, rfl, rfl⟩

/-- A read goes to the card and to the log, with what it came to. -/
theorem replays_receive (h : Replays card image t) (ha : HVA) :
    Replays card image (t.receive ha) :=
  replays_call h (w := .read t.dev.rxLen (t.card.read t.host.image t.dev.rxLen).1) rfl rfl
    fun _ => ⟨_, rfl, rfl⟩

/-- A write goes to the card and to the log, with its data. -/
theorem replays_transmit (h : Replays card image t) (ha : HVA) :
    Replays card image (t.transmit ha) := by
  let data := fun j => t.host.sys.mem (ha + BitVec.ofNat 64 j)
  exact replays_call h
    (w := .write data t.dev.txLen (t.card.write t.host.image data t.dev.txLen).1) rfl rfl
    fun _ => ⟨_, rfl, rfl⟩

/-- The interrupt is no call. -/
theorem replays_trigger (h : Replays card image t) : Replays card image t.trigger := by
  unfold Slot.trigger
  split
  · obtain ⟨hcard, himage, hreplies⟩ := h
    have hstep := replay_of_none card image t.log (w := .irq) rfl
    constructor
    all_goals
      simp only [hstep]
    · exact hcard
    · exact himage
    · simpa [Work.reply, List.filterMap_cons] using hreplies
  · exact h

/-- **A register write keeps the replay.** -/
theorem write32_replays {w : PA × BitVec 32} (hr : Replays card image t)
    (h : write32 B.bus w.1 w.2 t = .ok () t') : Replays card image t' := by
  obtain ⟨⟨⟩, t₀, h₀, h⟩ := Prog.bind_eq_ok h
  obtain ⟨d₀, rfl, -⟩ := setRegs_ok h₀
  obtain ⟨t₁, t₂, h₁, h₂, rfl⟩ := checkForWork_ok h
  -- the registers of the controller are not the card's
  have hr₀ : Replays card image { t with dev := d₀ } := ⟨hr.card, hr.image, hr.replies⟩
  have hr₁ : Replays card image t₁ := by
    rcases commandWork_ok h₁ with ⟨-, rfl⟩ | ⟨-, h₁⟩
    · exact hr₀
    · rcases receiveWork_ok h₁ with ⟨-, rfl⟩ | ⟨-, ha, k, i, -, rfl⟩
      · exact replays_command hr₀
      · exact replays_receive (replays_found (replays_command hr₀) i) ha
  have hr₂ : Replays card image t₂ := by
    rcases transmitWork_ok h₂ with ⟨-, rfl⟩ | ⟨-, ha, k, i, -, rfl⟩
    · exact hr₁
    · exact replays_transmit (replays_found hr₁ i) ha
  exact replays_trigger hr₂

end

/-! ## Sequences of writes -/

theorem run_cons (w : PA × BitVec 32) (ws : List (PA × BitVec 32)) :
    run B.bus (w :: ws) = write32 B.bus w.1 w.2 >>= fun _ => run B.bus ws :=
  List.forM_cons

/-- A sequence of writes keeps the handshake, and its calls are its
requests; the card has had them. -/
theorem run_handshake {card : DevSDCard} {image : Bytes} (ws : List (PA × BitVec 32))
    (hs : Settled t.dev) (hr : Replays card image t) (h : run B.bus ws t = .ok () t') :
    Settled t'.dev ∧ served t'.log = served t.log ++ (bank t.dev).asked ws ∧
      Replays card image t' := by
  induction ws generalizing t with
  | nil =>
    cases h
    exact ⟨hs, (List.append_nil _).symm, hr⟩
  | cons w ws ih =>
    rw [run_cons] at h
    obtain ⟨⟨⟩, t₁, h₁, h⟩ := Prog.bind_eq_ok h
    obtain ⟨l, hlog, hstep, hserved, hbank⟩ := write32_handshake hs h₁
    obtain ⟨hs', hrest, hr'⟩ := ih hstep.settled (write32_replays hr h₁) h
    refine ⟨hs', ?_, hr'⟩
    rw [hrest, hlog, served_append, hserved, hbank, Bank.asked, List.append_assoc]

theorem run_total (ws : List (PA × BitVec 32)) (hram : B.ramFrom t.dev.dmaAddr ≠ none)
    (hws : ∀ w ∈ ws, (regOf w.1 ∈ kept ∨ regOf w.1 = SD_REG_IRQ) ∧
      (regOf w.1 = SD_REG_DMA_ADDR → B.ramFrom w.2 ≠ none)) :
    ∃ t', run B.bus ws t = .ok () t' := by
  induction ws generalizing t with
  | nil => exact ⟨t, rfl⟩
  | cons w ws ih =>
    obtain ⟨hw, hdma⟩ := hws w List.mem_cons_self
    have hram' : B.ramFrom (if regOf w.1 = SD_REG_DMA_ADDR then w.2 else t.dev.dmaAddr) ≠ none := by
      split
      · next h => exact hdma h
      · exact hram
    obtain ⟨t₁, h₁⟩ := write32_total hw hram'
    obtain ⟨t', h⟩ := ih (t := t₁) (by rwa [write32_dmaAddr h₁]) fun w' hw' =>
      hws w' (List.mem_cons_of_mem _ hw')
    exact ⟨t', by rw [run_cons, Prog.bind_of_ok h₁]; exact h⟩

/-- **Nothing is lost and nothing repeated.** After every sequence of register
writes that goes through, the command and transmit bits are settled, and the
card has had a command for each change of the one request bit and a write
for each change of the other, in the order of the register writes: the card
and the image are what the calls of the log, replayed from the start, leave.
Of data received: the bit changes with a read that comes to an end, of which there
is at most one at a command; a read is made at a command while the request
is pending, and at no other time. The interrupts are those of the transfers,
until they are cleared. Every sequence goes through that writes the
registers that can be written, with the DMA addresses in RAM. -/
theorem handshake (B : PagedBus) (intc : Bool) (card : DevSDCard) (host : Host) :
    (∀ ws t, run B.bus ws (init intc card host) = .ok () t →
      Settled t.dev ∧ served t.log = Bank.zero.asked ws ∧ Replays card host.image t ∧
        ∀ w t', write32 B.bus w.1 w.2 t = .ok () t' →
          ∃ l, t'.log = t.log ++ l ∧ Handshake t.dev t'.dev w l) ∧
    (∀ ws : List (PA × BitVec 32), B.ramFrom 0 ≠ none →
      (∀ w ∈ ws, (regOf w.1 ∈ kept ∨ regOf w.1 = SD_REG_IRQ) ∧
        (regOf w.1 = SD_REG_DMA_ADDR → B.ramFrom w.2 ≠ none)) →
          ∃ t, run B.bus ws (init intc card host) = .ok () t) := by
  refine ⟨fun ws t h => ?_, fun ws hram hws => run_total ws hram hws⟩
  have hinit : Settled (init intc card host).dev :=
    ⟨(by decide : bit 0 SD_CTRL_CMDREQ = false).symm, (by decide : bit 0 SD_CTRL_TXREQ = false).symm⟩
  obtain ⟨hs, hserved, hreplays⟩ := run_handshake ws hinit (replays_init intc card host) h
  refine ⟨hs, hserved, hreplays, fun w t' hw => ?_⟩
  obtain ⟨l, hlog, hstep, -, -⟩ := write32_handshake hs hw
  exact ⟨l, hlog, hstep⟩

/-- CMD24 to block 1 and its data, and CMD17 of the same block with a request
of data. -/
def blockWrites : List (PA × BitVec 32) :=
  [(0x10, 0x100), (0x14, 0x1800), (0x18, 0x1), (0x18, 0x101), (0x14, 0x1100), (0x18, 0x110)]

/-- A block is written and read back. -/
theorem handshake_block : ∃ t, run mr3.bus blockWrites
      (init false (DevSDCard.blank.init 1024) ⟨List.replicate 1024 0, ⟨fun _ => 0xab, [], 0⟩⟩) =
        .ok () t ∧
    Settled t.dev ∧ served t.log = [.command 24 1, .write, .command 17 1] ∧
      Replays (DevSDCard.blank.init 1024) (List.replicate 1024 0) t := by
  obtain ⟨hkeeps, htotal⟩ := handshake mr3 false (DevSDCard.blank.init 1024)
    ⟨List.replicate 1024 0, ⟨fun _ => 0xab, [], 0⟩⟩
  have hws : ∀ w ∈ blockWrites, (regOf w.1 ∈ kept ∨ regOf w.1 = SD_REG_IRQ) ∧
      (regOf w.1 = SD_REG_DMA_ADDR → mr3.ramFrom w.2 ≠ none) := by
    simp only [blockWrites, List.forall_mem_cons, List.not_mem_nil, false_imp_iff, implies_true,
      and_true]
    decide +kernel
  obtain ⟨t, hrun⟩ := htotal blockWrites (by decide +kernel) hws
  obtain ⟨hs, hserved, hreplays, -⟩ := hkeeps blockWrites t hrun
  exact ⟨t, hrun, hs, hserved.trans (by decide), hreplays⟩

end Slot

end Sd

end MrIss
