import MrIss.Dev.Uart
/-!
# What RXNE promises

A guest that has seen RXNE reads RX. The byte is there if the listener's
test of `reportRX` never comes after the byte that its `poll` saw is gone:
between the two the guest may have read it, and the flag is set again.
-/

namespace MrIss

open Run

namespace Console

variable {s t : State} {e : Event} {es : List Event}

/-- The guest begins a read of RX only where it has seen RXNE since the
last one. -/
def Polite (s : State) (e : Event) : Prop := ∀ op, e = .begin op → op.isRX = true → s.seen = true

/-- The listener's test does not find `reportRX` set while the host holds
nothing. -/
def Timely (s : State) (e : Event) : Prop :=
  e = .listener → s.listener = .test → s.reportRX = true → s.unread ≠ []

/-- A step of the threads with a guest that looks at RXNE first. -/
def PoliteStep (s : State) (e : Event) (t : State) : Prop := Step s e t ∧ Polite s e

/-- The same, with a timely listener. -/
def TimelyStep (s : State) (e : Event) (t : State) : Prop := PoliteStep s e t ∧ Timely s e

/-- The byte that the CPU's thread has taken and not returned. -/
def CpuPc.held : CpuPc → List Byte
  | .report _ b | .clear _ b => [b]
  | .unlock op b => if op.isRX then [b] else []
  | .registerCb | .registerArg | .idle | .lock _ | .body _ => []

/-- The CPU's thread is past `getByte`'s read and has not yet cleared RXNE. -/
def CpuPc.taken : CpuPc → Bool
  | .report _ _ | .clear _ _ => true
  | .registerCb | .registerArg | .idle | .lock _ | .body _ | .unlock _ _ => false

/-- The CPU's thread goes by an RXNE that the guest has seen. -/
def CpuPc.relies : CpuPc → Bool
  | .lock op | .body op => op.isRX
  | .report _ _ | .clear _ _ => true
  | .unlock op data => op.isStatus && data &&& statusRXNE != 0
  | .registerCb | .registerArg | .idle => false

/-- The CPU's thread is in a read of RX. -/
def CpuPc.reads : CpuPc → Bool
  | .lock op | .body op | .report op _ | .clear op _ | .unlock op _ => op.isRX
  | .registerCb | .registerArg | .idle => false

/-- Past its test, the listener has not yet set RXNE. -/
def ListenPc.announcing : ListenPc → Bool
  | .clear | .call | .callback => true
  | .start | .poll | .test => false

theorem ListenPc.announcing_of_owes {l : ListenPc} (h : l.owes = true) : l.announcing = true := by
  cases l <;> first | rfl | cases h

theorem Op.not_isStatus {op : Op} (h : op.isRX = true) : op.isStatus = false := by
  cases op with
  | read8 addr =>
    rw [isRX, beq_iff_eq] at h
    rw [isStatus, h]
    rfl
  | write8 => rfl

/-- What holds of a polite guest and a timely listener. -/
structure Honest (s : State) : Prop where
  excl : Mutual s
  byte : s.uart.rxne = true → s.cpu.taken = false → s.unread ≠ []
  sees : s.seen = true ∨ s.cpu.relies = true → s.uart.rxne = true
  /-- What the listener is about to announce is there, and RXNE is not set
  but to be cleared. -/
  ahead : s.listener.announcing = true →
    s.unread ≠ [] ∧ (s.uart.rxne = true → ∃ op b, s.cpu = .clear op b)
  flag : s.reportRX = true → s.uart.rxne = true → ∃ op b, s.cpu = .clear op b
  owes : s.listener.owes = true → s.reportRX = false
  start : s.listener = .start → s.uart.rxne = false
  reading : s.cpu.taken = true → s.cpu.reads = true
  unseen : s.cpu.reads = true → s.seen = false
  bytes : s.received ++ s.cpu.held ++ s.unread = s.arrived

/-- The CPU's thread goes on without touching what the threads share. -/
theorem Honest.move (h : Honest s) (hx : Mutual t) (hrxne : t.uart.rxne = s.uart.rxne)
    (hunread : t.unread = s.unread) (hreport : t.reportRX = s.reportRX)
    (hlistener : t.listener = s.listener) (hclear : ∀ op b, s.cpu ≠ .clear op b)
    (htaken : s.cpu.taken = false) (htaken' : t.cpu.taken = false)
    (hsees : t.seen = true ∨ t.cpu.relies = true → s.uart.rxne = true)
    (hunseen : t.cpu.reads = true → t.seen = false)
    (hbytes : t.received ++ t.cpu.held ++ t.unread = t.arrived) : Honest t := by
  have hno : ¬ ∃ op b, s.cpu = .clear op b := fun ⟨op, b, heq⟩ => hclear op b heq
  refine ⟨hx, fun hr _ => ?_, fun hs => ?_, fun ha => ?_, fun hr hx' => ?_, fun ho => ?_,
    fun hst => ?_, fun ht => ?_, hunseen, hbytes⟩
  · rw [hunread]
    exact h.byte (hrxne.symm.trans hr) htaken
  · rw [hrxne]
    exact hsees hs
  · rw [hunread, hrxne]
    rw [hlistener] at ha
    exact (h.ahead ha).imp_right fun himp hr => absurd (himp hr) hno
  · exact absurd (h.flag (hreport.symm.trans hr) (hrxne.symm.trans hx')) hno
  · rw [hreport]
    exact h.owes ((congrArg ListenPc.owes hlistener).symm.trans ho)
  · rw [hrxne]
    exact h.start (hlistener.symm.trans hst)
  · rw [htaken'] at ht
    cases ht

/-- The CPU's thread reads on: RXNE is still set, and the listener is not
about to set it. -/
theorem Honest.readOn (h : Honest s) (hx : Mutual t) (hr : s.uart.rxne = true)
    (hclear : ∀ op b, s.cpu ≠ .clear op b) (huart : t.uart = s.uart)
    (hlistener : t.listener = s.listener) (htaken : t.cpu.taken = true)
    (hflag : t.reportRX = true → ∃ op b, t.cpu = .clear op b)
    (hreading : t.cpu.reads = true) (hunseen : t.seen = false)
    (hbytes : t.received ++ t.cpu.held ++ t.unread = t.arrived) : Honest t := by
  have hann : t.listener.announcing = false := by
    rw [hlistener]
    by_contra ha
    obtain ⟨op, b, heq⟩ := (h.ahead (by simpa using ha)).2 hr
    exact hclear op b heq
  refine ⟨hx, fun _ ht => ?_, fun _ => huart ▸ hr, fun ha => ?_, fun hrep _ => hflag hrep,
    fun ho => ?_, fun hst => ?_, fun _ => hreading, fun _ => hunseen, hbytes⟩
  · rw [htaken] at ht
    cases ht
  · rw [hann] at ha
    cases ha
  · rw [ListenPc.announcing_of_owes ho] at hann
    cases hann
  · rw [huart]
    exact h.start (hlistener.symm.trans hst)

/-- A register other than RX is read: what the guest is about to see is what
the register holds. -/
theorem Honest.peek {addr : PA} {r : UartReg} {data : Byte} (h : Honest s)
    (hpc : s.cpu = .body (.read8 addr)) (hr : UartReg.ofAddr addr = some r)
    (hdata : s.uart.readReg r = some data) :
    Honest { s with cpu := .unlock (.read8 addr) data } := by
  have hx := mutual_step h.excl (.read hpc hr hdata)
  have hrx : (Op.read8 addr).isRX = false := by
    cases r with
    | RX => cases hdata
    | STATUS | IRQ_STATUS | IRQ_ENABLE => rw [Op.isRX, hr]; rfl
  refine h.move hx rfl rfl rfl rfl (by simp [hpc]) (by rw [hpc]; rfl) rfl (fun hs => ?_)
    (fun hreads => ?_) (by rw [← h.bytes, hpc]; simp [CpuPc.held, hrx])
  · rcases hs with hs | hs
    · exact h.sees (.inl hs)
    · obtain ⟨hst, hbit⟩ := Bool.and_eq_true_iff.mp hs
      rw [Op.isStatus, hr, beq_iff_eq] at hst
      cases hst
      cases hdata
      exact hbit
  · rw [CpuPc.reads, hrx] at hreads
    cases hreads

/-- A call ends: what it has read of the status register is seen, and what it
has read of RX received. -/
theorem Honest.unlock {op : Op} {data : Byte} (h : Honest s) (hpc : s.cpu = .unlock op data) :
    Honest
      { s with
        uart := s.uart.assessIRQstatus
        mutex := none
        cpu := .idle
        received := if op.isRX then s.received ++ [data] else s.received
        seen := if op.isStatus then data &&& statusRXNE != 0 else s.seen } := by
  have hx := mutual_step h.excl (.unlock hpc)
  refine h.move hx (DevSimpleUart.rxne_assessIRQstatus _) rfl rfl rfl (by simp [hpc])
    (by rw [hpc]; rfl) rfl (fun hs => h.sees ?_) nofun ?_
  · rcases hs with hs | hs
    · rw [hpc]
      dsimp only at hs
      split at hs
      case isTrue hst => exact .inr (Bool.and_eq_true_iff.mpr ⟨hst, hs⟩)
      case isFalse => exact .inl hs
    · cases hs
  · rw [← h.bytes, hpc]
    cases hrx : op.isRX <;> simp [CpuPc.held, hrx]

/-- The byte is taken from the host. -/
theorem Honest.getByte {op : Op} {b : Byte} {bs : List Byte} (h : Honest s)
    (hpc : s.cpu = .body op) (hrx : op.isRX = true) (hb : s.unread = b :: bs) :
    Honest { s with unread := bs, cpu := .report op b } := by
  have hx := mutual_step h.excl (.getByte hpc hrx hb)
  have hr : s.uart.rxne = true := h.sees (.inr (by rw [hpc]; exact hrx))
  refine h.readOn hx hr (by simp [hpc]) rfl rfl rfl (fun hrep => ?_) hrx
    (h.unseen (by rw [hpc]; exact hrx)) (by rw [← h.bytes, hpc, hb]; simp [CpuPc.held])
  obtain ⟨_, _, heq⟩ := h.flag hrep hr
  rw [hpc] at heq
  cases heq

/-- RXNE is cleared. -/
theorem Honest.clear {op : Op} {b : Byte} (h : Honest s) (hpc : s.cpu = .clear op b) :
    Honest { s with uart := s.uart.clearRXNE, cpu := .unlock op b } := by
  have hclear := DevSimpleUart.rxne_clearRXNE s.uart
  have hreads := h.reading (by rw [hpc]; rfl)
  have hunseen := h.unseen hreads
  rw [hpc] at hreads
  have hrx : op.isRX = true := hreads
  exact
    { excl := mutual_step h.excl (.clear hpc)
      byte := fun hr => absurd hr (by simp)
      sees := fun hs => by
        rw [CpuPc.relies, Op.not_isStatus hrx, hunseen] at hs
        simp at hs
      ahead := fun ha => ⟨(h.ahead ha).1, fun hr => absurd hr (by simp)⟩
      flag := fun _ hr => absurd hr (by simp)
      owes := h.owes
      start := fun _ => hclear
      reading := nofun
      unseen := fun _ => hunseen
      bytes := by rw [← h.bytes, hpc]; simp [CpuPc.held, hrx] }

/-- The guest's next access begins: a read of RX where it has seen RXNE. -/
theorem Honest.begin {op : Op} (h : Honest s) (hpc : s.cpu = .idle) (hp : Polite s (.begin op)) :
    Honest { s with cpu := .lock op, seen := s.seen && !op.isRX } := by
  refine h.move (mutual_step h.excl (.begin op hpc)) rfl rfl rfl rfl (by simp [hpc])
    (by rw [hpc]; rfl) rfl (fun hs => h.sees ?_) (fun hrx => ?_) (by rw [← h.bytes, hpc]; rfl)
  · rcases hs with hs | hr
    · exact .inl (Bool.and_eq_true_iff.mp hs).1
    · exact .inl (hp op rfl hr)
  · have hrx : op.isRX = true := hrx
    simp [hrx]

/-- The CPU's thread. -/
theorem honest_cpu (h : Honest s) (hstep : Step s .cpu t) : Honest t := by
  have hx := mutual_step h.excl hstep
  cases hstep with
  | again => exact h
  | registerCb hpc | registerArg hpc =>
    refine h.move hx rfl rfl rfl rfl (by simp [hpc]) (by rw [hpc]; rfl) rfl
      (fun hs => h.sees ?_) nofun (by rw [← h.bytes, hpc]; rfl)
    exact hs.imp_right fun hr => by cases hr
  | lock hpc hm =>
    refine h.move hx rfl rfl rfl rfl (by simp [hpc]) (by rw [hpc]; rfl) rfl
      (fun hs => h.sees ?_) (fun hrx => h.unseen ?_) (by rw [← h.bytes, hpc]; rfl)
    · rwa [hpc]
    · rwa [hpc]
  | read hpc hr hdata => exact h.peek hpc hr hdata
  | write hpc hr hu =>
    refine h.move hx (DevSimpleUart.rxne_writeReg hu) rfl rfl rfl (by simp [hpc])
      (by rw [hpc]; rfl) rfl (fun hs => h.sees ?_) nofun (by rw [← h.bytes, hpc]; rfl)
    exact hs.imp_right fun hr => by cases hr
  | unlock hpc => exact h.unlock hpc
  | getByte hpc hrx hb => exact h.getByte hpc hrx hb
  | error hpc hrx hb =>
    -- RXNE has been seen, so that there is a byte
    have hr : s.uart.rxne = true := h.sees (.inr (by rw [hpc]; exact hrx))
    exact absurd hb (h.byte hr (by rw [hpc]; rfl))
  | report hpc =>
    have hr : s.uart.rxne = true := h.sees (.inr (by rw [hpc]; rfl))
    have hrx := h.reading (by rw [hpc]; rfl)
    have hunseen := h.unseen hrx
    rw [hpc] at hrx
    exact h.readOn hx hr (by simp [hpc]) rfl rfl rfl (fun _ => ⟨_, _, rfl⟩) hrx hunseen
      (by rw [← h.bytes, hpc]; rfl)
  | clear hpc => exact h.clear hpc

/-- The listener, which tests the flag while there is a byte. -/
theorem honest_listener (h : Honest s) (hstep : Step s .listener t) (ht : Timely s .listener) :
    Honest t := by
  have hx := mutual_step h.excl hstep
  cases hstep with
  | sleep => exact h
  | start hpc =>
    have hr := h.start hpc
    exact { h with
      excl := hx, ahead := nofun, owes := nofun, start := nofun
      flag := fun _ hr' => by rw [hr] at hr'; cases hr' }
  | poll hpc | skip hpc =>
    exact { h with excl := hx, ahead := nofun, owes := nofun, start := nofun }
  | test hpc hr =>
    have hrep := (Bool.and_eq_true_iff.mp hr).1
    exact { h with
      excl := hx, owes := nofun, start := nofun
      ahead := fun _ => ⟨ht rfl hpc hrep, h.flag hrep⟩ }
  | clearReport hpc =>
    have hahead := h.ahead (by rw [hpc]; rfl)
    exact { h with
      excl := hx, ahead := fun _ => hahead, flag := nofun, owes := fun _ => rfl, start := nofun }
  | call hpc harg hm =>
    have hahead := h.ahead (by rw [hpc]; rfl)
    have howes := h.owes (by rw [hpc]; rfl)
    exact { h with
      excl := hx, ahead := fun _ => hahead, owes := fun _ => howes, start := nofun }
  | callback hpc =>
    have hr := DevSimpleUart.rxne_asyncRxCB s.uart
    have hahead := h.ahead (by rw [hpc]; rfl)
    have howes := h.owes (by rw [hpc]; rfl)
    exact { h with
      excl := hx, ahead := nofun, owes := nofun, start := nofun
      byte := fun _ _ => hahead.1
      sees := fun _ => hr
      flag := fun hrep => by rw [howes] at hrep; cases hrep }

/-- Every step of a polite guest and a timely listener. -/
theorem honest_step (h : Honest s) (hstep : Step s e t) (hp : Polite s e) (ht : Timely s e) :
    Honest t := by
  cases e with
  | arrive b =>
    have hx := mutual_step h.excl hstep
    cases hstep
    refine { h with
      excl := hx
      byte := fun _ _ => by simp
      ahead := fun ha => ⟨by simp, (h.ahead ha).2⟩
      bytes := ?_ }
    rw [← h.bytes]
    simp
  | hangUp hup =>
    have hx := mutual_step h.excl hstep
    cases hstep
    exact { h with excl := hx }
  | begin op =>
    cases hstep with
    | begin _ hpc => exact h.begin hpc hp
  | cpu => exact honest_cpu h hstep
  | listener => exact honest_listener h hstep ht

/-- **RX-not-empty means there is a byte,** in every run of a polite guest
in which the listener is timely: while RXNE is set a byte is unread, but for
the one that the CPU's thread has just taken; a read of RX finds one at
once; and what the guest has received is what has arrived, in order. -/
theorem rxne_has_byte (hrun : Steps TimelyStep .init es s) :
    (s.uart.rxne = true → s.cpu.taken = false → s.unread ≠ []) ∧
    (∀ op, s.cpu = .body op → op.isRX = true → s.unread ≠ []) ∧
    s.received ++ s.cpu.held ++ s.unread = s.arrived := by
  have hinit : Honest .init :=
    ⟨⟨by decide, by decide⟩, nofun, by decide, nofun, nofun, nofun, fun _ => rfl, nofun, nofun,
      rfl⟩
  have h := hrun.invariant (I := Honest) hinit
    fun _ _ _ h hstep => honest_step h hstep.1.1 hstep.1.2 hstep.2
  refine ⟨h.byte, fun op hpc hrx => ?_, h.bytes⟩
  exact h.byte (h.sees (.inr (by rw [hpc]; exact hrx))) (by rw [hpc]; rfl)

theorem Step.polite (h : Step s e t) (hne : ∀ op, e = .begin op → op.isRX = false) :
    PoliteStep s e t :=
  ⟨h, fun op he hrx => by rw [hne op he] at hrx; cases hrx⟩

theorem PoliteStep.timely (h : PoliteStep s e t) (hne : s.listener ≠ .test) :
    TimelyStep s e t := ⟨h, fun _ hl => absurd hl hne⟩

/-- A byte arrives and is announced. -/
theorem steps_announced : ∃ es s, Steps TimelyStep .init es s ∧ s.uart.rxne = true ∧
    s.unread = [0x41] ∧ s.hup = false ∧ s.rxCb = true ∧ s.rxCbArg = true ∧ s.mutex = none ∧
    s.cpu = .idle ∧ s.listener = .poll := by
  have harrive := Steps.single (((Step.arrive (s := .init) 0x41).polite nofun).timely nofun)
  have hopen := harrive.snoc (((Step.hangUp false).polite nofun).timely nofun)
  have hcb := hopen.snoc (((Step.registerCb rfl).polite nofun).timely nofun)
  have harg := hcb.snoc (((Step.registerArg rfl).polite nofun).timely nofun)
  have hstart := harg.snoc (((Step.start rfl).polite nofun).timely nofun)
  have hpoll := hstart.snoc (((Step.poll rfl (by decide) rfl).polite nofun).timely nofun)
  have htest := hpoll.snoc ⟨(Step.test rfl rfl).polite nofun, fun _ _ _ => by decide⟩
  have hclear := htest.snoc (((Step.clearReport rfl).polite nofun).timely nofun)
  have hcall := hclear.snoc (((Step.call rfl rfl rfl).polite nofun).timely nofun)
  have hset := hcall.snoc (((Step.callback rfl).polite nofun).timely nofun)
  exact ⟨_, _, hset, rfl, rfl, rfl, rfl, rfl, rfl, rfl, rfl⟩

/-- RXNE is set for the byte that has arrived. -/
theorem rxne_has_byte_announced : ∃ es s, Steps TimelyStep .init es s ∧
    s.uart.rxne = true ∧ s.unread ≠ [] := by
  obtain ⟨es, s, hrun, hr, -, -, -, -, -, hpc, -⟩ := steps_announced
  exact ⟨es, s, hrun, hr, (rxne_has_byte hrun).1 hr (by rw [hpc]; rfl)⟩

/-- Where RXNE is set and nothing is unread, a guest that looks at RXNE and
reads RX waits. -/
theorem read_waits (hpc : s.cpu = .idle) (hm : s.mutex = none) (hrxne : s.uart.rxne = true)
    (hb : s.unread = []) (hup : s.hup = false) :
    ∃ fs t, Steps PoliteStep s fs t ∧ t.cpu = .body (.read8 0x0) ∧ t.unread = [] ∧
      ∀ u, Step t .cpu u → u = t := by
  have hsee := Steps.single ((Step.begin (.read8 0x4) hpc).polite fun _ h => by cases h; rfl)
  have hsee₁ := hsee.snoc ((Step.lock rfl (by exact hm)).polite nofun)
  have hsee₂ := hsee₁.snoc ((Step.read rfl rfl rfl).polite nofun)
  have hsee₃ := hsee₂.snoc ((Step.unlock rfl).polite nofun)
  have hread := hsee₃.snoc ⟨Step.begin (.read8 0x0) rfl, fun _ _ _ => hrxne⟩
  have hread₁ := hread.snoc ((Step.lock rfl rfl).polite nofun)
  refine ⟨_, _, hread₁, rfl, hb, fun u hu => ?_⟩
  cases hu with
  | again => rfl
  | registerCb h | registerArg h | lock h | report h | clear h | write h | unlock h => cases h
  | read h hr hdata =>
    cases h
    cases hr
    cases hdata
  | getByte h hrx hb' => rw [hb] at hb'; cases hb'
  | error h hrx hb' hup' => rw [hup] at hup'; cases hup'

/-- The guest takes the byte between the listener's `poll` and its test:
RXNE is set with no byte there, and the read of RX that follows waits. -/
theorem rxne_no_byte : ∃ es s, Steps PoliteStep .init es s ∧
    s.cpu = .idle ∧ s.uart.rxne = true ∧ s.unread = [] ∧
    ∃ fs t, Steps PoliteStep s fs t ∧ t.cpu = .body (.read8 0x0) ∧ t.unread = [] ∧
      ∀ u, Step t .cpu u → u = t := by
  obtain ⟨es, s, hrun, hr, hb, hup, hcb, harg, hm, hpc, hl⟩ := steps_announced
  have hset := hrun.imp fun _ _ _ h => h.1
  have hne : s.unread ≠ [] := by simp [hb]
  -- The listener sees the byte once more, and the guest takes it.
  have hagain := hset.snoc ((Step.poll hl hne hup).polite nofun)
  have hlook := hagain.snoc ((Step.begin (.read8 0x4) (by exact hpc)).polite
    fun _ h => by cases h; rfl)
  have hlook₁ := hlook.snoc ((Step.lock rfl (by exact hm)).polite nofun)
  have hlook₂ := hlook₁.snoc ((Step.read rfl rfl rfl).polite nofun)
  have hlook₃ := hlook₂.snoc ((Step.unlock rfl).polite nofun)
  have hrx := hlook₃.snoc ⟨Step.begin (.read8 0x0) rfl, fun _ _ _ => by exact hr⟩
  have hrx₁ := hrx.snoc ((Step.lock rfl rfl).polite nofun)
  have hrx₂ := hrx₁.snoc ((Step.getByte rfl rfl (by exact hb)).polite nofun)
  have hrx₃ := hrx₂.snoc ((Step.report rfl).polite nofun)
  have hrx₄ := hrx₃.snoc ((Step.clear rfl).polite nofun)
  have hrx₅ := hrx₄.snoc ((Step.unlock rfl).polite nofun)
  -- Only now the listener tests the flag.
  have hlate := hrx₅.snoc ((Step.test rfl (by exact hcb)).polite nofun)
  have hlate₁ := hlate.snoc ((Step.clearReport rfl).polite nofun)
  have hlate₂ := hlate₁.snoc ((Step.call rfl (by exact harg) rfl).polite nofun)
  have hlate₃ := hlate₂.snoc ((Step.callback rfl).polite nofun)
  have hrxne := DevSimpleUart.rxne_asyncRxCB s.uart.assessIRQstatus.clearRXNE.assessIRQstatus
  exact ⟨_, _, hlate₃, rfl, hrxne, rfl, read_waits rfl rfl hrxne rfl hup⟩

end Console

end MrIss
