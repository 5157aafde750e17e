import MrIss.Machine.Run
import MrIss.Mmu.Run
/-!
# IR and DR, twice

The MSR has IR and DR, and so has the MMU. Every statement that writes the
one writes the other, but for the set-up, which gives the MSR a value and
leaves translation off.
-/

namespace MrIss

open EarlyReturn Run

/-- The MMU translated as the MSR said. -/
def Event.Agrees : Event → Prop
  | .translate _ enabledI enabledD msr =>
    enabledI = (msr &&& msrIR != 0) ∧ enabledD = (msr &&& msrDR != 0)
  | _ => True

/-- MSR and MMU agree, and always did. -/
structure Machine.Agrees (s : Machine) : Prop where
  ir : s.mem.mmu.enabledI = (s.cpu.os.msr &&& msrIR != 0)
  dr : s.mem.mmu.enabledD = (s.cpu.os.msr &&& msrDR != 0)
  trace : ∀ e ∈ s.trace, e.Agrees

namespace Machine.Agrees

variable {s : Machine}

/-- What holds of the registers and of the newest event holds. -/
theorem cons {t : Machine} {e : Event} (h : s.Agrees) (he : e.Agrees)
    (ht : t.trace = e :: s.trace) (hi : t.mem.mmu.enabledI = (t.cpu.os.msr &&& msrIR != 0))
    (hd : t.mem.mmu.enabledD = (t.cpu.os.msr &&& msrDR != 0)) : t.Agrees := by
  refine ⟨hi, hd, ?_⟩
  rw [ht]
  exact List.forall_mem_cons.mpr ⟨he, h.trace⟩

theorem enter (h : s.Agrees) (e : Exception) (v : Reg) : (s.enter e v).Agrees :=
  h.cons (e := .exception e) trivial rfl rfl rfl

/-- **A translation is made as the MSR says,** and leaves the MMU's IR and
DR alone. -/
theorem translated (h : s.Agrees) (inD : Bool) {t : Mem}
    (ht : s.mem.mmu.Accessed t.mmu) : (s.translated inD t).Agrees := by
  have hi := Mmu.enabledI_of_registers ht.registers
  have hd := Mmu.enabledD_of_registers ht.registers
  exact h.cons (e := .translate inD _ _ _) ⟨h.ir, h.dr⟩ rfl (hi.trans h.ir) (hd.trans h.dr)

end Machine.Agrees

/-- **Agreement is kept** by every statement. -/
theorem agrees_allows : Allows fun s t => s.Agrees → t.Agrees where
  refl _ h := h
  trans h h' := h' ∘ h
  user _ _ _ h := ⟨h.ir, h.dr, h.trace⟩
  quit _ h := ⟨h.ir, h.dr, h.trace⟩
  translated _ inD _ ht h := h.translated inD ht
  accessed _ rnW addr fault h := h.cons (e := .access rnW addr fault) trivial rfl h.ir h.dr
  os s o ho h := ⟨by simpa [Machine.setOs, ho] using h.ir, by simpa [Machine.setOs, ho] using h.dr,
    h.trace⟩
  enter _ e v _ h := h.enter e v
  fetched _ _ _ h := ⟨h.ir, h.dr, h.trace⟩
  tick _ _ h := ⟨h.ir, h.dr, h.trace⟩

instance agrees_xerOps : XerOps agrees_allows.frame :=
  agrees_allows.xerOps fun _ _ h => ⟨h.ir, h.dr, h.trace⟩

instance agrees_systemOps : SystemOps agrees_allows.frame :=
  agrees_allows.systemOps (fun _ _ hm h => h.cons (e := .mapping) trivial rfl
      (hm.enabledI.trans h.ir) (hm.enabledD.trans h.dr))
    fun _ _ h => ⟨rfl, rfl, h.trace⟩

instance agrees_reservationOps : ReservationOps agrees_allows.frame := by
  refine agrees_allows.reservationOps agrees_systemOps (fun _ _ h => ⟨h.ir, h.dr, h.trace⟩)
    fun _ e he h => h.cons (e := e) ?_ rfl h.ir h.dr
  cases e <;> trivial

instance agrees_pass (c : Config) : Keeps agrees_allows.frame (pass c) :=
  agrees_allows.keeps_pass fun _ v h => h.enter .prog v

/-- A machine is set up with both off, if the MSR is given so. -/
theorem agrees_boot {startAddr startMsr : Reg} (h : startMsr &&& 0x30 = 0) (i : InterpState)
    (m : Mmu) (sys : Sys) : (Machine.boot startAddr startMsr i m sys).Agrees := by
  have hoff (b : Reg) (hb : b &&& 0x30 = b) : startMsr &&& b = 0 := by
    rw [← hb, BitVec.and_comm b, ← BitVec.and_assoc, h]
    exact BitVec.zero_and
  refine ⟨?_, ?_, List.forall_mem_nil _⟩
  · simp [Machine.boot, setInitialCpuContext, Mmu.construct, hoff msrIR (by decide)]
  · simp [Machine.boot, setInitialCpuContext, Mmu.construct, hoff msrDR (by decide)]

/-- Agreement lasts through a run. -/
theorem agrees_run {c : Config} {s t : Machine} {ls : List Label} (hrun : Steps (Step c) s ls t)
    (h : s.Agrees) : t.Agrees := by
  refine hrun.invariant h fun t l u ht hstep => ?_
  cases hstep with
  | pass hbreak hpass => exact (agrees_pass c).of_ok hpass ht
  | devices irq sys => exact ⟨ht.ir, ht.dr, ht.trace⟩

/-- **When MSR and MMU agree.** In every run of a machine that is set up
and booted with an MSR, and in a pass that ends the process there, every
translation for a fetch or for data is made with the MMU's IR and DR equal
to those of the MSR, if and only if that MSR has neither. -/
theorem msr_agrees_iff (c : Config) (startAddr startMsr : Reg) (i : InterpState) (m : Mmu)
    (sys : Sys) :
    (∀ ls t, Steps (Step c) (.boot startAddr startMsr i m sys) ls t →
      (∀ e ∈ t.trace, e.Agrees) ∧
        (t.interp.wantBreak = false → ∀ e ∈ (pass c t).state.trace, e.Agrees)) ↔
      startMsr &&& 0x30 = 0 := by
  constructor
  · intro hall
    have hfirst := (hall [] _ .nil).2 rfl _ (translate_mem_pass c _)
    obtain ⟨hir, hdr⟩ := hfirst
    have hbit (b : Reg) (hb : false = (startMsr &&& b != 0)) : startMsr &&& b = 0 := by
      simpa using hb.symm
    rw [show (0x30 : Reg) = msrIR ||| msrDR by decide, BitVec.and_or_distrib_left, hbit _ hir,
      hbit _ hdr, BitVec.or_self]
  · intro hmsr ls t hrun
    have ht := agrees_run hrun (agrees_boot hmsr i m sys)
    exact ⟨ht.trace, fun _ => ((agrees_pass c).state t ht).trace⟩

/-- A machine booted with both fetches its first instruction with neither. -/
theorem msr_disagrees : ¬ ∀ ls t,
    Steps (Step (.quiet .default)) (.boot 0x100 0x30 .zero .zero .fresh) ls t →
      (∀ e ∈ t.trace, e.Agrees) ∧
        (t.interp.wantBreak = false → ∀ e ∈ (pass (.quiet .default) t).state.trace, e.Agrees) := by
  intro hall
  obtain ⟨hir, -⟩ := (hall [] _ .nil).2 rfl _ (translate_mem_pass _ _)
  cases hir

end MrIss
