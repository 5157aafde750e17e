import MrIss.Machine.Run
import MrIss.Mmu.Run
/-!
# Return from exceptions

Each exception composes SRR1 of the MSR and of what it has to report, and
one `rfi` moves SRR1 back. The instruction storage and program interrupts
report in bits of SRR1, and these bits come back in the MSR.
-/

namespace MrIss

open EarlyReturn

/-- What raises an exception. -/
inductive Cause where
  /-- The fetch of `execute` faults. -/
  | fetch (f : Fault)
  /-- An access of an instruction faults. -/
  | access (rnW : Bool) (addr : VA) (f : Fault) (inst : BitVec 32)
  /-- The instruction is unknown, or not valid. -/
  | illegal
  | trap
  | systemCall
  | irq
  | decrementer
  deriving DecidableEq, Repr

namespace Cause

/-- Whether the MMU has the fault to give. -/
def Arises : Cause → Prop
  | .fetch f => Mmu.TranslationFault true f
  | .access _ _ f _ => Mmu.DataFault f
  | _ => True

/-- The code that raises it. -/
def raise : Cause → InterpM Unit
  | .fetch f => do
    let pc ← getPC
    raiseMemException true true pc f 0
  | .access rnW addr f inst => raiseMemException rnW false addr f inst
  | .illegal => opUnk
  | .trap => raisePROGException 0x20000
  | .systemCall => opSc 0
  | .irq => raiseIRQException
  | .decrementer => raiseDECException

/-- The MSR that the interrupted program goes on with. -/
def resumedMSR (msr : Reg) : Cause → Reg
  | .fetch .noPage => (msr &&& 0x07ffffff) ||| 0x40000000
  | .fetch .permsNX => (msr &&& 0x07ffffff) ||| 0x10000000
  | .fetch _ => (msr &&& 0x07ffffff) ||| 0x08000000
  | .illegal => (msr &&& 0x8000ffff) ||| 0x00080000
  | .trap => (msr &&& 0x8000ffff) ||| 0x00020000
  | .access .. | .systemCall | .irq | .decrementer => msr

/-- Where it goes on: at the instruction that PC is at, but for `sc`. -/
def resumedPC (pc : VA) : Cause → VA
  | .systemCall => pc + 4
  | _ => pc

/-- Where the exception has been raised and its handler leaves SRR0 and
SRR1, `rfi` resumes with an MSR and a PC. -/
def Resumes (k : Cause) (s : Machine) (msr : Reg) (pc : VA) : Prop :=
  ∃ t, k.raise s = .ok () t ∧ ∀ u : Machine,
    u.cpu.os.srr0 = t.cpu.os.srr0 → u.cpu.os.srr1 = t.cpu.os.srr1 →
      ∃ v, opRfi u = .ok () v ∧ v.cpu.os.msr = msr ∧ v.cpu.user.pc = pc

variable {k : Cause} {s : Machine}

/-- **Every exception leaves the resumed context** in SRR1 and SRR0. -/
theorem raise_context (hk : k.Arises) : ∃ t, k.raise s = .ok () t ∧
    t.cpu.os.srr1 = k.resumedMSR s.cpu.os.msr ∧
      t.cpu.os.srr0 = k.resumedPC s.cpu.user.pc &&& ~~~3 := by
  cases k with
  | fetch f => rcases hk with rfl | rfl | ⟨rfl, -⟩ <;> exact ⟨_, rfl, rfl, rfl⟩
  | access rnW addr f inst => rcases hk with rfl | rfl | rfl <;> exact ⟨_, rfl, rfl, rfl⟩
  | illegal | trap | systemCall | irq | decrementer => exact ⟨_, rfl, rfl, rfl⟩

/-- `rfi` moves SRR1 to MSR and SRR0 to PC. -/
theorem opRfi_context (u : Machine) : ∃ v, opRfi u = .ok () v ∧ v.cpu.os.msr = u.cpu.os.srr1 ∧
    v.cpu.user.pc = u.cpu.os.srr0 &&& ~~~3 :=
  ⟨_, rfl, rfl, rfl⟩

/-- A handler returns to one context. -/
theorem Resumes.unique {msr msr' : Reg} {pc pc' : VA} (h : k.Resumes s msr pc)
    (h' : k.Resumes s msr' pc') : msr = msr' ∧ pc = pc' := by
  obtain ⟨t, ht, hall⟩ := h
  obtain ⟨t', ht', hall'⟩ := h'
  rw [ht] at ht'
  cases ht'
  obtain ⟨v, hv, hmsr, hpc⟩ := hall t rfl rfl
  obtain ⟨v', hv', hmsr', hpc'⟩ := hall' t rfl rfl
  rw [hv] at hv'
  cases hv'
  exact ⟨hmsr.symm.trans hmsr', hpc.symm.trans hpc'⟩

/-- **What `rfi` resumes with.** From any state, after any exception: the
MSR as it was for data storage, alignment, system call, external and
decrementer interrupts; with the cause in place of the top five bits for
an instruction storage interrupt, and of bits 1 to 15 for a program
interrupt. PC is that of the instruction, at the word it is in, and for
`sc` the next. -/
theorem resumes (k : Cause) (hk : k.Arises) (s : Machine) :
    k.Resumes s (k.resumedMSR s.cpu.os.msr) (k.resumedPC s.cpu.user.pc &&& ~~~3) := by
  obtain ⟨t, ht, hsrr1, hsrr0⟩ := raise_context (s := s) hk
  refine ⟨t, ht, fun u hu0 hu1 => ?_⟩
  obtain ⟨v, hv, hmsr, hpc⟩ := opRfi_context u
  refine ⟨v, hv, by rw [hmsr, hu1, hsrr1], ?_⟩
  rw [hpc, hu0, hsrr0, BitVec.and_assoc, BitVec.and_self]

/-- A store to a missing page, with every bit of the MSR set. -/
theorem resumes_store :
    (Cause.access false 0x2000 .noPage 0).Resumes
      (.boot 0x1000 0xffffffff .zero .zero .fresh) 0xffffffff 0x1000 :=
  resumes (.access false 0x2000 .noPage 0) (.inr (.inl rfl))
    (.boot 0x1000 0xffffffff .zero .zero .fresh)

/-- After a trap the MSR is not what it was, and after an interrupt at an
odd PC that is not what it was. -/
theorem resumes_elsewhere :
    ¬ Cause.trap.Resumes (.boot 0x1000 0 .zero .zero .fresh) 0 0x1000 ∧
      ¬ Cause.irq.Resumes (.boot 0x1001 0 .zero .zero .fresh) 0 0x1001 := by
  constructor
  · intro h
    have := (h.unique (resumes .trap trivial _)).1
    revert this
    decide
  · intro h
    have := (h.unique (resumes .irq trivial _)).2
    revert this
    decide

end Cause

end MrIss
