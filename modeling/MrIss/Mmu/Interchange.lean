import MrIss.Mmu.Assoc
import MrIss.Mmu.Frame
/-!
# The two uTLBs are interchangeable

An MMU with the direct-mapped uTLB and one with the associative uTLB are
given the same operations. Both stay coherent, so both answer as a walk
does: they differ only where no device answers a translated address, of
which one of them may have an entry and the other not.
-/

namespace MrIss

open EarlyReturn Run

open Mmu

/-- Two MMUs, one for each header, in a run. -/
structure Pair where
  dm : Mem
  assoc : Assoc
  /-- The hash table has changed since the last invalidation. -/
  stale : Bool

namespace Pair

/-- Both are constructed over the same memory. -/
def init (m : Mmu) (sys : Sys) (utlbIdx : Fin 8) : Pair :=
  ⟨⟨m.construct, sys⟩, .construct m sys utlbIdx, false⟩

variable {c : Config} {addr : VA} {inD rnW priv : Bool} {p p' : Pair}

/-- The steps of a run that both go through. A fetch is a read. -/
inductive Step (c : Config) : Pair → Mmu.Event → Pair → Prop where
  | translate {p : Pair} {t : Mem} {a : Assoc} {addr : VA} {inD rnW priv : Bool}
      {res res' : Except Fault HVA} (hstale : p.stale = false)
      (hw : WalkInRam c.map p.dm.mmu addr inD priv) (hfetch : inD = true → rnW = true)
      (ht : Mmu.translateAddr c addr inD rnW priv p.dm = .ok res t)
      (ha : Assoc.translateAddr c addr inD rnW priv p.assoc = .ok res' a) :
      Step c p (.translate addr inD rnW priv) ⟨t, a, false⟩
  | map {p : Pair} (op : MapOp) :
      Step c p (.map op) ⟨{ p.dm with mmu := op.apply p.dm.mmu }, p.assoc.map op,
        p.stale && !op.invalidates⟩
  | outside {p : Pair} {sys sys' : Sys} (hmem : sys'.mem = sys.mem)
      (h : TableSame c.map p.dm.mmu p.dm.sys.mem sys.mem) :
      Step c p .outside ⟨{ p.dm with sys := sys }, { p.assoc with sys := sys' }, p.stale⟩
  | table {p : Pair} {sys sys' : Sys} (hmem : sys'.mem = sys.mem) :
      Step c p .outside ⟨{ p.dm with sys := sys }, { p.assoc with sys := sys' }, true⟩

/-! ## Registers -/

/-- What a call is to answer depends on the registers. -/
theorem answers_registers {m m' : Mmu} {mem : HostMem} {σ : Type} {host : σ → HostMem}
    {o : Out Abort σ (Except Fault HVA)} (h : m'.registers = m.registers)
    (ho : Answers c m' mem addr inD rnW priv host o) :
    Answers c m mem addr inD rnW priv host o := by
  change Answers c m.registers mem addr inD rnW priv host o
  rw [← h]
  exact ho

theorem tableSame_registers {B : PagedBus} {m m' : Mmu} {mem mem' : HostMem}
    (h : m'.registers = m.registers) (ht : TableSame B m mem mem') : TableSame B m' mem mem' := by
  change TableSame B m'.registers mem mem'
  rw [h]
  exact ht

/-- An operation makes the same registers of the same. -/
theorem registers_map {a : Assoc} {m : Mmu} (h : a.regs.registers = m.registers) (op : MapOp) :
    (a.map op).regs.registers = (op.apply m).registers := by
  have hof (m : Mmu) : (op.apply m).registers = (op.apply m.registers).registers := by
    cases op <;> rfl
  have hmap : (a.map op).regs = op.apply a.regs := by cases op <;> rfl
  rw [hmap, hof, h, ← hof]

/-! ## Runs -/

/-- What a run keeps. -/
structure Inv (c : Config) (p : Pair) : Prop where
  regs : p.assoc.regs.registers = p.dm.mmu.registers
  mem : p.assoc.sys.mem = p.dm.sys.mem
  coherent : p.stale = false → Mmu.Coherent c p.dm ∧ Assoc.Coherent c p.assoc

/-- **Both answer as a walk does.** -/
theorem Inv.answered (h : Inv c p) (hstale : p.stale = false)
    (hw : WalkInRam c.map p.dm.mmu addr inD priv) (hfetch : inD = true → rnW = true) :
    Answers c p.dm.mmu p.dm.sys.mem addr inD rnW priv (fun t : Mem => t.sys.mem)
      (Mmu.translateAddr c addr inD rnW priv p.dm) ∧
    Answers c p.dm.mmu p.dm.sys.mem addr inD rnW priv (fun a : Assoc => a.sys.mem)
      (Assoc.translateAddr c addr inD rnW priv p.assoc) := by
  obtain ⟨hdm, hassoc⟩ := h.coherent hstale
  have hw' := walkInRam_registers h.regs hw
  refine ⟨translateAddr_answers hdm hw hfetch, ?_⟩
  rw [← h.mem]
  exact answers_registers h.regs (Assoc.translateAddr_answered hassoc hw' hfetch).answers

/-- Every step keeps it. -/
theorem inv_step {e : Mmu.Event} (h : Inv c p) (hstep : Step c p e p') : Inv c p' := by
  cases hstep with
  | translate hstale hw hfetch ht ha =>
    obtain ⟨hdm, hassoc⟩ := h.coherent hstale
    obtain ⟨hans, hans'⟩ := h.answered hstale hw hfetch
    obtain ⟨hregs, hcoh⟩ :=
      (Assoc.translateAddr_answered hassoc (walkInRam_registers h.regs hw) hfetch).kept _ _ ha
    rw [ht] at hans
    rw [ha] at hans'
    refine ⟨?_, hans'.of_ok.2.trans hans.of_ok.2.symm, fun _ =>
      ⟨coherent_translate hdm hw ht, hcoh⟩⟩
    rw [hregs, h.regs]
    exact (keeps_translateAddr.of_ok ht).registers.symm
  | map op =>
    have hmem : (p.assoc.map op).sys = p.assoc.sys := by cases op <;> rfl
    refine ⟨registers_map h.regs op, by rw [hmem]; exact h.mem, fun hstale => ?_⟩
    by_cases hinv : op.invalidates = true
    · cases op with
      | tlbie =>
        exact ⟨coherent_of_empty fun arr i => by cases arr <;> rfl,
          Assoc.coherent_of_empty fun arr i => by cases arr <;> rfl⟩
      | tlbia =>
        exact ⟨coherent_of_empty fun arr i => by cases arr <;> rfl,
          Assoc.coherent_of_empty fun arr i => by cases arr <;> rfl⟩
      | _ => cases hinv
    · simp only [hinv, Bool.not_false, Bool.and_true] at hstale
      obtain ⟨hdm, hassoc⟩ := h.coherent hstale
      exact ⟨coherent_map hdm op, Assoc.coherent_map hassoc op⟩
  | outside hmem hsame =>
    refine ⟨h.regs, hmem, fun hstale => ?_⟩
    obtain ⟨hdm, hassoc⟩ := h.coherent hstale
    refine ⟨coherent_outside hdm hsame, Assoc.coherent_outside hassoc ?_⟩
    rw [h.mem, hmem]
    exact tableSame_registers h.regs hsame
  | table hmem => exact ⟨h.regs, hmem, fun hstale => by cases hstale⟩

theorem inv_of_run {m₀ : Mmu} {sys : Sys} {i : Fin 8} {es : List Mmu.Event}
    (hrun : Steps (Step c) (.init m₀ sys i) es p) : Inv c p :=
  hrun.invariant ⟨rfl, rfl, fun _ => ⟨coherent_of_empty fun _ _ => rfl,
    Assoc.coherent_of_empty fun _ _ => rfl⟩⟩ fun _ _ _ => inv_step

/-- **The two uTLBs are interchangeable.** In every run, of both, an access
gives the same result and leaves the same memory; or no device answers the
translated address, and of the two MMUs one at least ends the simulator
while the other, if it does not, gives what a walk without a uTLB would.
In no case does the associative one need a ninth walk. -/
theorem translateAddr_interchangeable {m₀ : Mmu} {sys : Sys} {i : Fin 8} {es : List Mmu.Event}
    (hrun : Steps (Step c) (.init m₀ sys i) es p) (hstale : p.stale = false)
    (hw : WalkInRam c.map p.dm.mmu addr inD priv) (hfetch : inD = true → rnW = true) :
    (∃ res t a, Mmu.translateAddr c addr inD rnW priv p.dm = .ok res t ∧
      Assoc.translateAddr c addr inD rnW priv p.assoc = .ok res a ∧
      a.sys.mem = t.sys.mem) ∨
    ∃ pa t a, Unanswered c p.dm.mmu p.dm.sys.mem addr inD rnW priv pa ∧
      let (res, mem) := uncached c p.dm.mmu p.dm.sys.mem addr inD rnW priv
      let dm := Mmu.translateAddr c addr inD rnW priv p.dm
      let assoc := Assoc.translateAddr c addr inD rnW priv p.assoc
      dm = .abort (.busMiss pa) t ∧ assoc = .abort (.busMiss pa) a ∨
      dm = .abort (.busMiss pa) t ∧ assoc = .ok res a ∧ a.sys.mem = mem ∨
      dm = .ok res t ∧ t.sys.mem = mem ∧ assoc = .abort (.busMiss pa) a := by
  obtain ⟨hdm, hassoc⟩ := (inv_of_run hrun).answered hstale hw hfetch
  rcases hdm with ⟨t, ht, hmem⟩ | ⟨pa, t, hun, ht⟩
  · rcases hassoc with ⟨a, ha, hmem'⟩ | ⟨pa, a, hun, ha⟩
    · exact .inl ⟨_, t, a, ht, ha, hmem'.trans hmem.symm⟩
    · exact .inr ⟨pa, t, a, hun, .inr (.inr ⟨ht, hmem, ha⟩)⟩
  · rcases hassoc with ⟨a, ha, hmem⟩ | ⟨pa', a, hun', ha⟩
    · exact .inr ⟨pa, t, a, hun, .inr (.inl ⟨ht, ha, hmem⟩)⟩
    · obtain ⟨-, r, hr, rfl⟩ := hun
      obtain ⟨-, r', hr', rfl⟩ := id hun'
      rw [hr] at hr'
      cases hr'
      exact .inr ⟨r.pa, t, a, hun', .inl ⟨ht, ha⟩⟩

/-- A page of which a device answers the first bytes: a page with the same
index in the direct-mapped uTLB drives it out of that one only, and an
access past the device ends that simulator alone. -/
theorem translateAddr_past_device :
    ∃ p h a, Steps (Step (.quiet .default)) (.init zero .fresh 0)
        [.translate 0x82000000 false true true, .translate 0x80000 false true true] p ∧
      p.stale = false ∧
      Assoc.translateAddr (.quiet .default) 0x82000800 false true true p.assoc = .ok (.ok h) a ∧
      ∀ res t, Mmu.translateAddr (.quiet .default) 0x82000800 false true true p.dm ≠
        .ok res t := by
  have key : (Mmu.translateAddr (.quiet .default) 0x82000000 false true true
      ⟨zero.construct, .fresh⟩).test fun _ t => !t.mmu.enabledD &&
        (Mmu.translateAddr (.quiet .default) 0x80000 false true true t).test fun _ t =>
          !(Mmu.translateAddr (.quiet .default) 0x82000800 false true true t).test fun _ _ =>
            true := by decide +kernel
  have key' : (Assoc.translateAddr (.quiet .default) 0x82000000 false true true
      (.construct zero .fresh 0)).test fun _ a =>
        (Assoc.translateAddr (.quiet .default) 0x80000 false true true a).test fun _ a =>
          (Assoc.translateAddr (.quiet .default) 0x82000800 false true true a).test fun res _ =>
            res.toBool := by decide +kernel
  obtain ⟨_, t₁, ht₁, h⟩ := Out.of_test key
  rw [Bool.and_eq_true, Bool.not_eq_true'] at h
  obtain ⟨hoff, h⟩ := h
  obtain ⟨_, t₂, ht₂, h⟩ := Out.of_test h
  obtain ⟨_, a₁, ha₁, h'⟩ := Out.of_test key'
  obtain ⟨_, a₂, ha₂, h'⟩ := Out.of_test h'
  obtain ⟨res, a, ha, h'⟩ := Out.of_test h'
  cases res with
  | error f => cases h'
  | ok k =>
    have hfirst : Step (.quiet .default) (.init zero .fresh 0)
        (.translate 0x82000000 false true true) ⟨t₁, a₁, false⟩ :=
      .translate rfl (walkInRam_of_off rfl) (fun h => by cases h) ht₁ ha₁
    have hsecond : Step (.quiet .default) ⟨t₁, a₁, false⟩
        (.translate 0x80000 false true true) ⟨t₂, a₂, false⟩ :=
      .translate rfl (walkInRam_of_off hoff) (fun h => by cases h) ht₂ ha₂
    refine ⟨⟨t₂, a₂, false⟩, k, a, .snoc (.single hfirst) hsecond, rfl, ha, fun res t heq => ?_⟩
    rw [heq] at h
    cases h

theorem steps_paged (b : Build) (sys : Sys) (i : Fin 8) :
    Steps (Step (.quiet b)) (.init zero sys i)
      [.map (.setSDR1 0x10000), .map (.setIRDR false true)]
      ⟨⟨paged, sys⟩, ((Assoc.construct zero sys i).map (.setSDR1 0x10000)).map
        (.setIRDR false true), false⟩ :=
  .snoc (.single (.map _)) (.map _)

/-- A store to the page of a table. -/
theorem translateAddr_interchangeable_store :
    ∃ p : Pair, p.dm = ⟨paged, .onePage⟩ ∧
      ((∃ res t a, Mmu.translateAddr (.quiet .default) 0x1000 false false true p.dm = .ok res t ∧
        Assoc.translateAddr (.quiet .default) 0x1000 false false true p.assoc = .ok res a ∧
        a.sys.mem = t.sys.mem) ∨
      ∃ pa t a, Unanswered (.quiet .default) p.dm.mmu p.dm.sys.mem 0x1000 false false true pa ∧
        let (res, mem) := uncached (.quiet .default) p.dm.mmu p.dm.sys.mem 0x1000 false false true
        let dm := Mmu.translateAddr (.quiet .default) 0x1000 false false true p.dm
        let assoc := Assoc.translateAddr (.quiet .default) 0x1000 false false true p.assoc
        dm = .abort (.busMiss pa) t ∧ assoc = .abort (.busMiss pa) a ∨
        dm = .abort (.busMiss pa) t ∧ assoc = .ok res a ∧ a.sys.mem = mem ∨
        dm = .ok res t ∧ t.sys.mem = mem ∧ assoc = .abort (.busMiss pa) a) :=
  ⟨_, rfl, translateAddr_interchangeable (steps_paged .default .onePage 3) rfl
    (walkInRam_paged .default false true) fun h => by cases h⟩

end Pair

end MrIss
