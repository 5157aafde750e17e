import MrIss.Lib.Couple
import MrIss.Mmu.Frame
/-!
# What data accesses depend on

An access to data reads the registers of the MMU and the data side's half of
the uTLB. Two machines that differ in the instruction side's half alone, and
in which device the bus found last, give every data access the same result;
a fetch leaves the data side's half alone.
-/

namespace MrIss

open EarlyReturn

/-! ## The bus -/

/-- The system, but for the device found last. -/
def Sys.contents (s : Sys) : HostMem × List IoAccess := (s.mem, s.io)

/-- The coupling of systems that hold the same. -/
abbrev sysCoupling : Coupling Sys := .same Sys.contents

namespace Bus

variable {B : PagedBus} {m : IoModel} {addr : PA}

/-- **The cache of the bus shows in nothing.** -/
instance couples_getDev : Couples sysCoupling (B.bus.getDev addr) where
  out s t hst := by
    rcases B.getDev_eq addr s with ⟨hn, hs⟩ | ⟨d, i, hd, hs⟩ <;>
      rcases B.getDev_eq addr t with ⟨hn', ht⟩ | ⟨e, j, he, ht⟩
    · rw [hs, ht]
      exact rfl
    · rw [hn] at he
      cases he
    · rw [hd] at hn'
      cases hn'
    · rw [hd] at he
      cases he
      rw [hs, ht]
      exact ⟨rfl, hst⟩

instance couples_ioAccess (a : IoAccess) : Couples sysCoupling (ioAccess m a) := by
  have hmake : Couples sysCoupling (Prog.modify fun s : Sys =>
      { s with io := a :: s.io, mem := m.dma (a :: s.io) s.mem } : SysM Unit) :=
    .modify_same (fun k => (m.dma (a :: k.2) k.1, a :: k.2)) fun _ => rfl
  have hreply : Couples sysCoupling (Prog.gets fun s : Sys => m.reply s.io : SysM _) :=
    .gets_same (fun k => m.reply k.2) fun _ => rfl
  unfold ioAccess
  refine .seq inferInstance fun _ => .seq inferInstance fun o => ?_
  cases o <;> infer_instance

/-- What is read in memory. -/
theorem couples_peek {α : Type} (f : HostMem → α) :
    Couples sysCoupling (Prog.gets fun s : Sys => f s.mem : SysM α) :=
  .gets_same (fun k => f k.1) fun _ => rfl

/-- What is written there. -/
theorem couples_poke (f : HostMem → HostMem) :
    Couples sysCoupling (Prog.modify fun s : Sys => { s with mem := f s.mem } : SysM Unit) :=
  .modify_same (fun k => (f k.1, k.2)) fun _ => rfl

theorem couples_map {α β : Type} {x : SysM α} (f : α → β) [Couples sysCoupling x] :
    Couples sysCoupling (f <$> x) :=
  inferInstanceAs (Couples sysCoupling (x >>= fun a => pure (f a)))

instance couples_read32 : Couples sysCoupling (B.bus.read32 m addr) := by
  refine .seq inferInstance fun d => ?_
  cases d with
  | ram r => exact couples_peek fun h => ByteMem.read32 h (r.hostAddr addr)
  | io => infer_instance

instance couples_read16 : Couples sysCoupling (B.bus.read16 m addr) := by
  refine .seq inferInstance fun d => ?_
  cases d with
  | ram r => exact couples_peek fun h => ByteMem.read16 h (r.hostAddr addr)
  | io => exact couples_map _

instance couples_read8 : Couples sysCoupling (B.bus.read8 m addr) := by
  refine .seq inferInstance fun d => ?_
  cases d with
  | ram r => exact couples_peek fun h => h (r.hostAddr addr)
  | io => exact couples_map _

instance couples_write32 (v : BitVec 32) : Couples sysCoupling (B.bus.write32 m addr v) := by
  refine .seq inferInstance fun d => ?_
  cases d with
  | ram r =>
    have := couples_poke fun h => ByteMem.write32 h (r.hostAddr addr) v
    exact .when
  | io => exact couples_map _

instance couples_write16 (v : BitVec 16) : Couples sysCoupling (B.bus.write16 m addr v) := by
  refine .seq inferInstance fun d => ?_
  cases d with
  | ram r =>
    have := couples_poke fun h => ByteMem.write16 h (r.hostAddr addr) v
    exact .when
  | io => exact couples_map _

instance couples_write8 (v : BitVec 8) : Couples sysCoupling (B.bus.write8 m addr v) := by
  refine .seq inferInstance fun d => ?_
  cases d with
  | ram r =>
    have := couples_poke fun h => ByteMem.write8 h (r.hostAddr addr) v
    exact .when
  | io => exact couples_map _

instance couples_getDirectMap : Couples sysCoupling (B.bus.getDirectMap addr) := by
  refine .seq inferInstance fun d => ?_
  cases d <;> infer_instance

end Bus

/-! ## The MMU -/

namespace Mmu

/-- The MMU, with the instruction side's half of the uTLB left out. -/
def dataSide (m : Mmu) : Mmu :=
  { m with utlb := fun a => match a with
    | .pi | .ui => fun _ => ⟨0, 0⟩
    | .pd | .ud => m.utlb a }

end Mmu

/-- The MMU's data side, and what is behind it. -/
def Mem.dataSide (s : Mem) : Mmu × HostMem × List IoAccess := (s.mmu.dataSide, s.sys.contents)

/-- The coupling of data accesses. -/
abbrev memCoupling : Coupling Mem := .same Mem.dataSide

namespace Mmu

variable {c : Config} {addr : VA} {rnW priv : Bool} {size : Size} {m n : Mmu}

instance couples_onBus {α : Type} {x : SysM α} [h : Couples sysCoupling x] :
    Couples memCoupling (onBus x) := by
  have hset (s t : Mem) (u v : Sys) (hst : s.dataSide = t.dataSide)
      (huv : u.contents = v.contents) :
      ({ s with sys := u } : Mem).dataSide = ({ t with sys := v } : Mem).dataSide := by
    have hmmu : s.mmu.dataSide = t.mmu.dataSide := congrArg Prod.fst hst
    exact Prod.ext hmmu huv
  exact .zoom h (fun _ _ hst => congrArg Prod.snd hst) hset hset

/-- The data side is the registers and two arrays. -/
theorem dataSide_ext (hregs : m.registers = n.registers) (hpd : m.utlb .pd = n.utlb .pd)
    (hud : m.utlb .ud = n.utlb .ud) : m.dataSide = n.dataSide := by
  have hside (m : Mmu) : m.dataSide = { m.registers with utlb := fun a => match a with
      | .pi | .ui => fun _ => ⟨0, 0⟩
      | .pd => m.utlb .pd
      | .ud => m.utlb .ud } := by
    simp only [dataSide, registers]
    congr 1
    funext a
    cases a <;> rfl
  rw [hside m, hside n, hregs, hpd, hud]

/-! ### Entries and lookups -/

theorem utlbLookup_dataSide (m : Mmu) :
    m.dataSide.utlbLookup false priv addr = m.utlbLookup false priv addr := by
  cases priv <;> rfl

/-- Putting an entry in the data side's half. -/
theorem dataSide_utlbSet (m : Mmu) (pa : HVA) (perms : MmuPerms) :
    (m.utlbSet false priv addr pa perms).dataSide =
      (m.dataSide.utlbSet false priv addr pa perms).dataSide := by
  cases priv <;> refine dataSide_ext rfl ?_ ?_ <;> simp [utlbSet, selectUtlb, dataSide, enabled]

/-- Putting an entry in the other half. -/
theorem dataSide_utlbSet_inst (m : Mmu) (pa : HVA) (perms : MmuPerms) :
    (m.utlbSet true priv addr pa perms).dataSide = m.dataSide := by
  cases priv <;> refine dataSide_ext rfl ?_ ?_ <;> simp [utlbSet, selectUtlb]

/-! ### Translation -/

instance couples_utlbInsert (pa : PA) (perms : MmuPerms) :
    Couples memCoupling (utlbInsert c false priv addr pa perms) := by
  have hset (h : HVA) : Couples memCoupling (Prog.modify fun s : Mem =>
      { s with mmu := s.mmu.utlbSet false priv addr h perms } : MmuM Unit) :=
    .modify_same (fun k => ((k.1.utlbSet false priv addr h perms).dataSide, k.2)) fun s =>
      Prod.ext (dataSide_utlbSet ..) rfl
  unfold utlbInsert
  infer_instance

/-- A statement that is made from an MMU is made from its data side. -/
theorem couples_mmu_seq {α : Type} {k : Mmu → MmuM α} (hk : ∀ m, k m.dataSide = k m)
    (h : ∀ m, Couples memCoupling (k m)) : Couples memCoupling (Prog.gets Mem.mmu >>= k) :=
  .gets_seq fun s t hst => by
    have hside : s.mmu.dataSide = t.mmu.dataSide := congrArg Prod.fst hst
    rw [← hk s.mmu, hside, hk t.mmu]
    exact (h t.mmu).out s t hst

instance couples_findPte : Couples memCoupling (findPte c addr) :=
  couples_mmu_seq (fun _ => rfl) fun _ => inferInstance

instance couples_translateEA : Couples memCoupling (translateEA c addr false rnW priv) := by
  refine couples_mmu_seq (fun _ => rfl) fun m => ?_
  split
  · infer_instance
  · split
    · infer_instance
    · split
      · infer_instance
      · refine .seq inferInstance fun o => ?_
        cases o with
        | none => infer_instance
        | some pte =>
          refine .seq inferInstance fun pteh => ?_
          dsimp only
          cases (pteUse c.build (m.segOf addr) addr rnW priv (ByteMem.swap32 pteh)).update <;>
            infer_instance

instance couples_doLookup (n : ℕ) : Couples memCoupling (doLookup c addr false rnW priv n) := by
  induction n with
  | zero => exact .abort _
  | succ n ih =>
    unfold doLookup
    refine .seq inferInstance fun res => ?_
    cases res with
    | error f => infer_instance
    | ok _ =>
      refine couples_mmu_seq (fun m => by simp only [utlbLookup_dataSide]) fun m => ?_
      cases m.utlbLookup false priv addr <;> infer_instance

instance couples_translateAddr : Couples memCoupling (translateAddr c addr false rnW priv) := by
  refine couples_mmu_seq (fun m => by simp only [utlbLookup_dataSide]) fun m => ?_
  cases m.utlbLookup false priv addr <;> infer_instance

/-! ### Loads and stores -/

instance couples_readPA (pa : HVA) : Couples memCoupling (readPA c size pa) := by
  have hpeek {α : Type} (f : HostMem → α) := Bus.couples_peek f
  unfold readPA
  cases size with
  | byte =>
    have := hpeek fun h => h pa
    infer_instance
  | half =>
    have := hpeek fun h => ByteMem.read16 h pa
    infer_instance
  | word =>
    have := hpeek fun h => ByteMem.read32 h pa
    infer_instance

instance couples_writePA (pa : HVA) (val : BitVec 32) :
    Couples memCoupling (writePA c size pa val) := by
  have hpoke (f : HostMem → HostMem) := Bus.couples_poke f
  unfold writePA
  cases size with
  | byte =>
    have := hpoke fun h => ByteMem.write8 h pa (val.setWidth 8)
    infer_instance
  | half =>
    have := hpoke fun h => ByteMem.write16 h pa (ByteMem.swap16 (val.setWidth 16))
    infer_instance
  | word =>
    have := hpoke fun h => ByteMem.write32 h pa (ByteMem.swap32 val)
    infer_instance

/-- **A load from data sees the data side alone.** -/
instance couples_load : Couples memCoupling (load c size addr priv) := by
  unfold load
  refine .seq inferInstance fun res => ?_
  cases res <;> infer_instance

instance couples_store (val : BitVec 32) : Couples memCoupling (store c size addr val priv) := by
  unfold store
  refine .seq inferInstance fun res => ?_
  cases res <;> infer_instance

/-! ### Changing mappings -/

/-- A change that makes the data side from the data side. -/
def OfDataSide (f : Mmu → Mmu) : Prop := ∀ m, (f m).dataSide = (f m.dataSide).dataSide

theorem ofDataSide_setIRDR (ir dr : Bool) : OfDataSide (·.setIRDR ir dr) := fun _ =>
  dataSide_ext rfl rfl rfl

theorem ofDataSide_flush : OfDataSide flush := fun _ => dataSide_ext rfl rfl rfl

theorem ofDataSide_setSDR1 (v : BitVec 32) : OfDataSide (·.setSDR1 v) := fun _ =>
  dataSide_ext rfl rfl rfl

theorem ofDataSide_setSegmentReg (sr : Fin 16) (v : BitVec 32) :
    OfDataSide (·.setSegmentReg sr v) := fun _ => dataSide_ext rfl rfl rfl

theorem ofDataSide_setIBATupper (bat : Fin 4) (v : BitVec 32) :
    OfDataSide (·.setIBATupper bat v) := fun _ => dataSide_ext rfl rfl rfl

theorem ofDataSide_setIBATlower (bat : Fin 4) (v : BitVec 32) :
    OfDataSide (·.setIBATlower bat v) := fun _ => dataSide_ext rfl rfl rfl

theorem ofDataSide_setDBATupper (bat : Fin 4) (v : BitVec 32) :
    OfDataSide (·.setDBATupper bat v) := fun _ => dataSide_ext rfl rfl rfl

theorem ofDataSide_setDBATlower (bat : Fin 4) (v : BitVec 32) :
    OfDataSide (·.setDBATlower bat v) := fun _ => dataSide_ext rfl rfl rfl

/-! ### Fetches -/

/-- The frame of statements that spare the data side. -/
def dataFrame : Frame Mem := .same fun s => s.mmu.dataSide

instance translates_inst : Translates dataFrame c addr true priv where
  onBus x := .zoom (Keeps.any x) (fun _ _ _ => rfl) (fun _ _ _ => rfl) fun _ _ _ => rfl
  utlbInsert pa perms := by
    have hbus {α : Type} (x : SysM α) : Keeps dataFrame (onBus x) :=
      .zoom (Keeps.any x) (fun _ _ _ => rfl) (fun _ _ _ => rfl) fun _ _ _ => rfl
    have hset (h : HVA) : Keeps dataFrame (Prog.modify fun s : Mem =>
        { s with mmu := s.mmu.utlbSet true priv addr h perms } : MmuM Unit) :=
      .modify fun s => dataSide_utlbSet_inst ..
    unfold utlbInsert
    infer_instance

/-- **A fetch spares the data side.** -/
theorem dataSide_loadInst32 {s t : Mem} {res : Except Fault (BitVec 32)}
    (h : loadInst32 c addr priv s = .ok res t) : t.mmu.dataSide = s.mmu.dataSide := by
  have htr : Keeps dataFrame (translateAddr c addr true true priv) :=
    keeps_translateAddr_of (translates_inst (c := c)).translateEA
  have htrans : Translates dataFrame c addr true priv := inferInstance
  have hread (pa : HVA) : Keeps dataFrame (readPA c .word pa) := htrans.onBus _
  have hload : Keeps dataFrame (loadInst32 c addr priv) := by
    unfold loadInst32
    refine .seq htr fun res => ?_
    cases res <;> infer_instance
  exact hload.of_ok h

end Mmu

end MrIss
