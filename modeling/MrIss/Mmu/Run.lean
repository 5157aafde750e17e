import MrIss.Bus.Platform
import MrIss.Lib.Run
import MrIss.Mmu.Lookup
/-!
# Runs of the MMU

The operations a processor makes on its MMU, in any order: translations,
writes of the translation registers, invalidations. Memory may change
under it. Where that changes the hash table, no translation is made until
the next invalidation.
-/

namespace MrIss

open EarlyReturn Run

/-- A simulator of the third platform, with devices that reply zero and
leave memory alone. -/
def Config.quiet (b : Build) : Config where
  build := b
  map := Platform.mr3.map Platform.sampleMmap (Platform.sampleMmap_mapped _)
  io := ⟨fun _ => some 0, fun _ mem => mem⟩

/-- Memory and devices before any access. -/
def Sys.fresh : Sys := ⟨fun _ => 0, [], 0⟩

/-- RAM with a hash table at 0x10000 that holds one entry: it maps the
page at 0x1000 of segment 0 to the page at 0x2000, to read and to write,
with R and C clear. -/
def Sys.onePage : Sys :=
  ⟨fun a => if a = 0x10010040 then 0x80 else if a = 0x10010046 then 0x20
    else if a = 0x10010047 then 0x02 else 0, [], 0⟩

namespace Mmu

/-- Registers that hold zeroes. -/
def zero : Mmu where
  enabledI := false
  enabledD := false
  htabPhys := 0
  htabMask := 0
  htabPhys_low := rfl
  utlb := fun _ _ => ⟨0, 0⟩
  ibat := fun _ => ⟨0, 0, false, false, 0, 0, 0, rfl⟩
  dbat := fun _ => ⟨0, 0, false, false, 0, 0, 0, rfl⟩
  segreg := fun _ => ⟨0, false, false, false⟩
  generationCount := 0

/-- An operation on the translation registers or the uTLB. -/
inductive MapOp where
  | setSDR1 (val : BitVec 32)
  | setIBATupper (bat : Fin 4) (val : BitVec 32)
  | setIBATlower (bat : Fin 4) (val : BitVec 32)
  | setDBATupper (bat : Fin 4) (val : BitVec 32)
  | setDBATlower (bat : Fin 4) (val : BitVec 32)
  | setSegmentReg (sr : Fin 16) (val : BitVec 32)
  | setIRDR (ir dr : Bool)
  | tlbie
  | tlbia
  deriving DecidableEq, Repr

/-- What an operation does. -/
def MapOp.apply (m : Mmu) : MapOp → Mmu
  | .setSDR1 val => m.setSDR1 val
  | .setIBATupper bat val => m.setIBATupper bat val
  | .setIBATlower bat val => m.setIBATlower bat val
  | .setDBATupper bat val => m.setDBATupper bat val
  | .setDBATlower bat val => m.setDBATlower bat val
  | .setSegmentReg sr val => m.setSegmentReg sr val
  | .setIRDR ir dr => m.setIRDR ir dr
  | .tlbie => m.tlbie
  | .tlbia => m.tlbia

/-- The operations that software must follow a change of the hash table
with. -/
def MapOp.invalidates : MapOp → Bool
  | .tlbie | .tlbia => true
  | _ => false

/-- One step of a run. -/
inductive Event where
  | translate (addr : VA) (inD rnW priv : Bool)
  | map (op : MapOp)
  /-- Something else has changed memory, or used the bus. -/
  | outside

/-- The words of the hash table that a walk under the present registers
can reach are the same in two memories. -/
def TableSame (B : PagedBus) (m : Mmu) (mem mem' : HostMem) : Prop :=
  ∀ addr, ∀ slot ∈ m.pteSlots addr, B.word mem' slot.1 = B.word mem slot.1 ∧
    B.word mem' (slot.1 + 4) = B.word mem (slot.1 + 4)

/-- An MMU in a run; `stale` says that the hash table has changed since
the last invalidation. -/
structure RunState where
  mem : Mem
  stale : Bool

/-- The state a run starts in. -/
def RunState.init (m : Mmu) (sys : Sys) : RunState := ⟨⟨m.construct, sys⟩, false⟩

/-- The steps of a run. -/
inductive Step (c : Config) : RunState → Event → RunState → Prop where
  | translate {s : RunState} {t : Mem} {addr : VA} {inD rnW priv : Bool} {res : Except Fault HVA}
      (hstale : s.stale = false) (hw : WalkInRam c.map s.mem.mmu addr inD priv)
      (ht : translateAddr c addr inD rnW priv s.mem = .ok res t) :
      Step c s (.translate addr inD rnW priv) ⟨t, false⟩
  | map {s : RunState} (op : MapOp) :
      Step c s (.map op)
        ⟨{ s.mem with mmu := op.apply s.mem.mmu }, s.stale && !op.invalidates⟩
  | outside {s : RunState} {sys : Sys} (h : TableSame c.map s.mem.mmu s.mem.sys.mem sys.mem) :
      Step c s .outside ⟨{ s.mem with sys := sys }, s.stale⟩
  | table {s : RunState} (sys : Sys) : Step c s .outside ⟨{ s.mem with sys := sys }, true⟩

/-! ## A run to the sample table -/

/-- The registers that lead to the table of `Sys.onePage`, with
translation of data on. -/
def paged : Mmu := (zero.construct.setSDR1 0x10000).setIRDR false true

theorem walkInRam_paged (b : Build) (inD priv : Bool) :
    WalkInRam (Config.quiet b).map paged 0x1000 inD priv := fun _ _ _ =>
  (by decide : TableInRam (Config.quiet .default).map paged 0x1000)

theorem steps_paged (b : Build) (sys : Sys) : Steps (Step (.quiet b)) (.init zero sys)
    [.map (.setSDR1 0x10000), .map (.setIRDR false true)] ⟨⟨paged, sys⟩, false⟩ :=
  .snoc (.single (.map _)) (.map _)

end Mmu

end MrIss
