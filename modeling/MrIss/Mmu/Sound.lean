import MrIss.Mmu.Frame
import MrIss.Mmu.Lookup
/-!
# Checks that do not fail in the MMU

The simulator checks itself: that what a walk has put in the uTLB is found
there, that registers and BATs have the numbers they should, that a fault
is one that is handled. An access of the MMU ends the process only where
the bus does.
-/

namespace MrIss

open EarlyReturn

/-- The checks that the simulator makes of itself; with them the lookup
that would go round for ever. -/
def Abort.isAssertion : Abort → Bool
  | .tlbMissAfterInsert _ | .lookupLoop | .assertBat | .assertSegment | .assertGPR | .assertNX
  | .unhandledFault => true
  | .busMiss _ | .device | .debug | .spr _ => false

/-- No check fails. -/
abbrev Sound {σ α : Type} (x : Prog Abort σ α) : Prop := Stops (fun e => e.isAssertion = false) x

/-! ## The bus -/

/-- A property of the reasons for which the bus ends the process. -/
class BusEnds (P : Abort → Prop) : Prop where
  busMiss : ∀ addr, P (.busMiss addr)
  device : P .device

/-- No device answers, or the one that does refuses. -/
def Abort.ofBus : Abort → Bool
  | .busMiss _ | .device => true
  | .tlbMissAfterInsert _ | .lookupLoop | .assertBat | .assertSegment | .assertGPR | .assertNX
  | .unhandledFault | .debug | .spr _ => false

/-- The bus ends the simulator by no assertion. -/
instance busEnds_sound : BusEnds fun e => e.isAssertion = false := ⟨fun _ => rfl, rfl⟩

/-- The ends of the bus are its own. -/
instance busEnds_ofBus : BusEnds fun e => e.ofBus = true := ⟨fun _ => rfl, rfl⟩

variable {P : Abort → Prop} [hP : BusEnds P]

namespace Bus

variable (m : IoModel) (bus : Bus) (addr : PA)

/-- An access to a device ends where the device refuses it. -/
instance sound_ioAccess (a : IoAccess) : Stops P (ioAccess m a) := by
  unfold ioAccess
  refine .seq inferInstance fun _ => .seq inferInstance fun o => ?_
  split
  · infer_instance
  · exact .abort hP.device

/-- The search for a device ends where none answers. -/
instance sound_getDev : Stops P (bus.getDev addr) := by
  have hdev (i : ℕ) : Stops P (match bus[i]? with
      | some d => pure d.dev
      | none => Prog.abort (.busMiss addr) : SysM Device) := by
    split
    · infer_instance
    · exact .abort (hP.busMiss addr)
  have hmiss : Stops P (Prog.abort (.busMiss addr) : SysM ℕ) := .abort (hP.busMiss addr)
  refine .seq inferInstance fun i => ?_
  dsimp only
  split_ifs
  · infer_instance
  · split <;> infer_instance

/-- A word is read. -/
instance sound_read32 : Stops P (bus.read32 m addr) := by
  refine .seq inferInstance fun d => ?_
  split
  · exact .gets _
  · infer_instance

/-- A half is read. -/
instance sound_read16 : Stops P (bus.read16 m addr) := by
  refine .seq inferInstance fun d => ?_
  split
  · exact .gets _
  · infer_instance

/-- A byte is read. -/
instance sound_read8 : Stops P (bus.read8 m addr) := by
  refine .seq inferInstance fun d => ?_
  split
  · exact .gets _
  · infer_instance

/-- A word is written. -/
instance sound_write32 (v : BitVec 32) : Stops P (bus.write32 m addr v) := by
  refine .seq inferInstance fun d => ?_
  split
  · exact .when
  · exact .map

/-- A half is written. -/
instance sound_write16 (v : BitVec 16) : Stops P (bus.write16 m addr v) := by
  refine .seq inferInstance fun d => ?_
  split
  · exact .when
  · exact .map

/-- A byte is written. -/
instance sound_write8 (v : BitVec 8) : Stops P (bus.write8 m addr v) := by
  refine .seq inferInstance fun d => ?_
  split
  · exact .when
  · exact .map

/-- A page is looked up. -/
instance sound_getDirectMap : Stops P (bus.getDirectMap addr) := by
  refine .seq inferInstance fun d => ?_
  split <;> infer_instance

end Bus

/-! ## Translation -/

namespace Mmu

variable {c : Config} {addr : VA} {inD rnW priv : Bool} {size : Size}

/-- A run of the bus. -/
instance sound_onBus {α : Type} {x : SysM α} [Stops P x] : Stops P (onBus x) := .zoom

/-- An entry is made: the page is looked up on the bus. -/
instance sound_utlbInsert (pa : PA) (perms : MmuPerms) :
    Stops P (utlbInsert c inD priv addr pa perms) := by
  unfold utlbInsert
  infer_instance

/-- The table is searched. -/
instance sound_findPte : Stops P (findPte c addr) := by
  unfold findPte
  infer_instance

/-- A walk asserts nothing. -/
instance sound_translateEA : Stops P (translateEA c addr inD rnW priv) := by
  unfold translateEA
  refine .seq inferInstance fun m => ?_
  split
  · infer_instance
  · split
    · split <;> infer_instance
    · split
      · infer_instance
      · refine .seq inferInstance fun o => ?_
        split
        · infer_instance
        · refine .seq inferInstance fun pteh => ?_
          dsimp only
          split <;> infer_instance

/-- What a walk that succeeds leaves: an entry for the address, and nothing
to clean. -/
def Walked (c : Config) (addr : VA) (inD rnW priv : Bool) :
    Except Fault (PA × MmuPerms) → Mem → Prop
  | .error _, _ => True
  | .ok _, s => ∃ h perms, s.mmu.utlbLookup inD priv addr = some (h, perms) ∧
      checkFaultWasCleanliness c.build perms rnW inD = false

/-- An entry that is put in the uTLB is found there. -/
theorem walked_utlbInsert {pa : PA} {perms : MmuPerms}
    (hp : checkFaultWasCleanliness c.build perms rnW inD = false) :
    Triple (fun _ => True)
      (utlbInsert c inD priv addr pa perms >>= fun _ => pure (.ok (pa, perms)))
      (Walked c addr inD rnW priv) (fun _ => True) fun _ _ => True := by
  refine .bind (Q := fun _ t => Walked c addr inD rnW priv (.ok (pa, perms)) t) ?_ fun _ =>
    .pure fun _ h => h
  refine .bind (Q := fun _ _ => True) (fun s _ => ?_) fun a => .modify fun s _ => ?_
  · cases onBus (c.map.bus.getDirectMap pa) s <;> trivial
  · exact ⟨_, perms, utlbLookup_utlbSet _ inD priv _ perms rfl, hp⟩

/-- What a walk leaves. -/
theorem walked_translateEA : Triple (fun _ => True) (translateEA c addr inD rnW priv)
    (Walked c addr inD rnW priv) (fun _ => True) fun _ _ => True := by
  unfold translateEA
  refine .bind (.any _) fun m => ?_
  split
  · exact walked_utlbInsert (by simp [checkFaultWasCleanliness, MmuPerms.any])
  · split
    case h_1 hbat =>
      split
      · exact .pure fun _ _ => trivial
      · exact walked_utlbInsert (by simp [checkFaultWasCleanliness, matchBAT_clean hbat])
    case h_2 =>
      split
      · exact .pure fun _ _ => trivial
      · refine .bind (.any _) fun o => ?_
        split
        · exact .pure fun _ _ => trivial
        · refine .bind (.any _) fun pteh => ?_
          dsimp only
          split
          · exact .bind (.any _) fun _ => walked_utlbInsert (pteUse_not_clean _ _ addr _)
          · exact walked_utlbInsert (pteUse_not_clean _ _ addr _)

/-- **The lookup finds what the walk has inserted,** and goes round no
more. -/
instance sound_doLookup (n : ℕ) : Stops P (doLookup c addr inD rnW priv (n + 1)) := by
  rw [doLookup]
  refine .seq_of sound_translateEA (fun s res t h => walked_translateEA.of_ok trivial h) ?_
  intro res s e t hw h
  cases res with
  | error f => cases h
  | ok r =>
    obtain ⟨pa, perms, hl, hclean⟩ := hw
    simp only [Prog.gets_bind_apply, hl, hclean, Bool.false_eq_true, if_false] at h
    split_ifs at h

/-- A translation asserts nothing: the second lookup finds what the walk has inserted. -/
instance sound_translateAddr : Stops P (translateAddr c addr inD rnW priv) := by
  unfold translateAddr
  refine .seq inferInstance fun m => ?_
  split <;> infer_instance

/-! ## Loads and stores -/

/-- A read at a host address. -/
instance sound_readPA (pa : HVA) : Stops P (readPA c size pa) := by
  unfold readPA
  cases size <;> infer_instance

/-- A write at a host address. -/
instance sound_writePA (pa : HVA) (val : BitVec 32) : Stops P (writePA c size pa val) := by
  unfold writePA
  cases size <;> infer_instance

/-- A load asserts nothing. -/
instance sound_load : Stops P (load c size addr priv) := by
  unfold load
  refine .seq inferInstance fun res => ?_
  split <;> infer_instance

/-- A store asserts nothing. -/
instance sound_store (val : BitVec 32) : Stops P (store c size addr val priv) := by
  unfold store
  refine .seq inferInstance fun res => ?_
  split <;> infer_instance

/-- A fetch asserts nothing. -/
instance sound_loadInst32 : Stops P (loadInst32 c addr priv) := by
  unfold loadInst32
  refine .seq inferInstance fun res => ?_
  split <;> infer_instance

end Mmu

end MrIss
