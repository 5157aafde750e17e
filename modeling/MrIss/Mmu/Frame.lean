import MrIss.Mmu.Lookup
/-!
# What an access leaves alone

Whatever the bus answers, an access changes the uTLB and what is behind
the MMU, and nothing else; with translation off it puts nothing in the
uTLB that would deny an access; and the faults it can return are few.
-/

namespace MrIss

open EarlyReturn

/-! ## Entries made with translation off -/

/-- Where an address leads with translation off: to the host's memory, or
to itself, marked. -/
def ToItself (addr : VA) (pa : HVA) : Prop :=
  Mmu.isDirect pa = true ∨
    Block.base 12 pa = Block.base 12 (addr.setWidth 64 ||| 1#64 <<< 63)

theorem toItself_page {a b : VA} {pa : HVA} (h : ToItself a pa)
    (hab : Block.base 12 b = Block.base 12 a) : ToItself b (Block.base 12 pa) := by
  rcases h with h | h
  · left
    unfold Mmu.isDirect at h ⊢
    rwa [Block.getLsbD_base, decide_eq_true (by decide : 12 ≤ 63), Bool.and_true]
  · right
    rw [Block.base_base, h, PagedBus.io_page hab, Block.base_join]

/-- RAM is in the host's memory. -/
theorem isDirect_of_ramAt {B : PagedBus} {addr : PA} {pa : HVA} (h : B.ramAt addr = some pa) :
    Mmu.isDirect pa = true := by
  obtain ⟨d, r, hd, hr, rfl⟩ := PagedBus.ramAt_eq_some_iff.mp h
  have hlt := PagedBus.hostAddr_lt hd hr
  rw [Mmu.isDirect, BitVec.getLsbD, Nat.testBit_lt_two_pow hlt]
  rfl

/-- The target of an address is such a place. -/
theorem toItself_of_target {B : PagedBus} {addr : PA} {pa : HVA} (h : B.target addr = some pa) :
    ToItself addr pa := by
  obtain ⟨d, hd, hpa⟩ := Option.map_eq_some_iff.mp h
  cases hr : d.dev with
  | ram r =>
    rw [hr] at hpa
    exact .inl (isDirect_of_ramAt (PagedBus.ramAt_eq_some_iff.mpr ⟨d, r, hd, hr, hpa⟩))
  | io =>
    rw [hr] at hpa
    subst hpa
    exact .inr rfl

/-- **An entry made with translation off** grants every access to the page
itself. -/
def Utlb.Straight (t : Utlb) : Prop :=
  ∀ addr, t.ea = tag addr false → t.getPerms = .any ∧ ToItself addr t.getPA

namespace Utlb

theorem straight_empty : (⟨0, 0⟩ : Utlb).Straight := fun addr h =>
  absurd h.symm (tag_ne_zero addr false)

theorem straight_set_on (addr : VA) (pa : HVA) (p : MmuPerms) : (set addr true pa p).Straight := by
  intro b h
  cases (tag_inj h).2

theorem straight_set_off {addr : VA} {pa : HVA} (h : ToItself addr pa) :
    (set addr false pa .any).Straight := by
  intro b htag
  rw [getPerms_set, getPA_set]
  exact ⟨rfl, toItself_page h (tag_inj htag).1.symm⟩

end Utlb

namespace Mmu

variable {c : Config} {addr : VA} {inD rnW priv : Bool} {size : Size}

/-- All the entries made with translation off are so. -/
def Straight (m : Mmu) : Prop := ∀ a i, (m.utlb a i).Straight

/-- A new entry leaves the others alone. -/
theorem Straight.utlbSet {m : Mmu} (h : m.Straight) {pa : HVA} {p : MmuPerms}
    (hnew : (Utlb.set addr (m.enabled inD) pa p).Straight) :
    (m.utlbSet inD priv addr pa p).Straight := by
  intro a i
  by_cases ha : a = selectUtlb inD priv
  · subst ha
    by_cases hi : i = addrToIdx addr
    · subst hi
      simpa [Mmu.utlbSet] using hnew
    · simpa [Mmu.utlbSet, hi] using h _ i
  · simpa [Mmu.utlbSet, ha] using h a i

/-- Where a side is invalidated, the other's entries stay. -/
theorem Straight.iutlbInv {m : Mmu} (h : m.Straight) : m.iutlbInv.Straight := fun a i =>
  match a with
  | .pi | .ui => Utlb.straight_empty
  | .pd | .ud => h _ i

theorem Straight.dutlbInv {m : Mmu} (h : m.Straight) : m.dutlbInv.Straight := fun a i =>
  match a with
  | .pi | .ui => h _ i
  | .pd | .ud => Utlb.straight_empty

theorem straight_flush (m : Mmu) : m.flush.Straight := fun a _ =>
  match a with
  | .pi | .ui | .pd | .ud => Utlb.straight_empty

theorem straight_construct (m : Mmu) : m.construct.Straight := fun _ _ => Utlb.straight_empty

/-- What changing a mapping does, or an access: IR and DR stay, and the
entries made with translation off stay straight. -/
structure Remaps (m m' : Mmu) : Prop where
  enabledI : m'.enabledI = m.enabledI
  enabledD : m'.enabledD = m.enabledD
  straight : m.Straight → m'.Straight

/-- The MMU but for its uTLB. -/
def registers (m : Mmu) : Mmu := { m with utlb := fun _ _ => ⟨0, 0⟩ }

theorem enabledI_of_registers {m m' : Mmu} (h : m'.registers = m.registers) :
    m'.enabledI = m.enabledI := by
  change m'.registers.enabledI = m.registers.enabledI
  rw [h]

theorem enabledD_of_registers {m m' : Mmu} (h : m'.registers = m.registers) :
    m'.enabledD = m.enabledD := by
  change m'.registers.enabledD = m.registers.enabledD
  rw [h]

theorem walkInRam_registers {B : PagedBus} {m m' : Mmu} (h : m'.registers = m.registers)
    (hw : WalkInRam B m addr inD priv) : WalkInRam B m' addr inD priv := by
  change WalkInRam B m'.registers addr inD priv
  rw [h]
  exact hw

/-- What a translation is made of: the bus is used, and the entry of the
address is put in the uTLB. -/
class Translates (F : Frame Mem) (c : Config) (addr : VA) (inD priv : Bool) : Prop where
  onBus {α : Type} (x : SysM α) : Keeps F (onBus x)
  utlbInsert (pa : PA) (perms : MmuPerms) : Keeps F (utlbInsert c inD priv addr pa perms)

section

variable {F : Frame Mem}

theorem keeps_findPte (hbus : ∀ {α : Type} (x : SysM α), Keeps F (onBus x)) :
    Keeps F (findPte c addr) := by
  unfold findPte
  infer_instance

variable [ht : Translates F c addr inD priv]

theorem Translates.translateEA : Keeps F (translateEA c addr inD rnW priv) := by
  have hbus {α : Type} (x : SysM α) : Keeps F (MrIss.onBus x) := ht.onBus x
  have hins (pa : PA) (perms : MmuPerms) : Keeps F (Mmu.utlbInsert c inD priv addr pa perms) :=
    ht.utlbInsert pa perms
  have hfind : Keeps F (findPte c addr) := keeps_findPte ht.onBus
  unfold Mmu.translateEA
  refine .seq inferInstance fun m => ?_
  split
  · infer_instance
  · split
    · infer_instance
    · split
      · infer_instance
      · refine .seq inferInstance fun o => ?_
        split
        · infer_instance
        · refine .seq inferInstance fun pteh => ?_
          dsimp only
          split <;> infer_instance

end

/-- What a walk keeps, the lookup loop keeps. -/
theorem keeps_doLookup {F : Frame Mem} (hwalk : Keeps F (translateEA c addr inD rnW priv)) (n : ℕ) :
    Keeps F (doLookup c addr inD rnW priv n) := by
  induction n with
  | zero => unfold doLookup; infer_instance
  | succ n ih =>
    unfold doLookup
    refine .seq inferInstance fun res => ?_
    split
    · infer_instance
    · refine .seq inferInstance fun m => ?_
      split <;> infer_instance

/-- **What a walk keeps, a translation keeps.** -/
theorem keeps_translateAddr_of {F : Frame Mem} (hwalk : Keeps F (translateEA c addr inD rnW priv)) :
    Keeps F (translateAddr c addr inD rnW priv) := by
  have hlook : Keeps F (doLookup c addr inD rnW priv 2) := keeps_doLookup hwalk 2
  unfold translateAddr
  refine .seq inferInstance fun m => ?_
  split <;> infer_instance

/-! ## The registers -/

/-- What an access does to an MMU: registers stay, and the entries made
with translation off stay straight. -/
structure Accessed (m m' : Mmu) : Prop where
  registers : m'.registers = m.registers
  straight : m.Straight → m'.Straight

theorem Accessed.trans {m m' m'' : Mmu} (h : m.Accessed m') (h' : m'.Accessed m'') :
    m.Accessed m'' :=
  ⟨h'.registers.trans h.registers, h'.straight ∘ h.straight⟩

/-- The frame of accesses. -/
def accessFrame : Frame Mem :=
  .always (fun s t => s.mmu.Accessed t.mmu) (fun _ => ⟨rfl, id⟩) Accessed.trans

/-- The same, where translation is on. -/
def accessOnFrame (inD : Bool) : Frame Mem :=
  .always (fun s t => s.mmu.enabled inD = true → s.mmu.Accessed t.mmu) (fun _ _ => ⟨rfl, id⟩)
    fun {s t _} h h' hon => by
      have hreg := (h hon).registers
      have hon' : t.mmu.enabled inD = true := by
        rwa [enabled, enabledI_of_registers hreg, enabledD_of_registers hreg]
      exact (h hon).trans (h' hon')

instance keeps_onBus {α : Type} (x : SysM α) : Keeps accessFrame (onBus x) :=
  .zoom (Keeps.any x) (fun _ _ _ => ⟨rfl, id⟩) (fun _ _ _ => ⟨rfl, id⟩) fun _ _ _ => ⟨rfl, id⟩

instance translates_on : Translates (accessOnFrame inD) c addr inD priv where
  onBus x := .zoom (Keeps.any x) (fun _ _ _ _ => ⟨rfl, id⟩) (fun _ _ _ _ => ⟨rfl, id⟩)
    fun _ _ _ _ => ⟨rfl, id⟩
  utlbInsert pa perms := by
    have hbus {α : Type} (x : SysM α) : Keeps (accessOnFrame inD) (onBus x) :=
      .zoom (Keeps.any x) (fun _ _ _ _ => ⟨rfl, id⟩) (fun _ _ _ _ => ⟨rfl, id⟩)
        fun _ _ _ _ => ⟨rfl, id⟩
    have : ∀ h : HVA, Keeps (accessOnFrame inD)
        (Prog.modify fun s : Mem => { s with mmu := s.mmu.utlbSet inD priv addr h perms } :
          MmuM Unit) := fun h => .modify fun s hon => ⟨rfl, fun hs => hs.utlbSet (by
            rw [hon]
            exact Utlb.straight_set_on addr h perms)⟩
    unfold utlbInsert
    infer_instance

/-- Where translation is off, a walk puts in the uTLB that the address
leads to itself. -/
instance keeps_utlbInsert_itself : Keeps accessFrame (utlbInsert c inD priv addr addr .any) where
  out s := by
    rcases utlbInsert_eq (c := c) inD priv addr addr .any s with ⟨-, hx⟩ | ⟨h, i, hh, hx⟩
    · rw [hx]
      exact ⟨rfl, id⟩
    · rw [hx]
      refine ⟨rfl, fun hs => hs.utlbSet ?_⟩
      cases s.mmu.enabled inD with
      | true => exact Utlb.straight_set_on addr h .any
      | false => exact Utlb.straight_set_off (toItself_of_target hh)

theorem keeps_translateEA : Keeps accessFrame (translateEA c addr inD rnW priv) where
  out s := by
    cases hon : s.mmu.enabled inD with
    | true =>
      have hwalk : Keeps (accessOnFrame inD) (translateEA c addr inD rnW priv) :=
        translates_on.translateEA
      have hout := hwalk.out s
      cases hx : translateEA c addr inD rnW priv s with
      | ok res t => rw [hx] at hout; exact hout hon
      | ret t => rw [hx] at hout; exact hout hon
      | abort e t => rw [hx] at hout; exact hout hon
    | false =>
      have hrun : translateEA c addr inD rnW priv s =
          (utlbInsert c inD priv addr addr .any >>= fun _ => pure (.ok (addr, .any))) s := by
        rw [translateEA, Prog.gets_bind_apply]
        simp only [hon, Bool.not_false, if_true]
      rw [hrun]
      exact Keeps.out s

instance keeps_translateAddr : Keeps accessFrame (translateAddr c addr inD rnW priv) :=
  keeps_translateAddr_of keeps_translateEA

instance keeps_readPA (pa : HVA) : Keeps accessFrame (readPA c size pa) := by
  unfold readPA
  infer_instance

instance keeps_writePA (pa : HVA) (val : BitVec 32) : Keeps accessFrame (writePA c size pa val) := by
  unfold writePA
  infer_instance

/-- **An access changes no register of the MMU.** -/
instance keeps_load : Keeps accessFrame (load c size addr priv) := by
  unfold load
  refine .seq inferInstance fun res => ?_
  split <;> infer_instance

instance keeps_store (val : BitVec 32) : Keeps accessFrame (store c size addr val priv) := by
  unfold store
  refine .seq inferInstance fun res => ?_
  split <;> infer_instance

instance keeps_loadInst32 : Keeps accessFrame (loadInst32 c addr priv) := by
  unfold loadInst32
  refine .seq inferInstance fun res => ?_
  split <;> infer_instance

/-! ## The other entries -/

/-- What entries of the uTLB are looked up by, and those at other places
than an address's. -/
def othersFrame (addr : VA) : Frame Mem := .same fun s =>
  (s.mmu.enabledI, s.mmu.enabledD, fun a i => if i = addrToIdx addr then ⟨0, 0⟩ else s.mmu.utlb a i)

instance translates_others : Translates (othersFrame addr) c addr inD priv where
  onBus x := .zoom (Keeps.any x) (fun _ _ _ => rfl) (fun _ _ _ => rfl) fun _ _ _ => rfl
  utlbInsert pa perms := by
    have hbus {α : Type} (x : SysM α) : Keeps (othersFrame addr) (onBus x) :=
      .zoom (Keeps.any x) (fun _ _ _ => rfl) (fun _ _ _ => rfl) fun _ _ _ => rfl
    have : ∀ h : HVA, Keeps (othersFrame addr)
        (Prog.modify fun s : Mem => { s with mmu := s.mmu.utlbSet inD priv addr h perms } :
          MmuM Unit) := fun h => .modify fun s => by
      refine Prod.ext rfl (Prod.ext rfl ?_)
      funext a i
      by_cases hi : i = addrToIdx addr
      · simp [hi]
      · simp only [hi, if_false, utlbSet]
        by_cases ha : a = selectUtlb inD priv
        · subst ha
          rw [Function.update_self, Function.update_of_ne hi]
        · rw [Function.update_of_ne ha]
    unfold utlbInsert
    infer_instance

/-- **A translation leaves the entries at other places alone.** -/
theorem utlbLookup_translateAddr {s t : Mem} {res : Except Fault HVA} {b : VA} {i p : Bool}
    (h : translateAddr c addr inD rnW priv s = .ok res t) (hb : addrToIdx b ≠ addrToIdx addr) :
    t.mmu.utlbLookup i p b = s.mmu.utlbLookup i p b := by
  have hsame : (t.mmu.enabledI, t.mmu.enabledD, fun a j => if j = addrToIdx addr then (⟨0, 0⟩ : Utlb)
      else t.mmu.utlb a j) = (s.mmu.enabledI, s.mmu.enabledD, fun a j =>
        if j = addrToIdx addr then (⟨0, 0⟩ : Utlb) else s.mmu.utlb a j) :=
    (keeps_translateAddr_of (translates_others (c := c)).translateEA).of_ok h
  simp only [Prod.mk.injEq] at hsame
  obtain ⟨hI, hD, hu⟩ := hsame
  have hentry (a : UtlbArray) : t.mmu.utlb a (addrToIdx b) = s.mmu.utlb a (addrToIdx b) := by
    have := congrFun (congrFun hu a) (addrToIdx b)
    simpa [hb] using this
  have hon : t.mmu.enabled i = s.mmu.enabled i := by
    rw [enabled, enabled, hI, hD]
  rw [utlbLookup, utlbLookup, hentry, hon]

/-! ## Faults -/

/-- The faults of a translation. -/
def TranslationFault (inD : Bool) (f : Fault) : Prop :=
  f = .perms ∨ f = .noPage ∨ f = .permsNX ∧ inD = true

/-- The faults of a data access. -/
def DataFault (f : Fault) : Prop := f = .perms ∨ f = .noPage ∨ f = .align

theorem DataFault.of_translation {f : Fault} (h : TranslationFault false f) : DataFault f := by
  rcases h with h | h | ⟨-, h⟩
  · exact .inl h
  · exact .inr (.inl h)
  · cases h

/-- A result has only faults of a kind. -/
def FaultsIn {α : Type} (P : Fault → Prop) (res : Except Fault α) : Prop :=
  ∀ f, res = .error f → P f

theorem FaultsIn.ok {α : Type} {P : Fault → Prop} (a : α) : FaultsIn P (.ok a) := by
  rintro f ⟨⟩

theorem FaultsIn.error {α : Type} {P : Fault → Prop} {f : Fault} (h : P f) :
    FaultsIn P (.error f : Except Fault α) := by
  rintro g ⟨⟩
  exact h

theorem translateEA_faults : Returns (FaultsIn (TranslationFault inD))
    (translateEA c addr inD rnW priv) := by
  unfold translateEA
  refine .bind fun m => ?_
  split
  · exact .bind fun _ => .pure (.ok _)
  · split
    · split
      · exact .pure (.error (.inl rfl))
      · exact .bind fun _ => .pure (.ok _)
    · split
      case isTrue h =>
        rw [Bool.and_eq_true] at h
        exact .pure (.error (.inr (.inr ⟨rfl, h.1⟩)))
      case isFalse =>
        refine .bind fun o => ?_
        split
        · exact .pure (.error (.inr (.inl rfl)))
        · refine .bind fun pteh => ?_
          dsimp only
          split
          · exact .bind fun _ => .bind fun _ => .pure (.ok _)
          · exact .bind fun _ => .pure (.ok _)

theorem doLookup_faults (n : ℕ) : Returns (FaultsIn (TranslationFault inD))
    (doLookup c addr inD rnW priv n) := by
  induction n with
  | zero => exact .abort _
  | succ n ih =>
    unfold doLookup
    refine .bind_of translateEA_faults fun res hres => ?_
    split
    · exact .pure (.error (hres _ rfl))
    · refine .bind fun m => ?_
      split
      · exact .abort _
      · split_ifs
        · exact .pure (.ok _)
        · exact ih
        · exact .pure (.error (.inl rfl))

/-- **The faults of a translation** are a missing page, missing rights,
and for a fetch a no-execute segment. -/
theorem translateAddr_faults : Returns (FaultsIn (TranslationFault inD))
    (translateAddr c addr inD rnW priv) := by
  unfold translateAddr
  refine .bind fun m => ?_
  split
  · exact doLookup_faults 2
  · split_ifs
    · exact .pure (.ok _)
    · exact doLookup_faults 2
    · exact .pure (.error (.inl rfl))

theorem load_faults : Returns (FaultsIn DataFault) (load c size addr priv) := by
  unfold load
  refine .bind_of translateAddr_faults fun res hres => ?_
  split
  · exact .pure (.error (.of_translation (hres _ rfl)))
  · refine .bind fun v => ?_
    split_ifs
    · exact .pure (.error (.inr (.inr rfl)))
    · exact .pure (.ok _)

theorem store_faults (val : BitVec 32) :
    Returns (FaultsIn DataFault) (store c size addr val priv) := by
  unfold store
  refine .bind_of translateAddr_faults fun res hres => ?_
  split
  · exact .pure (.error (.of_translation (hres _ rfl)))
  · refine .bind fun v => ?_
    split_ifs
    · exact .pure (.error (.inr (.inr rfl)))
    · exact .pure (.ok _)

theorem loadInst32_faults :
    Returns (FaultsIn (TranslationFault true)) (loadInst32 c addr priv) := by
  unfold loadInst32
  refine .bind_of translateAddr_faults fun res hres => ?_
  split
  · exact .pure (.error (hres _ rfl))
  · exact .bind fun _ => .pure (.ok _)

end Mmu

end MrIss
