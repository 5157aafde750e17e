import MrIss.Mmu.Model
/-!
# What a walk computes

`route` says by which mechanism an address is translated and `resolve`
what the translation is, both as functions of the registers and of the
guest's memory. `translateEA` computes `resolve` and puts it in the uTLB;
everything said about translations is said of `resolve`.
-/

namespace MrIss

open EarlyReturn

namespace PagedBus

variable (B : PagedBus)

/-- A word of RAM as the guest sees it. -/
def word (mem : HostMem) (q : PA) : BitVec 32 :=
  match B.ramAt q with
  | some h => ByteMem.swap32 (ByteMem.read32 mem h)
  | none => 0

/-- Memory with a word of RAM replaced. -/
def putWord (mem : HostMem) (q : PA) (v : BitVec 32) : HostMem :=
  match B.ramAt q with
  | some h => ByteMem.write32 mem h (ByteMem.swap32 v)
  | none => mem

variable {B}

/-- RAM of a page is one piece of the host's memory. -/
theorem ramAt_add {q : PA} {h : HVA} {n : ℕ} (hq : q.toNat % 4096 + n < 4096)
    (hram : B.ramAt q = some h) :
    B.ramAt (q + BitVec.ofNat 32 n) = some (h + BitVec.ofNat 64 n) := by
  obtain ⟨d, r, hd, hr, rfl⟩ := ramAt_eq_some_iff.mp hram
  have hbase : Block.base 12 (q + BitVec.ofNat 32 n) = Block.base 12 q :=
    Block.base_add (by omega) (by omega)
  have hd' := deviceAt_page hd hr hbase
  refine ramAt_eq_some_iff.mpr ⟨d, r, hd', hr, BitVec.eq_of_toNat_eq ?_⟩
  obtain ⟨hq₁, hle, -⟩ := toNat_hostAddr hd hr
  obtain ⟨hq₂, -, -⟩ := toNat_hostAddr hd' hr
  have hlt := hostAddr_lt hd hr
  have hadd : (q + BitVec.ofNat 32 n).toNat = q.toNat + n := Block.toNat_add_of_lt (k := 12)
    (by omega) (by omega)
  rw [BitVec.toNat_add, BitVec.toNat_ofNat]
  omega

/-- A word of RAM is in RAM to its end, where the address is aligned. -/
theorem ramAt_add_four {q : PA} (hq : q.toNat % 8 = 0) {h : HVA} (hr : B.ramAt q = some h) :
    ∃ h', B.ramAt (q + 4) = some h' :=
  ⟨_, ramAt_add (n := 4) (by omega) hr⟩

theorem offset_two_ramAt {q : PA} (hq : q.toNat % 4 = 0) {h : HVA} (hr : B.ramAt q = some h) :
    Block.offset 2 h = 0#64 := by
  have := ramAt_offset hr
  apply BitVec.eq_of_toNat_eq
  rw [Block.toNat_offset, BitVec.toNat_zero]
  omega

/-- **A word replaced is the word read,** and no other aligned word
changes. -/
theorem word_putWord {mem : HostMem} {p q : PA} {v : BitVec 32} (hp : p.toNat % 4 = 0)
    (hq : q.toNat % 4 = 0) (hr : (B.ramAt p).isSome) :
    B.word (B.putWord mem p v) q = if q = p then v else B.word mem q := by
  obtain ⟨h, hh⟩ := Option.isSome_iff_exists.mp hr
  unfold putWord word
  split_ifs with heq
  · subst heq
    simp only [hh]
    rw [ByteMem.read32_write32 _ _ _ (by omega), ByteMem.swap32_swap32]
  · simp only [hh]
    cases hk : B.ramAt q with
    | none => rfl
    | some k =>
      have hne : k ≠ h := by
        rintro rfl
        exact heq (ramAt_inj hk hh)
      simp only
      rw [ByteMem.read32_write32_of_ne (by omega) (offset_two_ramAt hp hh)
        (offset_two_ramAt hq hk) hne]

end PagedBus

namespace Mmu

/-- How an address is translated. -/
inductive Route where
  /-- Not at all. -/
  | off
  /-- A BAT contains it and gives no access. -/
  | denied
  /-- By a BAT. -/
  | block (pa : PA) (perms : MmuPerms)
  /-- It is fetched from a no-execute segment. -/
  | noExecute
  /-- By a page-table entry. -/
  | page (pte : PA)
  /-- There is no entry for it. -/
  | noPage
  deriving DecidableEq, Repr

/-- The entry of the hash table for an address. -/
def pteFor (m : Mmu) (word : PA → BitVec 32) (addr : VA) : Option PA :=
  (m.pteSlots addr).findSome? fun slot =>
    if m.pteMatches addr slot.2 (word slot.1) then some slot.1 else none

/-- The route of an address where translation is on or off. -/
def route (m : Mmu) (word : PA → BitVec 32) (tr : Bool) (addr : VA) (inD priv : Bool) : Route :=
  if !tr then .off
  else match m.matchBAT addr inD priv with
    | some (pa, perms) => if !perms.r && !perms.w then .denied else .block pa perms
    | none =>
      if inD && (m.segOf addr).n then .noExecute
      else match m.pteFor word addr with
        | some pte => .page pte
        | none => .noPage

/-- What a translation gives: an address, permissions, and memory with R
and C of the entry set. -/
structure Fresh where
  pa : PA
  perms : MmuPerms
  mem : HostMem

/-- **What a walk computes.** -/
def resolve (c : Config) (m : Mmu) (mem : HostMem) (addr : VA) (inD rnW priv : Bool) :
    Except Fault Fresh :=
  match m.route (c.map.word mem) (m.enabled inD) addr inD priv with
  | .off => .ok ⟨addr, .any, mem⟩
  | .denied => .error .perms
  | .block pa perms => .ok ⟨pa, perms, mem⟩
  | .noExecute => .error .permsNX
  | .noPage => .error .noPage
  | .page pte =>
    let u := pteUse c.build (m.segOf addr) addr rnW priv (c.map.word mem (pte + 4))
    .ok ⟨u.addr, u.perms, match u.update with
      | some v => c.map.putWord mem (pte + 4) v
      | none => mem⟩

/-- The entries that a walk for the address may read are in RAM. -/
def TableInRam (B : PagedBus) (m : Mmu) (addr : VA) : Prop :=
  ∀ slot ∈ m.pteSlots addr, (B.ramAt slot.1).isSome

instance (B : PagedBus) (m : Mmu) (addr : VA) : Decidable (TableInRam B m addr) :=
  List.decidableBAll (fun slot : PA × BitVec 32 => (B.ramAt slot.1).isSome) (m.pteSlots addr)

/-- The table is in RAM for every walk an access may make. -/
def WalkInRam (B : PagedBus) (m : Mmu) (addr : VA) (inD priv : Bool) : Prop :=
  m.enabled inD = true → m.matchBAT addr inD priv = none → (inD && (m.segOf addr).n) = false →
    TableInRam B m addr

variable {c : Config}

/-- A PTEG starts at a multiple of its size. -/
theorem ptegAddr_low (m : Mmu) (hash : BitVec 32) : Block.offset 6 (m.ptegAddr hash) = 0#32 := by
  apply BitVec.eq_of_getLsbD_eq
  intro j _
  rw [Block.getLsbD_offset, ptegAddr]
  by_cases h6 : j < 6
  · simp [Block.getLsbD_of_offset_eq_zero m.htabPhys_low (show j < 16 by omega), h6]
  · simp [h6]

/-- Entries are eight bytes apart. -/
theorem slot_aligned {m : Mmu} {addr : VA} {slot : PA × BitVec 32}
    (h : slot ∈ m.pteSlots addr) : slot.1.toNat % 8 = 0 := by
  simp only [pteSlots, List.mem_flatMap, List.mem_map, List.mem_range] at h
  obtain ⟨⟨hash, wh⟩, -, i, -, rfl⟩ := h
  have h6 : (m.ptegAddr hash).toNat % 2 ^ 6 = 0 := by
    rw [← Block.toNat_offset, ptegAddr_low, BitVec.toNat_zero]
  simp only [BitVec.toNat_add, BitVec.toNat_ofNat]
  omega

/-- The search finds a slot. -/
theorem pteFor_mem {m : Mmu} {word : PA → BitVec 32} {addr : VA} {pte : PA}
    (h : m.pteFor word addr = some pte) : ∃ slot ∈ m.pteSlots addr, slot.1 = pte := by
  obtain ⟨slot, hs, hp⟩ := List.exists_of_findSome?_eq_some h
  refine ⟨slot, hs, ?_⟩
  split_ifs at hp
  simpa using hp

/-- The entry a walk finds is aligned and both its words are in RAM. -/
theorem pteFor_ram {m : Mmu} {word : PA → BitVec 32} {addr : VA} {pte : PA}
    (ht : TableInRam c.map m addr) (h : m.pteFor word addr = some pte) :
    pte.toNat % 8 = 0 ∧ (c.map.ramAt (pte + 4)).isSome ∧ (pte + 4).toNat % 8 = 4 := by
  obtain ⟨slot, hs, rfl⟩ := pteFor_mem h
  have h8 := slot_aligned hs
  obtain ⟨k, hk⟩ := Option.isSome_iff_exists.mp (ht slot hs)
  obtain ⟨k', hk'⟩ := PagedBus.ramAt_add_four h8 hk
  refine ⟨h8, by rw [hk']; rfl, ?_⟩
  rw [BitVec.toNat_add, show (4 : BitVec 32).toNat = 4 from rfl]
  omega

/-! ## The code computes it -/

theorem onBus_of_ok {α : Type} {x : SysM α} {s : Mem} {a : α} {t : Sys} (h : x s.sys = .ok a t) :
    onBus x s = .ok a { s with sys := t } := by
  simp [onBus, Prog.zoom, h]

theorem onBus_of_abort {α : Type} {x : SysM α} {s : Mem} {e : Abort} {t : Sys}
    (h : x s.sys = .abort e t) : onBus x s = .abort e { s with sys := t } := by
  simp [onBus, Prog.zoom, h]

/-- An insertion leads to the target of the guest address. -/
theorem utlbInsert_eq (inD priv : Bool) (addr : VA) (pa : PA) (perms : MmuPerms) (s : Mem) :
    (c.map.target pa = none ∧ utlbInsert c inD priv addr pa perms s = .abort (.busMiss pa) s) ∨
    ∃ h i, c.map.target pa = some h ∧ utlbInsert c inD priv addr pa perms s =
      .ok () ⟨s.mmu.utlbSet inD priv addr h perms, { s.sys with lastDev := i }⟩ := by
  rcases PagedBus.getDirectMap_eq (B := c.map) pa s.sys with ⟨hn, hg⟩ | ⟨h, o, i, hh, hg, ho⟩
  · exact .inl ⟨hn, by rw [utlbInsert, Prog.bind_of_abort (onBus_of_abort hg)]⟩
  · refine .inr ⟨h, i, hh, ?_⟩
    rw [utlbInsert, Prog.bind_of_ok (onBus_of_ok hg)]
    simp only [ho]
    rfl

/-- Reading a word of RAM through the bus. -/
theorem busRead32_eq {q : PA} (hq : (c.map.ramAt q).isSome) (s : Mem) :
    ∃ w i, onBus (c.map.bus.read32 c.io q) s =
        .ok w { s with sys := { s.sys with lastDev := i } } ∧
      ByteMem.swap32 w = c.map.word s.sys.mem q := by
  obtain ⟨h, hh⟩ := Option.isSome_iff_exists.mp hq
  obtain ⟨i, hi⟩ := PagedBus.read32_ramAt c.io hh s.sys
  exact ⟨_, i, onBus_of_ok hi, by simp [PagedBus.word, hh]⟩

/-- Writing one. -/
theorem busWrite32_eq {q : PA} (hq : (c.map.ramAt q).isSome) (v : BitVec 32) (s : Mem) :
    ∃ i, onBus (c.map.bus.write32 c.io q (ByteMem.swap32 v)) s =
      .ok () { s with sys := { s.sys with mem := c.map.putWord s.sys.mem q v, lastDev := i } } := by
  obtain ⟨h, hh⟩ := Option.isSome_iff_exists.mp hq
  obtain ⟨i, hi⟩ := PagedBus.write32_ramAt c.io hh (ByteMem.swap32 v) s.sys
  exact ⟨i, by rw [onBus_of_ok hi]; simp [PagedBus.putWord, hh]⟩

/-- The search of the table finds the entry for the address. -/
theorem findPte_eq {addr : VA} {s : Mem} (ht : TableInRam c.map s.mmu addr) :
    ∃ i, findPte c addr s = .ok (s.mmu.pteFor (c.map.word s.sys.mem) addr)
      { s with sys := { s.sys with lastDev := i } } := by
  obtain ⟨t, hrun, i, rfl⟩ := Prog.firstM_eq_findSome
    (K := fun t : Mem => ∃ i, t = { s with sys := { s.sys with lastDev := i } })
    (g := fun slot => if s.mmu.pteMatches addr slot.2 (c.map.word s.sys.mem slot.1) then
      some slot.1 else none)
    (f := fun slot => do
      let ptel ← onBus (c.map.bus.read32 c.io slot.1)
      pure (if s.mmu.pteMatches addr slot.2 (ByteMem.swap32 ptel) then some slot.1 else none))
    (l := s.mmu.pteSlots addr)
    (by
      rintro slot hslot t ⟨i, rfl⟩
      obtain ⟨w, j, hr, hw⟩ := busRead32_eq (c := c) (ht slot hslot)
        { s with sys := { s.sys with lastDev := i } }
      refine ⟨_, by rw [Prog.bind_of_ok hr, hw]; rfl, j, rfl⟩)
    s ⟨s.sys.lastDev, rfl⟩
  exact ⟨i, hrun⟩

variable {addr : VA} {inD rnW priv : Bool} {s : Mem}

/-! ### The walk -/

variable (c) in
/-- `translateEA` up to its call of `utlbInsert`. -/
def walk (addr : VA) (inD rnW priv : Bool) : MmuM (Except Fault (PA × MmuPerms)) := do
  let m ← Prog.gets Mem.mmu
  if !m.enabled inD then pure (.ok (addr, MmuPerms.any))
  else match m.matchBAT addr inD priv with
    | some (pa, perms) =>
      if !perms.r && !perms.w then pure (.error .perms) else pure (.ok (pa, perms))
    | none =>
      if inD && (m.segOf addr).n then pure (.error .permsNX)
      else match ← findPte c addr with
        | none => pure (.error .noPage)
        | some pte =>
          let pteh ← onBus (c.map.bus.read32 c.io (pte + 4))
          let u := pteUse c.build (m.segOf addr) addr rnW priv (ByteMem.swap32 pteh)
          match u.update with
          | some v => onBus (c.map.bus.write32 c.io (pte + 4) (ByteMem.swap32 v))
          | none => pure ()
          pure (.ok (u.addr, u.perms))

/-- What follows the walk. -/
theorem translateEA_eq : translateEA c addr inD rnW priv = (do
    match ← walk c addr inD rnW priv with
    | .error f => pure (.error f)
    | .ok (pa, perms) =>
      utlbInsert c inD priv addr pa perms
      pure (.ok (pa, perms))) := by
  unfold translateEA walk
  rw [Prog.bind_assoc]
  congr 1
  funext m
  by_cases hen : m.enabled inD = true
  case neg => simp [hen]
  simp only [hen, Bool.not_true, Bool.false_eq_true, if_false]
  cases m.matchBAT addr inD priv with
  | some bp =>
    obtain ⟨pa, perms⟩ := bp
    dsimp only
    split <;> rfl
  | none =>
    dsimp only
    split
    · rfl
    · rw [Prog.bind_assoc]
      congr 1
      funext o
      cases o with
      | none => rfl
      | some pte =>
        dsimp only
        rw [Prog.bind_assoc]
        congr 1
        funext pteh
        cases (pteUse c.build (m.segOf addr) addr rnW priv (ByteMem.swap32 pteh)).update with
        | none => rfl
        | some v => rw [Prog.bind_assoc]; rfl

/-- **The walk computes what it should,** with R and C of the entry set,
and changes nothing else. -/
theorem walk_eq (rnW : Bool) (hw : WalkInRam c.map s.mmu addr inD priv) :
    ∃ i, walk c addr inD rnW priv s = match resolve c s.mmu s.sys.mem addr inD rnW priv with
      | .error f => .ok (.error f) { s with sys := { s.sys with lastDev := i } }
      | .ok r => .ok (.ok (r.pa, r.perms))
          { s with sys := { s.sys with mem := r.mem, lastDev := i } } := by
  unfold walk resolve route
  simp only [Prog.gets_bind_apply]
  by_cases hen : s.mmu.enabled inD = true
  case neg =>
    simp only [hen, Bool.not_false, if_true]
    exact ⟨s.sys.lastDev, rfl⟩
  simp only [hen, Bool.not_true, Bool.false_eq_true, if_false]
  cases hb : s.mmu.matchBAT addr inD priv with
  | some bp =>
    obtain ⟨pa, perms⟩ := bp
    refine ⟨s.sys.lastDev, ?_⟩
    dsimp only
    split <;> rfl
  | none =>
    dsimp only
    by_cases hn : (inD && (s.mmu.segOf addr).n) = true
    · simp only [hn, if_true]
      exact ⟨s.sys.lastDev, rfl⟩
    · simp only [hn, Bool.false_eq_true, if_false]
      have ht := hw hen hb (by simpa using hn)
      obtain ⟨i, hf⟩ := findPte_eq ht
      rw [Prog.bind_of_ok hf]
      cases hq : s.mmu.pteFor (c.map.word s.sys.mem) addr with
      | none => exact ⟨i, rfl⟩
      | some pte =>
        obtain ⟨-, hram, -⟩ := pteFor_ram ht hq
        obtain ⟨w, j, hr, hword⟩ := busRead32_eq (c := c) hram
          { s with sys := { s.sys with lastDev := i } }
        simp only
        rw [Prog.bind_of_ok hr, hword]
        simp only
        cases (pteUse c.build (s.mmu.segOf addr) addr rnW priv
          (c.map.word s.sys.mem (pte + 4))).update with
        | none => exact ⟨j, rfl⟩
        | some v =>
          obtain ⟨l, hwr⟩ := busWrite32_eq (c := c) hram v
            { s with sys := { s.sys with lastDev := j } }
          simp only
          rw [Prog.bind_of_ok hwr]
          exact ⟨l, rfl⟩

/-- **Where the walk finds a fault, `translateEA` returns it** and changes
nothing. -/
theorem translateEA_of_error {f : Fault} (hw : WalkInRam c.map s.mmu addr inD priv)
    (h : resolve c s.mmu s.sys.mem addr inD rnW priv = .error f) :
    ∃ i, translateEA c addr inD rnW priv s =
      .ok (.error f) { s with sys := { s.sys with lastDev := i } } := by
  obtain ⟨i, hi⟩ := walk_eq rnW hw
  rw [h] at hi
  exact ⟨i, by rw [translateEA_eq, Prog.bind_of_ok hi]; rfl⟩

/-- **Where the walk finds a translation, `translateEA` puts it in the
uTLB,** with R and C of the entry set, unless no device answers the
translated address: then the process ends. -/
theorem translateEA_of_ok {r : Fresh} (hw : WalkInRam c.map s.mmu addr inD priv)
    (h : resolve c s.mmu s.sys.mem addr inD rnW priv = .ok r) :
    (c.map.target r.pa = none ∧
      ∃ t, translateEA c addr inD rnW priv s = .abort (.busMiss r.pa) t) ∨
    ∃ h i, c.map.target r.pa = some h ∧ translateEA c addr inD rnW priv s =
      .ok (.ok (r.pa, r.perms)) ⟨s.mmu.utlbSet inD priv addr h r.perms,
        { s.sys with mem := r.mem, lastDev := i }⟩ := by
  obtain ⟨i, hi⟩ := walk_eq rnW hw
  rw [h] at hi
  rw [translateEA_eq, Prog.bind_of_ok hi]
  dsimp only
  rcases utlbInsert_eq (c := c) inD priv addr r.pa r.perms
    { s with sys := { s.sys with mem := r.mem, lastDev := i } } with ⟨hn, ha⟩ | ⟨k, j, hk, hj⟩
  · exact .inl ⟨hn, _, by rw [Prog.bind_of_abort ha]⟩
  · exact .inr ⟨k, j, hk, by rw [Prog.bind_of_ok hj]; rfl⟩

end Mmu

end MrIss
