import Mathlib.Data.Fin.Basic
import MrIss.Mmu.Uncached
/-!
# The associative uTLB

A `PPCMMU` built with the associative header: four arrays of eight
entries, of which a lookup takes the first that matches, and one index,
shared by all of them, that an insertion fills and moves on. A page may
have several entries, and an older one may hide the one just made: the
lookup loop then goes round until the index has come to the front.
-/

namespace MrIss

open EarlyReturn

/-- An MMU with the associative header. The arrays of `regs` are the other
header's and are not used. -/
structure Assoc where
  regs : Mmu
  sys : Sys
  utlb : UtlbArray → Fin 8 → Utlb
  /-- The static `utlb_idx`. -/
  utlbIdx : Fin 8

/-- A statement of it. -/
abbrev AssocM : Type → Type := Prog Abort Assoc

namespace Assoc

open Mmu

/-- What both headers share. -/
def mem (a : Assoc) : Mem := ⟨a.regs, a.sys⟩

/-- A statement that uses no uTLB. -/
def onMem {α : Type} : MmuM α → AssocM α :=
  Prog.zoom mem fun a t => { a with regs := t.mmu, sys := t.sys }

def iutlbInv (a : Assoc) : Assoc :=
  { a with utlb := fun arr => match arr with
    | .pi | .ui => fun _ => ⟨0, 0⟩
    | .pd | .ud => a.utlb arr }

def dutlbInv (a : Assoc) : Assoc :=
  { a with utlb := fun arr => match arr with
    | .pi | .ui => a.utlb arr
    | .pd | .ud => fun _ => ⟨0, 0⟩ }

/-- The entry that a lookup takes. -/
def findEntry (a : Assoc) (inD priv : Bool) (addr : VA) : Option Utlb :=
  ((List.finRange 8).find? fun i =>
    decide ((a.utlb (selectUtlb inD priv) i).ea = Utlb.tag addr (a.regs.enabled inD))).map
      (a.utlb (selectUtlb inD priv))

def utlbLookup (a : Assoc) (inD priv : Bool) (addr : VA) : Option (HVA × MmuPerms) :=
  (a.findEntry inD priv addr).map fun t =>
    (t.getPA ||| Block.offset 12 (addr.setWidth 64), t.getPerms)

/-- Puts an entry in the uTLB. -/
def utlbSet (a : Assoc) (inD priv : Bool) (addr : VA) (pa : HVA) (perms : MmuPerms) : Assoc :=
  { a with
    utlb := Function.update a.utlb (selectUtlb inD priv)
      (Function.update (a.utlb (selectUtlb inD priv)) a.utlbIdx
        (Utlb.set addr (a.regs.enabled inD) pa perms))
    utlbIdx := a.utlbIdx + 1 }

section

variable (c : Config)

def utlbInsert (inD priv : Bool) (addr : VA) (outAddr : PA) (perms : MmuPerms) : AssocM Unit := do
  let hostAddr ← onMem (onBus (c.map.bus.getDirectMap outAddr))
  let pa := hostAddr.getD (outAddr.setWidth 64 ||| 1#64 <<< 63)
  Prog.modify fun a => a.utlbSet inD priv addr pa perms

def translateEA (addr : VA) (inD rnW priv : Bool) : AssocM (Except Fault (PA × MmuPerms)) := do
  match ← onMem (walk c addr inD rnW priv) with
  | .error f => pure (.error f)
  | .ok (pa, perms) =>
    utlbInsert c inD priv addr pa perms
    pure (.ok (pa, perms))

/-- `translateAddr` from its label `do_lookup` on; `fuel` bounds how often
it walks. -/
def doLookup (addr : VA) (inD rnW priv : Bool) : ℕ → AssocM (Except Fault HVA)
  | 0 => Prog.abort .lookupLoop
  | fuel + 1 => do
    match ← translateEA c addr inD rnW priv with
    | .error f => pure (.error f)
    | .ok _ =>
      let a ← Prog.get
      match a.utlbLookup inD priv addr with
      | none => Prog.abort (.tlbMissAfterInsert addr)
      | some (pa, perms) =>
        if checkPerms c.build perms rnW inD then pure (.ok pa)
        else if checkFaultWasCleanliness c.build perms rnW inD then
          doLookup addr inD rnW priv fuel
        else pure (.error .perms)

/-- `translateAddr`, with at most eight walks. -/
def translateAddr (addr : VA) (inD rnW priv : Bool) : AssocM (Except Fault HVA) := do
  let a ← Prog.get
  match a.utlbLookup inD priv addr with
  | none => doLookup c addr inD rnW priv 8
  | some (pa, perms) =>
    if checkPerms c.build perms rnW inD then pure (.ok pa)
    else if checkFaultWasCleanliness c.build perms rnW inD then
      doLookup c addr inD rnW priv 8
    else pure (.error .perms)

end

/-- A constructed MMU; `utlb_idx` is static, and an MMU constructed before
may have moved it. -/
def construct (m : Mmu) (sys : Sys) (utlbIdx : Fin 8) : Assoc :=
  ⟨m.construct, sys, fun _ _ => ⟨0, 0⟩, utlbIdx⟩

/-- The operations on the registers invalidate as they do with the other
header. -/
def map (a : Assoc) (op : MapOp) : Assoc :=
  let a' := { a with regs := op.apply a.regs }
  match op with
  | .setSDR1 _ | .setSegmentReg _ _ | .tlbie | .tlbia => a'.iutlbInv.dutlbInv
  | .setIBATupper _ _ | .setIBATlower _ _ => a'.iutlbInv
  | .setDBATupper _ _ | .setDBATlower _ _ => a'.dutlbInv
  | .setIRDR _ _ => a'

/-! ## Coherence -/

variable {c : Config} {addr : VA} {inD rnW priv : Bool} {a : Assoc}

/-- **Every entry is backed.** -/
def Coherent (c : Config) (a : Assoc) : Prop :=
  ∀ inD priv i, ∃ idx, EntryBacked c a.regs a.sys.mem inD priv idx
    (a.utlb (selectUtlb inD priv) i)

theorem coherent_of_empty (h : ∀ arr i, a.utlb arr i = ⟨0, 0⟩) : Coherent c a := by
  intro inD priv i
  rw [h]
  exact ⟨0, entryBacked_clear⟩

/-- A write of the registers of one side. -/
theorem coherent_of_side {a' : Assoc} (side : Bool) (h : Coherent c a)
    (hsys : a'.sys.mem = a.sys.mem)
    (hclear : ∀ priv i, a'.utlb (selectUtlb side priv) i = ⟨0, 0⟩)
    (hkeep : ∀ priv i, a'.utlb (selectUtlb (!side) priv) i = a.utlb (selectUtlb (!side) priv) i)
    (hsame : SameSide (!side) a.regs a'.regs) : Coherent c a' := by
  intro inD priv i
  by_cases hs : inD = side
  · subst hs
    rw [hclear]
    exact ⟨0, entryBacked_clear⟩
  · have : inD = !side := by cases inD <;> cases side <;> simp at hs ⊢
    subst this
    obtain ⟨idx, hb⟩ := h (!side) priv i
    rw [hkeep, hsys]
    exact ⟨idx, hb.mono fun _ _ _ _ hb => hsame.backed hb⟩

theorem coherent_map (h : Coherent c a) (op : MapOp) : Coherent c (a.map op) := by
  cases op with
  | setSDR1 val => exact coherent_of_empty fun arr i => by cases arr <;> rfl
  | setSegmentReg sr val => exact coherent_of_empty fun arr i => by cases arr <;> rfl
  | tlbie => exact coherent_of_empty fun arr i => by cases arr <;> rfl
  | tlbia => exact coherent_of_empty fun arr i => by cases arr <;> rfl
  | setIRDR ir dr =>
    intro inD priv i
    obtain ⟨idx, hb⟩ := h inD priv i
    exact ⟨idx, hb.mono fun _ _ _ _ hb =>
      SameSide.backed ⟨by cases inD <;> rfl, rfl, rfl, rfl⟩ hb⟩
  | setIBATupper bat val =>
    exact coherent_of_side true h rfl (fun p _ => by cases p <;> rfl)
      (fun p _ => by cases p <;> rfl) ⟨rfl, rfl, rfl, rfl⟩
  | setIBATlower bat val =>
    exact coherent_of_side true h rfl (fun p _ => by cases p <;> rfl)
      (fun p _ => by cases p <;> rfl) ⟨rfl, rfl, rfl, rfl⟩
  | setDBATupper bat val =>
    exact coherent_of_side false h rfl (fun p _ => by cases p <;> rfl)
      (fun p _ => by cases p <;> rfl) ⟨rfl, rfl, rfl, rfl⟩
  | setDBATlower bat val =>
    exact coherent_of_side false h rfl (fun p _ => by cases p <;> rfl)
      (fun p _ => by cases p <;> rfl) ⟨rfl, rfl, rfl, rfl⟩

/-- **A walk keeps the uTLB coherent.** -/
theorem coherent_walk {r : Fresh} {h : HVA} {i : ℕ} (hs : Coherent c a)
    (hw : WalkInRam c.map a.regs addr inD priv)
    (hr : resolve c a.regs a.sys.mem addr inD rnW priv = .ok r) (ht : c.map.target r.pa = some h) :
    Coherent c ({ a with sys := { a.sys with mem := r.mem, lastDev := i } }.utlbSet inD priv addr h
      r.perms) := by
  have hkeep (inD' priv' : Bool) (j : Fin 8) : ∃ idx, EntryBacked c a.regs r.mem inD' priv' idx
      (a.utlb (selectUtlb inD' priv') j) := by
    obtain ⟨idx, hb⟩ := hs inD' priv' j
    exact ⟨idx, hb.mono fun _ _ _ _ hb => hb.walk hw hr⟩
  intro inD' priv' j
  by_cases harr : selectUtlb inD' priv' = selectUtlb inD priv
  · obtain ⟨rfl, rfl⟩ := selectUtlb_inj harr
    simp only [utlbSet, Function.update_self]
    by_cases hj : j = a.utlbIdx
    · subst hj
      rw [Function.update_self]
      exact ⟨addrToIdx addr, .inr ⟨addr, _, r.pa, h, r.perms, rfl, rfl, ht, resolve_offset hr,
        backed_of_resolve hw hr⟩⟩
    · rw [Function.update_of_ne hj]
      exact hkeep inD' priv' j
  · simp only [utlbSet, Function.update_of_ne harr]
    exact hkeep inD' priv' j

theorem coherent_outside {sys : Sys} (hs : Coherent c a)
    (h : TableSame c.map a.regs a.sys.mem sys.mem) : Coherent c { a with sys := sys } := by
  intro inD priv i
  obtain ⟨idx, hb⟩ := hs inD priv i
  exact ⟨idx, hb.mono fun _ _ _ _ hb => hb.tableSame h⟩

/-! ## Lookups -/

/-- A lookup takes an entry of the page. -/
theorem findEntry_spec {t : Utlb} (h : a.findEntry inD priv addr = some t) :
    t.ea = Utlb.tag addr (a.regs.enabled inD) ∧ ∃ i, a.utlb (selectUtlb inD priv) i = t := by
  obtain ⟨i, hi, rfl⟩ := Option.map_eq_some_iff.mp h
  exact ⟨by simpa using List.find?_some hi, i, rfl⟩

section

variable (h : HVA) (p : MmuPerms)

theorem utlbSet_entry : (a.utlbSet inD priv addr h p).utlb (selectUtlb inD priv) a.utlbIdx =
    Utlb.set addr (a.regs.enabled inD) h p := by
  simp [utlbSet]

/-- After an insertion a lookup finds some entry. -/
theorem findEntry_utlbSet : ∃ t, (a.utlbSet inD priv addr h p).findEntry inD priv addr = some t := by
  refine Option.isSome_iff_exists.mp ?_
  rw [findEntry, Option.isSome_map, List.find?_isSome]
  exact ⟨a.utlbIdx, List.mem_finRange _, by rw [utlbSet_entry]; exact decide_eq_true rfl⟩

/-- It finds the one just made, if that is at the front. -/
theorem findEntry_utlbSet_zero (h0 : a.utlbIdx = 0) :
    (a.utlbSet inD priv addr h p).findEntry inD priv addr =
      some (Utlb.set addr (a.regs.enabled inD) h p) := by
  have hset : (a.utlbSet inD priv addr h p).utlb (selectUtlb inD priv) a.utlbIdx =
      Utlb.set addr (a.regs.enabled inD) h p := utlbSet_entry h p
  rw [h0] at hset
  have hfront : List.finRange 8 = 0 :: (List.finRange 8).tail := rfl
  rw [findEntry, hfront, List.find?_cons_of_pos, Option.map_some, hset]
  rw [hset]
  exact decide_eq_true rfl

end

/-! ## The lookup loop -/

theorem onMem_of_ok {α : Type} {x : MmuM α} {v : α} {t : Mem} (h : x a.mem = .ok v t) :
    onMem x a = .ok v { a with regs := t.mmu, sys := t.sys } := by
  simp [onMem, Prog.zoom, h]

theorem onMem_of_abort {α : Type} {x : MmuM α} {e : Abort} {t : Mem} (h : x a.mem = .abort e t) :
    onMem x a = .abort e { a with regs := t.mmu, sys := t.sys } := by
  simp [onMem, Prog.zoom, h]

/-- What `translateEA` does. -/
theorem translateEA_cases (rnW : Bool) (hw : WalkInRam c.map a.regs addr inD priv) :
    (∃ f i, resolve c a.regs a.sys.mem addr inD rnW priv = .error f ∧
      translateEA c addr inD rnW priv a =
        .ok (.error f) { a with sys := { a.sys with lastDev := i } }) ∨
    (∃ r t, resolve c a.regs a.sys.mem addr inD rnW priv = .ok r ∧ c.map.target r.pa = none ∧
      translateEA c addr inD rnW priv a = .abort (.busMiss r.pa) t) ∨
    ∃ r h i, resolve c a.regs a.sys.mem addr inD rnW priv = .ok r ∧
      c.map.target r.pa = some h ∧ translateEA c addr inD rnW priv a =
        .ok (.ok (r.pa, r.perms))
          ({ a with sys := { a.sys with mem := r.mem, lastDev := i } }.utlbSet inD priv addr h
            r.perms) := by
  obtain ⟨i, hi⟩ := walk_eq (s := a.mem) rnW hw
  cases hr : resolve c a.regs a.sys.mem addr inD rnW priv with
  | error f =>
    rw [mem, hr] at hi
    refine .inl ⟨f, i, rfl, ?_⟩
    rw [translateEA, Prog.bind_of_ok (onMem_of_ok hi)]
    rfl
  | ok r =>
    rw [mem, hr] at hi
    right
    rw [translateEA, Prog.bind_of_ok (onMem_of_ok hi)]
    dsimp only
    let b : Assoc := { a with sys := { a.sys with mem := r.mem, lastDev := i } }
    rcases PagedBus.getDirectMap_eq (B := c.map) r.pa b.sys with ⟨hn, hg⟩ | ⟨h, o, j, hh, hg, ho⟩
    · refine .inl ⟨r, b, rfl, hn, ?_⟩
      rw [utlbInsert, Prog.bind_assoc]
      exact Prog.bind_of_abort (onMem_of_abort (a := b) (onBus_of_abort hg))
    · refine .inr ⟨r, h, j, rfl, hh, ?_⟩
      have hrun : onMem (onBus (c.map.bus.getDirectMap r.pa)) b =
          .ok o { b with sys := { b.sys with lastDev := j } } :=
        onMem_of_ok (a := b) (onBus_of_ok hg)
      rw [utlbInsert, Prog.bind_assoc, Prog.bind_of_ok hrun]
      simp only [ho]
      rfl

/-- A call answers as a walk does; where it returns, the registers are as
they were and the uTLB is coherent. -/
structure Answered (c : Config) (a : Assoc) (addr : VA) (inD rnW priv : Bool)
    (o : Out Abort Assoc (Except Fault HVA)) : Prop where
  answers : Answers c a.regs a.sys.mem addr inD rnW priv (fun t => t.sys.mem) o
  kept : ∀ res t, o = .ok res t → t.regs = a.regs ∧ Coherent c t

/-- A result that is returned at once. -/
theorem Answered.pure {res : Except Fault HVA} {t : Assoc}
    (h : Answers c a.regs a.sys.mem addr inD rnW priv (fun t => t.sys.mem) (.ok res t))
    (hregs : t.regs = a.regs) (ht : Coherent c t) :
    Answered c a addr inD rnW priv (.ok res t) := by
  refine ⟨h, fun _ _ ho => ?_⟩
  cases ho
  exact ⟨hregs, ht⟩

/-- What is answered after a walk is answered before it. -/
theorem Answered.of_walk {b : Assoc} {r : Fresh} {o : Out Abort Assoc (Except Fault HVA)}
    (hw : WalkInRam c.map a.regs addr inD priv) (hfetch : inD = true → rnW = true)
    (hr : resolve c a.regs a.sys.mem addr inD rnW priv = .ok r) (hregs : b.regs = a.regs)
    (hmem : b.sys.mem = r.mem) (h : Answered c b addr inD rnW priv o) :
    Answered c a addr inD rnW priv o := by
  obtain ⟨hans, hkept⟩ := h
  rw [hregs, hmem] at hans
  refine ⟨hans.of_walk hw hfetch hr, fun res t ho => ?_⟩
  rw [← hregs]
  exact hkept res t ho

/-- What a lookup finds in a coherent uTLB, where it is not held up by C
alone, is the answer. -/
theorem answered_of_found {t : Utlb} (hs : Coherent c a) (hfetch : inD = true → rnW = true)
    (hl : a.findEntry inD priv addr = some t)
    (hclean : checkFaultWasCleanliness c.build t.getPerms rnW inD = false) :
    Answered c a addr inD rnW priv
      (.ok (if checkPerms c.build t.getPerms rnW inD then
        .ok (t.getPA ||| Block.offset 12 (addr.setWidth 64)) else .error .perms) a) := by
  obtain ⟨hea, i, hi⟩ := findEntry_spec hl
  obtain ⟨idx, hb⟩ := hs inD priv i
  rw [hi] at hb
  obtain ⟨pa, hback, hva⟩ := hb.hit hea
  rw [hva]
  exact .pure (answers_of_used rfl hback hfetch hclean) rfl hs

/-- What follows a lookup that hits: the entry is used, or another walk is
made for its C bit. -/
theorem answered_of_hit {t : Utlb} {x y : AssocM (Except Fault HVA)} (hs : Coherent c a)
    (hfetch : inD = true → rnW = true) (hl : a.findEntry inD priv addr = some t)
    (hy : checkFaultWasCleanliness c.build t.getPerms rnW inD = true →
      Answered c a addr inD rnW priv (y a)) :
    Answered c a addr inD rnW priv ((do
      let a ← Prog.get
      match a.utlbLookup inD priv addr with
      | none => x
      | some (pa, perms) =>
        if checkPerms c.build perms rnW inD then pure (.ok pa)
        else if checkFaultWasCleanliness c.build perms rnW inD then y
        else pure (.error .perms) : AssocM (Except Fault HVA)) a) := by
  rw [Prog.get_bind_apply, utlbLookup, hl]
  have hfound := answered_of_found hs hfetch hl
  simp only [Option.map_some]
  by_cases hc : checkPerms c.build t.getPerms rnW inD = true
  · simp only [hc, if_true] at hfound ⊢
    exact hfound (not_clean_of_checkPerms hc)
  · simp only [hc, Bool.false_eq_true, if_false] at hfound ⊢
    by_cases hd : checkFaultWasCleanliness c.build t.getPerms rnW inD = true
    · rw [if_pos hd]
      exact hy hd
    · rw [if_neg hd]
      exact hfound (by simpa using hd)

/-- One round of the loop. Where the index is at the front the entry just
made is found, and its walk has left it fit for the access; elsewhere an
older one may hide it, and there is another round. -/
theorem answered_of_walk {n : ℕ} (hs : Coherent c a) (hw : WalkInRam c.map a.regs addr inD priv)
    (hfetch : inD = true → rnW = true)
    (hnext : ∀ b : Assoc, a.utlbIdx ≠ 0 → b.utlbIdx = a.utlbIdx + 1 → Coherent c b →
      WalkInRam c.map b.regs addr inD priv →
      Answered c b addr inD rnW priv (doLookup c addr inD rnW priv n b)) :
    Answered c a addr inD rnW priv (doLookup c addr inD rnW priv (n + 1) a) := by
  rw [doLookup]
  rcases translateEA_cases rnW hw with ⟨f, i, hr, he⟩ | ⟨r, t, hr, hn, he⟩ | ⟨r, h, i, hr, ht, he⟩
  · rw [Prog.bind_of_ok he]
    exact .pure (answers_error hr rfl) rfl hs
  · rw [Prog.bind_of_abort he]
    refine ⟨answers_miss hr hn, fun _ _ ho => ?_⟩
    cases ho
  · rw [Prog.bind_of_ok he]
    let a' : Assoc := { a with sys := { a.sys with mem := r.mem, lastDev := i } }
    let b := a'.utlbSet inD priv addr h r.perms
    have hb : Coherent c b := coherent_walk hs hw hr ht
    obtain ⟨t, hl⟩ : ∃ t, b.findEntry inD priv addr = some t := findEntry_utlbSet h r.perms
    have hagain (hclean : checkFaultWasCleanliness c.build t.getPerms rnW inD = true) :
        Answered c b addr inD rnW priv (doLookup c addr inD rnW priv n b) := by
      refine hnext b (fun h0 => ?_) rfl hb hw
      have hfront : b.findEntry inD priv addr =
          some (Utlb.set addr (a.regs.enabled inD) h r.perms) := findEntry_utlbSet_zero h r.perms h0
      rw [hl] at hfront
      cases hfront
      rw [Utlb.getPerms_set, resolve_not_clean hr] at hclean
      cases hclean
    exact .of_walk (b := b) hw hfetch hr rfl rfl (answered_of_hit hb hfetch hl hagain)

/-- **The lookup loop ends,** after one walk more than the index has steps
to the front. A walk whose entry is hidden by an older one goes round
again; with the index at the front the entry just made is found, and its
walk has left it fit for the access. -/
theorem doLookup_answered (hfetch : inD = true → rnW = true) (n : ℕ) : ∀ {a : Assoc},
    (8 - a.utlbIdx.val) % 8 ≤ n → Coherent c a → WalkInRam c.map a.regs addr inD priv →
      Answered c a addr inD rnW priv (doLookup c addr inD rnW priv (n + 1) a) := by
  induction n with
  | zero =>
    intro a hidx hs hw
    refine answered_of_walk hs hw hfetch fun _ hne => absurd (Fin.ext ?_) hne
    exact (by omega : a.utlbIdx.val = 0)
  | succ n ih =>
    intro a hidx hs hw
    refine answered_of_walk hs hw hfetch fun b hne hnext hb hwb => ih ?_ hb hwb
    have hval : b.utlbIdx.val = (a.utlbIdx.val + 1) % 8 := by rw [hnext, Fin.val_add]; rfl
    have hpos : a.utlbIdx.val ≠ 0 := fun h0 => hne (Fin.ext h0)
    omega

/-- **`translateAddr` answers as a walk does,** and within eight walks. -/
theorem translateAddr_answered (hs : Coherent c a) (hw : WalkInRam c.map a.regs addr inD priv)
    (hfetch : inD = true → rnW = true) :
    Answered c a addr inD rnW priv (translateAddr c addr inD rnW priv a) := by
  have hwalk : Answered c a addr inD rnW priv (doLookup c addr inD rnW priv 8 a) :=
    doLookup_answered hfetch 7 (by omega) hs hw
  cases hl : a.findEntry inD priv addr with
  | some t => exact answered_of_hit hs hfetch hl fun _ => hwalk
  | none =>
    rw [translateAddr, Prog.get_bind_apply, utlbLookup, hl]
    exact hwalk

end Assoc

end MrIss
