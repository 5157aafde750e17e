import MrIss.Mmu.RcUpdate
import MrIss.Mmu.Run
/-!
# The uTLB is coherent

Every entry of the four arrays is backed: a walk now, with translation as
it was when the entry was made, would give the same address and the same
permissions, but that the entry may still say `clean` of a page whose C
bit has been set since. `Coherent` says so of the whole uTLB, every step
of a run keeps it, and `utlbLookup_fresh` reads it off a hit.
-/

namespace MrIss

open EarlyReturn Run

namespace Mmu

variable {c : Config} {m : Mmu} {mem mem' : HostMem} {inD priv tr : Bool} {ea : VA} {pa : PA}
  {p : MmuPerms}

/-! ## Backed translations -/

/-- What an entry says of a page whose page-table entry has the second
word `word`. -/
structure PageBacked (b : Build) (sr : Seg) (priv : Bool) (word : BitVec 32) (p : MmuPerms) :
    Prop where
  r : p.r = (sr.pageRights priv (word &&& 3#32)).1
  w : p.w = ((sr.pageRights priv (word &&& 3#32)).2 && (b.updateRC || pteC word))
  referenced : b.updateRC = true → pteR word = true
  changed : b.updateRC = true → p.clean = false → pteC word = true
  unused : b.updateRC = false → p.clean = false

/-- A translation that a walk now would give. -/
def Backed (c : Config) (m : Mmu) (mem : HostMem) (inD priv tr : Bool) (ea : VA) (pa : PA)
    (p : MmuPerms) : Prop :=
  match m.route (c.map.word mem) tr ea inD priv with
  | .off => pa = ea ∧ p = .any
  | .block a q => pa = a ∧ p = q
  | .page pte => TableInRam c.map m ea ∧
      pa = Block.base 12 (c.map.word mem (pte + 4)) ||| Block.offset 12 ea ∧
      PageBacked c.build (m.segOf ea) priv (c.map.word mem (pte + 4)) p
  | _ => False

/-- A page is backed as one. -/
theorem Backed.page {b : VA} (h : Backed c m mem inD priv tr ea pa p)
    (hab : Block.base 12 b = Block.base 12 ea) :
    Backed c m mem inD priv tr b (Block.base 12 pa ||| Block.offset 12 b) p := by
  unfold Backed at h ⊢
  rw [route_page hab]
  cases hr : m.route (c.map.word mem) tr ea inD priv with
  | off =>
    rw [hr] at h
    obtain ⟨rfl, rfl⟩ := h
    refine ⟨?_, rfl⟩
    rw [← hab, Block.base_or_offset]
  | block a q =>
    rw [hr] at h
    obtain ⟨rfl, rfl⟩ := h
    exact ⟨rfl, rfl⟩
  | page pte =>
    rw [hr] at h
    obtain ⟨ht, rfl, hp⟩ := h
    refine ⟨ht.page hab, ?_, ?_⟩
    · rw [Block.base_join]
    · rw [segOf_page hab]
      exact hp
  | denied => rw [hr] at h; exact h
  | noExecute => rw [hr] at h; exact h
  | noPage => rw [hr] at h; exact h

/-! ## R and C updates -/

/-- The search of the table does not read second words. -/
theorem pteFor_congr {word word' : PA → BitVec 32}
    (h : ∀ slot ∈ m.pteSlots ea, word' slot.1 = word slot.1) :
    m.pteFor word' ea = m.pteFor word ea := by
  unfold pteFor
  revert h
  generalize m.pteSlots ea = slots
  intro h
  induction slots with
  | nil => rfl
  | cons slot l ih =>
    rw [List.findSome?_cons, List.findSome?_cons, h slot (by simp),
      ih fun t ht => h t (by simp [ht])]

theorem route_congr {word word' : PA → BitVec 32} (h : m.pteFor word' ea = m.pteFor word ea) :
    m.route word' tr ea inD priv = m.route word tr ea inD priv := by
  rw [route, route, h]

/-- R and C do not decide how an address is translated. -/
theorem RcUpdate.route (h : RcUpdate c.map mem mem') :
    m.route (c.map.word mem') tr ea inD priv = m.route (c.map.word mem) tr ea inD priv :=
  route_congr (pteFor_congr fun _ hs => h.word_first (slot_aligned hs))

/-- **A backed page stays backed when R and C are set:** in a build that
does not set them, memory has not changed. -/
theorem PageBacked.rcWord {b : Build} {sr : Seg} {w w' : BitVec 32}
    (h : PageBacked b sr priv w p) (hb : b.updateRC = true) (hw : RcWord w w') :
    PageBacked b sr priv w' p where
  r := by rw [hw.keeps.2]; exact h.r
  w := by rw [hw.keeps.2, h.w, hb, Bool.true_or, Bool.true_or]
  referenced _ := hw.r
  changed _ hp := hw.c_mono (h.changed hb hp)
  unused hn := absurd hb (by simp [hn])

/-- A translation whose route and whose entry stay is backed as before. -/
theorem Backed.congr (h : Backed c m mem inD priv tr ea pa p)
    (hroute : m.route (c.map.word mem') tr ea inD priv = m.route (c.map.word mem) tr ea inD priv)
    (hpage : ∀ pte, m.pteFor (c.map.word mem) ea = some pte → TableInRam c.map m ea →
      c.map.word mem' (pte + 4) &&& 0xfffff000#32 = c.map.word mem (pte + 4) &&& 0xfffff000#32 ∧
      (PageBacked c.build (m.segOf ea) priv (c.map.word mem (pte + 4)) p →
        PageBacked c.build (m.segOf ea) priv (c.map.word mem' (pte + 4)) p)) :
    Backed c m mem' inD priv tr ea pa p := by
  unfold Backed at h ⊢
  rw [hroute]
  cases hr : m.route (c.map.word mem) tr ea inD priv with
  | off => rw [hr] at h; exact h
  | block a q => rw [hr] at h; exact h
  | page pte =>
    rw [hr] at h
    obtain ⟨ht, hpa, hp⟩ := h
    obtain ⟨hbase, hback⟩ := hpage pte (route_page_entry hr).2.2.2 ht
    refine ⟨ht, ?_, hback hp⟩
    rw [hpa]
    exact congrArg (· ||| Block.offset 12 ea) hbase.symm
  | denied => rw [hr] at h; exact h
  | noExecute => rw [hr] at h; exact h
  | noPage => rw [hr] at h; exact h

theorem Backed.rcUpdate (h : Backed c m mem inD priv tr ea pa p) (hrc : RcUpdate c.map mem mem')
    (hb : c.build.updateRC = true) : Backed c m mem' inD priv tr ea pa p := by
  refine h.congr hrc.route fun pte hq ht => ?_
  obtain ⟨-, -, h4⟩ := pteFor_ram ht hq
  rcases hrc.word_second h4 with he | hw
  · rw [he]
    exact ⟨rfl, id⟩
  · exact ⟨hw.keeps.1, fun hp => hp.rcWord hb hw⟩

/-! ## Walks make backed entries -/

/-- What a walk by the hash table makes is backed in the word it leaves. -/
theorem pageBacked_pteUse (b : Build) (sr : Seg) (rnW : Bool) (w : BitVec 32) :
    PageBacked b sr priv (pteAfter b sr rnW priv w) (pteUse b sr ea rnW priv w).perms := by
  have hpp : pteAfter b sr rnW priv w &&& 3#32 = w &&& 3#32 := by
    rcases pteAfter_cases b sr rnW priv w with h | h
    · rw [h]
    · exact h.keeps.2
  constructor
  · rw [hpp, pteUse_perms]
  · rw [hpp, pteUse_perms, pteAfter_c, setsC]
    simp only
    cases b.updateRC <;> simp
  · exact fun hb => pteAfter_r hb sr w
  · intro hb hclean
    rw [pteUse_perms, hb] at hclean
    rw [pteAfter_c, setsC, hb]
    simpa only [Bool.true_and, Bool.not_eq_eq_eq_not, Bool.not_false] using hclean
  · intro hb
    rw [pteUse_perms, hb]
    rfl

/-- **What a walk gives is backed** in the memory it leaves. -/
theorem backed_of_resolve {rnW : Bool} {r : Fresh} (hw : WalkInRam c.map m ea inD priv)
    (h : resolve c m mem ea inD rnW priv = .ok r) :
    Backed c m r.mem inD priv (m.enabled inD) ea r.pa r.perms := by
  have hrc := resolve_rcUpdate hw h
  unfold Backed
  rw [hrc.route]
  cases hr : m.route (c.map.word mem) (m.enabled inD) ea inD priv with
  | off => simp only [resolve, hr] at h; cases h; exact ⟨rfl, rfl⟩
  | block a q => simp only [resolve, hr] at h; cases h; exact ⟨rfl, rfl⟩
  | denied => simp only [resolve, hr] at h; cases h
  | noExecute => simp only [resolve, hr] at h; cases h
  | noPage => simp only [resolve, hr] at h; cases h
  | page pte =>
    have ht := hw.table hr
    obtain ⟨hpa, hperms, -, hword⟩ := resolve_page hr h ht
    obtain ⟨-, -, h4⟩ := pteFor_ram ht (route_page_entry hr).2.2.2
    have hafter := hword (pte + 4) (by omega)
    rw [if_pos rfl] at hafter
    refine ⟨ht, ?_, ?_⟩
    · have hbase : c.map.word r.mem (pte + 4) &&& 0xfffff000#32 =
          c.map.word mem (pte + 4) &&& 0xfffff000#32 := by
        rcases hrc.word_second h4 with he | hw'
        · rw [he]
        · exact hw'.keeps.1
      rw [hpa]
      exact congrArg (· ||| Block.offset 12 ea) hbase.symm
    · rw [hafter, hperms]
      exact pageBacked_pteUse c.build _ rnW _

theorem route_off {word : PA → BitVec 32} (h : m.route word tr ea inD priv = .off) :
    tr = false := by
  cases tr
  · rfl
  · unfold route at h
    simp only [Bool.not_true, Bool.false_eq_true, if_false] at h
    cases hb : m.matchBAT ea inD priv with
    | some bp => rw [hb] at h; simp only at h; split at h <;> cases h
    | none =>
      rw [hb] at h
      simp only at h
      split at h
      · cases h
      · split at h <;> cases h

/-- **A backed translation is what a walk now gives,** but for `clean`. -/
theorem resolve_of_backed (h : Backed c m mem inD priv (m.enabled inD) ea pa p) (rnW : Bool) :
    WalkInRam c.map m ea inD priv ∧ ∃ r, resolve c m mem ea inD rnW priv = .ok r ∧ r.pa = pa ∧
      r.perms.r = p.r ∧ r.perms.w = p.w ∧ (r.perms.clean = p.clean ∨
        p.clean = true ∧ r.perms.clean = false ∧
        ∃ pte, m.route (c.map.word mem) (m.enabled inD) ea inD priv = .page pte ∧
          pteC (c.map.word r.mem (pte + 4)) = true ∧
          (rnW = true → pteC (c.map.word mem (pte + 4)) = true)) := by
  unfold Backed at h
  cases hr : m.route (c.map.word mem) (m.enabled inD) ea inD priv with
  | off =>
    rw [hr] at h
    obtain ⟨rfl, rfl⟩ := h
    refine ⟨fun htr => ?_, ⟨pa, .any, mem⟩, by simp [resolve, hr], rfl, rfl, rfl, .inl rfl⟩
    rw [route_off hr] at htr
    cases htr
  | block a q =>
    rw [hr] at h
    obtain ⟨rfl, rfl⟩ := h
    refine ⟨fun _ hb => ?_, ⟨pa, p, mem⟩, by simp [resolve, hr], rfl, rfl, rfl, .inl rfl⟩
    rw [(route_block hr).2.1] at hb
    cases hb
  | page pte =>
    rw [hr] at h
    obtain ⟨ht, hpa, hp⟩ := h
    obtain ⟨r, hres⟩ : ∃ r, resolve c m mem ea inD rnW priv = .ok r := by
      simp only [resolve, hr]
      exact ⟨_, rfl⟩
    obtain ⟨hrpa, hperms, -, hword⟩ := resolve_page hr hres ht
    obtain ⟨-, -, h4⟩ := pteFor_ram ht (route_page_entry hr).2.2.2
    have hafter := hword (pte + 4) (by omega)
    rw [if_pos rfl] at hafter
    refine ⟨fun _ _ _ => ht, r, hres, by rw [hrpa, hpa], ?_, ?_, ?_⟩
    · rw [hperms, pteUse_perms, hp.r]
    · rw [hperms, pteUse_perms, hp.w]
    · by_cases hclean : r.perms.clean = p.clean
      · exact .inl hclean
      · right
        cases hb : c.build.updateRC with
        | false =>
          rw [hp.unused hb, hperms, pteUse_perms, hb] at hclean
          exact absurd rfl hclean
        | true =>
          -- an entry that is not clean has C set, and then the walk's is not clean either
          cases hpc : p.clean with
          | false =>
            have hC := hp.changed hb hpc
            rw [hpc, hperms, pteUse_perms, hb, hC] at hclean
            exact absurd rfl hclean
          | true =>
            have hrc : r.perms.clean = false := by simpa [hpc] using hclean
            refine ⟨rfl, hrc, pte, rfl, ?_, fun hrnw => ?_⟩
            · rw [hafter, pteAfter_c, setsC, hb]
              rw [hperms, pteUse_perms, hb] at hrc
              simpa only [Bool.true_and, Bool.not_eq_eq_eq_not, Bool.not_false] using hrc
            · rw [hperms, pteUse_perms, hb, hrnw] at hrc
              simpa using hrc
  | denied => rw [hr] at h; exact h.elim
  | noExecute => rw [hr] at h; exact h.elim
  | noPage => rw [hr] at h; exact h.elim

/-! ## The whole uTLB -/

/-- Two MMUs that translate alike on a side: the registers that a walk of
the side reads agree. -/
structure SameSide (inD : Bool) (m m' : Mmu) : Prop where
  bats : m'.bats inD = m.bats inD
  segreg : m'.segreg = m.segreg
  htabPhys : m'.htabPhys = m.htabPhys
  htabMask : m'.htabMask = m.htabMask

theorem SameSide.pteSlots {m' : Mmu} (h : SameSide inD m m') (a : VA) :
    m'.pteSlots a = m.pteSlots a := by
  simp only [Mmu.pteSlots, segOf, ptegAddr, h.segreg, h.htabPhys, h.htabMask]

theorem SameSide.segOf {m' : Mmu} (h : SameSide inD m m') (a : VA) : m'.segOf a = m.segOf a := by
  rw [Mmu.segOf, Mmu.segOf, h.segreg]

theorem SameSide.matchBAT {m' : Mmu} (h : SameSide inD m m') (a : VA) :
    m'.matchBAT a inD priv = m.matchBAT a inD priv := by
  rw [Mmu.matchBAT, Mmu.matchBAT, h.bats]

/-- They translate an address in the same way. -/
theorem SameSide.route {m' : Mmu} (h : SameSide inD m m') (word : PA → BitVec 32) :
    m'.route word tr ea inD priv = m.route word tr ea inD priv := by
  have hm : m'.pteMatches ea = m.pteMatches ea := by
    funext wantH ptel
    rw [pteMatches, pteMatches, h.segOf]
  have hp : m'.pteFor word ea = m.pteFor word ea := by rw [pteFor, pteFor, h.pteSlots, hm]
  rw [Mmu.route, Mmu.route, h.matchBAT, h.segOf, hp]

theorem SameSide.backed {m' : Mmu} (h : SameSide inD m m')
    (hb : Backed c m mem inD priv tr ea pa p) : Backed c m' mem inD priv tr ea pa p := by
  have hseg := h.segOf ea
  have hroute : m'.route (c.map.word mem) tr ea inD priv =
      m.route (c.map.word mem) tr ea inD priv := h.route _
  have ht : TableInRam c.map m ea → TableInRam c.map m' ea := by
    intro ht
    rwa [TableInRam, h.pteSlots]
  unfold Backed at hb ⊢
  rw [hroute, hseg]
  cases hr : m.route (c.map.word mem) tr ea inD priv with
  | page pte => rw [hr] at hb; exact ⟨ht hb.1, hb.2⟩
  | off => rw [hr] at hb; exact hb
  | block a q => rw [hr] at hb; exact hb
  | denied => rw [hr] at hb; exact hb
  | noExecute => rw [hr] at hb; exact hb
  | noPage => rw [hr] at hb; exact hb

/-- An entry that is clear, or holds a backed translation of some address
of its line. -/
def EntryBacked (c : Config) (m : Mmu) (mem : HostMem) (inD priv : Bool) (idx : BitVec 7)
    (t : Utlb) : Prop :=
  t.ea = 0#32 ∨ ∃ ea tr pa h p, addrToIdx ea = idx ∧ t = Utlb.set ea tr h p ∧
    c.map.target pa = some h ∧ Block.offset 12 pa = Block.offset 12 ea ∧
    Backed c m mem inD priv tr ea pa p

/-- **Coherence.** Every entry of the uTLB is backed. -/
def Coherent (c : Config) (s : Mem) : Prop :=
  ∀ inD priv idx, EntryBacked c s.mmu s.sys.mem inD priv idx
    (s.mmu.utlb (selectUtlb inD priv) idx)

/-- An empty side is backed. -/
theorem entryBacked_clear {idx : BitVec 7} : EntryBacked c m mem inD priv idx ⟨0, 0⟩ := .inl rfl

theorem EntryBacked.mono {m' : Mmu} {idx : BitVec 7} {t : Utlb}
    (h : EntryBacked c m mem inD priv idx t)
    (hb : ∀ ea tr pa p, Backed c m mem inD priv tr ea pa p →
      Backed c m' mem' inD priv tr ea pa p) : EntryBacked c m' mem' inD priv idx t := by
  rcases h with h | ⟨ea, tr, pa, h, p, hidx, rfl, ht, ho, hback⟩
  · exact .inl h
  · exact .inr ⟨ea, tr, pa, h, p, hidx, rfl, ht, ho, hb _ _ _ _ hback⟩

/-- An MMU with nothing in the uTLB is coherent. -/
theorem coherent_of_empty {s : Mem} (h : ∀ a idx, s.mmu.utlb a idx = ⟨0, 0⟩) : Coherent c s := by
  intro inD priv idx
  rw [h]
  exact entryBacked_clear

/-- A write of the registers of one side: its entries go, and the other
side translates as before. -/
theorem coherent_of_side {s : Mem} {m' : Mmu} (side : Bool) (h : Coherent c s)
    (hclear : ∀ priv idx, m'.utlb (selectUtlb side priv) idx = ⟨0, 0⟩)
    (hkeep : ∀ priv idx, m'.utlb (selectUtlb (!side) priv) idx =
      s.mmu.utlb (selectUtlb (!side) priv) idx)
    (hsame : SameSide (!side) s.mmu m') : Coherent c { s with mmu := m' } := by
  intro inD priv idx
  by_cases hs : inD = side
  · subst hs
    simp only [hclear]
    exact entryBacked_clear
  · have : inD = !side := by cases inD <;> cases side <;> simp at hs ⊢
    subst this
    simp only [hkeep]
    exact (h (!side) priv idx).mono fun _ _ _ _ hb => hsame.backed hb

/-- **The registers' writes keep the uTLB coherent:** each drops the
entries made from what it changes. -/
theorem coherent_map {s : Mem} (h : Coherent c s) (op : MapOp) :
    Coherent c { s with mmu := op.apply s.mmu } := by
  cases op with
  | setSDR1 val => exact coherent_of_empty fun a idx => by cases a <;> rfl
  | setSegmentReg sr val => exact coherent_of_empty fun a idx => by cases a <;> rfl
  | tlbie => exact coherent_of_empty fun a idx => by cases a <;> rfl
  | tlbia => exact coherent_of_empty fun a idx => by cases a <;> rfl
  | setIRDR ir dr =>
    intro inD priv idx
    exact (h inD priv idx).mono fun _ _ _ _ hb =>
      SameSide.backed ⟨by cases inD <;> rfl, rfl, rfl, rfl⟩ hb
  | setIBATupper bat val =>
    exact coherent_of_side true h (fun p _ => by cases p <;> rfl)
      (fun p _ => by cases p <;> rfl) ⟨rfl, rfl, rfl, rfl⟩
  | setIBATlower bat val =>
    exact coherent_of_side true h (fun p _ => by cases p <;> rfl)
      (fun p _ => by cases p <;> rfl) ⟨rfl, rfl, rfl, rfl⟩
  | setDBATupper bat val =>
    exact coherent_of_side false h (fun p _ => by cases p <;> rfl)
      (fun p _ => by cases p <;> rfl) ⟨rfl, rfl, rfl, rfl⟩
  | setDBATlower bat val =>
    exact coherent_of_side false h (fun p _ => by cases p <;> rfl)
      (fun p _ => by cases p <;> rfl) ⟨rfl, rfl, rfl, rfl⟩

/-- In a build that does not update R and C a walk leaves memory alone. -/
theorem resolve_mem_of_not_updateRC {rnW : Bool} {r : Fresh}
    (h : resolve c m mem ea inD rnW priv = .ok r) (hb : c.build.updateRC = false) :
    r.mem = mem := by
  by_cases hp : ∃ pte, m.route (c.map.word mem) (m.enabled inD) ea inD priv = .page pte
  · obtain ⟨pte, hroute⟩ := hp
    simp only [resolve, hroute, pteUse_update, hb, Bool.false_and, Bool.false_eq_true,
      if_false] at h
    cases h
    rfl
  · exact resolve_mem_of_not_page (fun pte he => hp ⟨pte, he⟩) h

/-- What a walk changes in memory does not unmake a translation. -/
theorem Backed.walk {m' : Mmu} {ea' : VA} {rnW inD' priv' tr' : Bool} {r : Fresh}
    (hb : Backed c m' mem inD' priv' tr' ea' pa p) (hw : WalkInRam c.map m ea inD priv)
    (hr : resolve c m mem ea inD rnW priv = .ok r) :
    Backed c m' r.mem inD' priv' tr' ea' pa p := by
  cases hbuild : c.build.updateRC with
  | true => exact hb.rcUpdate (resolve_rcUpdate hw hr) hbuild
  | false => rwa [resolve_mem_of_not_updateRC hr hbuild]

/-- **A walk keeps the uTLB coherent:** what it changes in memory does not
unmake an entry, and the entry it makes is backed. -/
theorem coherent_walk {s : Mem} {rnW : Bool} {r : Fresh} {h : HVA} {i : ℕ} (hs : Coherent c s)
    (hw : WalkInRam c.map s.mmu ea inD priv)
    (hr : resolve c s.mmu s.sys.mem ea inD rnW priv = .ok r)
    (ht : c.map.target r.pa = some h) :
    Coherent c ⟨s.mmu.utlbSet inD priv ea h r.perms, { s.sys with mem := r.mem, lastDev := i }⟩ := by
  have hside : ∀ side, SameSide side s.mmu (s.mmu.utlbSet inD priv ea h r.perms) :=
    fun side => ⟨rfl, rfl, rfl, rfl⟩
  have hkeep : ∀ inD' priv' idx, EntryBacked c (s.mmu.utlbSet inD priv ea h r.perms) r.mem inD'
      priv' idx (s.mmu.utlb (selectUtlb inD' priv') idx) := fun inD' priv' idx =>
    (hs inD' priv' idx).mono fun _ _ _ _ hb => (hside inD').backed (hb.walk hw hr)
  intro inD' priv' idx
  by_cases harr : selectUtlb inD' priv' = selectUtlb inD priv
  · obtain ⟨rfl, rfl⟩ := selectUtlb_inj harr
    simp only [utlbSet, Function.update_self]
    by_cases hidx : idx = addrToIdx ea
    · subst hidx
      rw [Function.update_self]
      exact .inr ⟨ea, _, r.pa, h, r.perms, rfl, rfl, ht, resolve_offset hr,
        (hside inD').backed (backed_of_resolve hw hr)⟩
    · rw [Function.update_of_ne hidx]
      exact hkeep inD' priv' idx
  · simp only [utlbSet, Function.update_of_ne harr]
    exact hkeep inD' priv' idx

/-- A translation keeps the uTLB coherent. -/
theorem coherent_translate {s s' : Mem} {rnW : Bool} {res : Except Fault HVA} (hs : Coherent c s)
    (hw : WalkInRam c.map s.mmu ea inD priv)
    (h : translateAddr c ea inD rnW priv s = .ok res s') : Coherent c s' := by
  cases translateAddr_outcome hw h with
  | hit hl hc => exact hs
  | refused hl hc hd => exact hs
  | fault i hr => exact hs
  | walk i hr ht => exact coherent_walk hs hw hr ht

/-- Memory changed elsewhere than in the hash table. -/
theorem Backed.tableSame (h : TableSame c.map m mem mem')
    (hb : Backed c m mem inD priv tr ea pa p) : Backed c m mem' inD priv tr ea pa p := by
  refine hb.congr ?_ fun pte hq _ => ?_
  · exact route_congr (pteFor_congr fun slot hslot => (h ea slot hslot).1)
  · obtain ⟨slot, hslot, rfl⟩ := pteFor_mem hq
    rw [(h ea slot hslot).2]
    exact ⟨rfl, id⟩

theorem coherent_outside {s : Mem} {sys : Sys} (hs : Coherent c s)
    (h : TableSame c.map s.mmu s.sys.mem sys.mem) : Coherent c { s with sys := sys } :=
  fun inD priv idx => (hs inD priv idx).mono fun _ _ _ _ hb => hb.tableSame h

/-! ## Runs -/

/-- What a run keeps: unless the table has changed since the last
invalidation, the uTLB is coherent. -/
def RunInv (c : Config) (s : RunState) : Prop := s.stale = false → Coherent c s.mem

/-- Every step keeps it. -/
theorem runInv_step {s s' : RunState} {e : Event} (h : RunInv c s) (hstep : Step c s e s') :
    RunInv c s' := by
  cases hstep with
  | translate hstale hw ht => exact fun _ => coherent_translate (h hstale) hw ht
  | outside hsame => exact fun hstale => coherent_outside (h hstale) hsame
  | table sys => exact fun hstale => by cases hstale
  | map op =>
    intro hstale
    by_cases hinv : op.invalidates = true
    · -- whatever the state before, an invalidation leaves nothing
      cases op with
      | tlbie => exact coherent_of_empty fun a idx => by cases a <;> rfl
      | tlbia => exact coherent_of_empty fun a idx => by cases a <;> rfl
      | _ => cases hinv
    · simp only [hinv, Bool.not_false, Bool.and_true] at hstale
      exact coherent_map (h hstale) op

/-- **Every run from a constructed MMU is coherent.** -/
theorem runInv_of_run {m₀ : Mmu} {sys : Sys} {es : List Event} {s : RunState}
    (hrun : Steps (Step c) (.init m₀ sys) es s) : RunInv c s :=
  hrun.invariant (fun _ => coherent_of_empty fun _ _ => rfl) fun _ _ _ => runInv_step

/-- **What an entry gives is backed,** and leads to where the translated
address is accessed. -/
theorem EntryBacked.hit {idx : BitVec 7} {t : Utlb} {addr : VA}
    (h : EntryBacked c m mem inD priv idx t) (hea : t.ea = Utlb.tag addr tr) :
    ∃ pa, Backed c m mem inD priv tr addr pa t.getPerms ∧
      t.getPA ||| Block.offset 12 (addr.setWidth 64) = c.map.hva pa := by
  rcases h with h0 | ⟨ea, tr, pa, k, q, -, rfl, ht, ho, hb⟩
  · rw [h0] at hea
    exact absurd hea.symm (Utlb.tag_ne_zero _ _)
  · obtain ⟨hab, rfl⟩ := Utlb.tag_inj hea
    rw [Utlb.getPerms_set, Utlb.getPA_set]
    refine ⟨_, hb.page hab.symm, ?_⟩
    rw [PagedBus.hva_page (b := Block.base 12 pa ||| Block.offset 12 addr) ht (Block.base_join ..),
      offset_setWidth, offset_setWidth, Block.offset_join]

/-- What a hit returns is backed, unless no device answers the translated
address. -/
theorem backed_of_lookup {s : Mem} {addr : VA} {h : HVA} (hs : Coherent c s)
    (hl : s.mmu.utlbLookup inD priv addr = some (h, p)) :
    ∃ pa, Backed c s.mmu s.sys.mem inD priv (s.mmu.enabled inD) addr pa p ∧
      (c.map.target pa = none ∨ c.map.target pa = some h) := by
  obtain ⟨hea, hpa, hp⟩ := utlbLookup_eq_some.mp hl
  obtain ⟨pa, hb, hva⟩ := (hs inD priv (addrToIdx addr)).hit hea
  refine ⟨pa, hp ▸ hb, ?_⟩
  rw [← hpa, hva]
  cases ht : c.map.target pa with
  | none => exact .inl rfl
  | some k => exact .inr (by rw [PagedBus.hva_of_target ht])

/-- **uTLB coherence.** In every run from a constructed MMU, whatever a
lookup returns is what a fresh `translateEA` would produce: the address,
mapped to the host, and the rights to read and to write; the `clean` flag
differs only in being still set of a page whose C bit is set, by the fresh
walk itself or, where that is not for a store, already. Where no device
answers the translated address, the fresh walk ends the process. -/
theorem utlbLookup_fresh {m₀ : Mmu} {sys : Sys} {es : List Event} {s : RunState}
    (hrun : Steps (Step c) (.init m₀ sys) es s) (hstale : s.stale = false) {addr : VA} {h : HVA}
    (hl : s.mem.mmu.utlbLookup inD priv addr = some (h, p)) (rnW : Bool) :
    (∃ pa t, c.map.deviceAt pa = none ∧
      translateEA c addr inD rnW priv s.mem = .abort (.busMiss pa) t) ∨
    ∃ pa q s', translateEA c addr inD rnW priv s.mem = .ok (.ok (pa, q)) s' ∧
      c.map.target pa = some h ∧ q.r = p.r ∧ q.w = p.w ∧
      (q.clean = p.clean ∨ p.clean = true ∧ q.clean = false ∧
        ∃ pte, s.mem.mmu.route (c.map.word s.mem.sys.mem) (s.mem.mmu.enabled inD) addr inD priv =
            .page pte ∧ pteC (c.map.word s'.sys.mem (pte + 4)) = true ∧
          (rnW = true → pteC (c.map.word s.mem.sys.mem (pte + 4)) = true)) := by
  obtain ⟨pa, hb, htarget⟩ := backed_of_lookup (runInv_of_run hrun hstale) hl
  obtain ⟨hw, r, hres, rfl, hr, hwr, hclean⟩ := resolve_of_backed hb rnW
  rcases translateEA_of_ok hw hres with ⟨hn, t, ha⟩ | ⟨k, i, hk, hok⟩
  · exact .inl ⟨r.pa, t, by simpa [PagedBus.target] using hn, ha⟩
  · refine .inr ⟨r.pa, r.perms, _, hok, ?_, hr, hwr, hclean⟩
    rcases htarget with hn | hs
    · rw [hn] at hk; cases hk
    · exact hs

/-- A walk is not made where translation is off. -/
theorem walkInRam_of_off {B : PagedBus} {addr : VA} (h : m.enabled inD = false) :
    WalkInRam B m addr inD priv := by
  intro ht
  rw [h] at ht
  cases ht

/-- A page of which a device answers the first bytes: the entry that an
access to them makes serves the whole page, and a fresh walk beyond them
ends the process. -/
theorem utlbLookup_past_device :
    ∃ s h p, Steps (Step (.quiet .default)) (.init zero .fresh)
        [.translate 0x82000000 false true true] s ∧ s.stale = false ∧
      s.mem.mmu.utlbLookup false true 0x82000800 = some (h, p) ∧
      ∀ pa q t, translateEA (.quiet .default) 0x82000800 false true true s.mem ≠
        .ok (.ok (pa, q)) t := by
  have key : (translateAddr (.quiet .default) 0x82000000 false true true
      ⟨zero.construct, .fresh⟩).test fun _ t => (t.mmu.utlbLookup false true 0x82000800).isSome &&
        !(translateEA (.quiet .default) 0x82000800 false true true t).test fun res _ =>
          res.toBool := by decide +kernel
  obtain ⟨_, t, ht, h⟩ := Out.of_test key
  rw [Bool.and_eq_true, Bool.not_eq_true', Option.isSome_iff_exists] at h
  obtain ⟨⟨⟨h, p⟩, hl⟩, hno⟩ := h
  refine ⟨⟨t, false⟩, h, p, .single (.translate rfl (walkInRam_of_off rfl) ht), rfl, hl, ?_⟩
  intro pa q t' heq
  rw [heq] at hno
  cases hno

/-- An access to RAM with translation off, and a hit on its page. -/
theorem utlbLookup_fresh_ram :
    ∃ s : RunState, s.mem.mmu.utlbLookup false true 0x1004 = some (0x10001004, .any) ∧
      ((∃ pa t, (Config.quiet .default).map.deviceAt pa = none ∧
        translateEA (.quiet .default) 0x1004 false true true s.mem = .abort (.busMiss pa) t) ∨
      ∃ pa q s', translateEA (.quiet .default) 0x1004 false true true s.mem =
          .ok (.ok (pa, q)) s' ∧
        (Config.quiet .default).map.target pa = some 0x10001004 ∧ q.r = true ∧ q.w = true ∧
        (q.clean = false ∨ false = true ∧ q.clean = false ∧
          ∃ pte, s.mem.mmu.route ((Config.quiet .default).map.word s.mem.sys.mem)
              (s.mem.mmu.enabled false) 0x1004 false true = .page pte ∧
            pteC ((Config.quiet .default).map.word s'.sys.mem (pte + 4)) = true ∧
            (true = true →
              pteC ((Config.quiet .default).map.word s.mem.sys.mem (pte + 4)) = true))) := by
  obtain ⟨t, ht, hl⟩ : ∃ t,
      translateAddr (.quiet .default) 0x1000 false true true ⟨zero.construct, .fresh⟩ =
        .ok (.ok 0x10001000) t ∧
      t.mmu.utlbLookup false true 0x1004 = some (0x10001004, .any) := ⟨_, rfl, rfl⟩
  exact ⟨⟨t, false⟩, hl, utlbLookup_fresh
    (.single (.translate rfl (walkInRam_of_off rfl) ht)) rfl hl true⟩

end Mmu

end MrIss
