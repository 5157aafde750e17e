import MrIss.Mmu.Resolve
/-!
# The uTLB and the lookup loop

What a uTLB entry is recognised by, what a lookup finds after an
insertion, and from these what `translateAddr` does: a hit is checked, a
miss is walked, and a hit that is not writable for its C bit alone is
walked once more.
-/

namespace MrIss

open EarlyReturn

/-! ## Entries -/

namespace Utlb

theorem tag_getLsbD_one (addr : VA) (tr : Bool) : (tag addr tr).getLsbD 1 = true := by
  cases tr <;> simp [tag]

/-- A cleared entry is no entry. -/
theorem tag_ne_zero (addr : VA) (tr : Bool) : tag addr tr ≠ 0#32 := by
  intro h
  have := tag_getLsbD_one addr tr
  rw [h] at this
  simp at this

/-- **A tag tells the page and whether translation was on.** -/
theorem tag_inj {a b : VA} {tr tr' : Bool} (h : tag a tr = tag b tr') :
    Block.base 12 a = Block.base 12 b ∧ tr = tr' := by
  have hbit : ∀ i, (tag a tr).getLsbD i = (tag b tr').getLsbD i := fun i => by rw [h]
  have low : ∀ (x : VA) (t : Bool) (i : ℕ), 12 ≤ i →
      (tag x t).getLsbD i = (Block.base 12 x).getLsbD i := by
    intro x t i hi
    have h2 : (2#32).getLsbD i = false := by
      rw [BitVec.getLsbD_ofNat]
      simp [Nat.testBit_lt_two_pow (show 2 < 2 ^ i from
        Nat.lt_of_lt_of_le (by omega) (Nat.pow_le_pow_right (by omega) hi))]
    have h1 : (if t then 1#32 else 0#32).getLsbD i = false := by
      cases t
      · simp
      · simp only [if_true]
        rw [BitVec.getLsbD_ofNat]
        simp [Nat.testBit_lt_two_pow (show 1 < 2 ^ i from
          Nat.lt_of_lt_of_le (by omega) (Nat.pow_le_pow_right (by omega) hi))]
    rw [tag, BitVec.getLsbD_or, BitVec.getLsbD_or, h2, h1, Bool.or_false, Bool.or_false]
  constructor
  · apply BitVec.eq_of_getLsbD_eq
    intro i _
    by_cases hi : 12 ≤ i
    · rw [← low a tr i hi, ← low b tr' i hi, hbit i]
    · simp [Block.getLsbD_base, hi]
  · have h0 := hbit 0
    simp only [tag, BitVec.getLsbD_or, Block.getLsbD_base_of_lt _ (Nat.succ_pos 11)] at h0
    cases tr <;> cases tr' <;> simp at h0 ⊢

theorem tag_page {a b : VA} (tr : Bool) (h : Block.base 12 a = Block.base 12 b) :
    tag a tr = tag b tr := by
  rw [tag, tag, h]

@[simp] theorem getPerms_set (addr : VA) (tr : Bool) (pa : HVA) (p : MmuPerms) :
    (set addr tr pa p).getPerms = p := by
  have : (set addr tr pa p).pa.setWidth 8 = p.field := by
    apply BitVec.eq_of_getLsbD_eq
    intro i hi
    simp [set, Block.getLsbD_base, hi, show ¬ 12 ≤ i by omega]
  rw [getPerms, this, MmuPerms.ofField_field]

@[simp] theorem getPA_set (addr : VA) (tr : Bool) (pa : HVA) (p : MmuPerms) :
    (set addr tr pa p).getPA = Block.base 12 pa := by
  apply BitVec.eq_of_getLsbD_eq
  intro i hi
  rw [getPA, Block.getLsbD_base, set, BitVec.getLsbD_or, Block.getLsbD_base]
  by_cases h : 12 ≤ i
  · simp [h, BitVec.getLsbD_of_ge p.field i (by omega)]
  · simp [h]

@[simp] theorem ea_set (addr : VA) (tr : Bool) (pa : HVA) (p : MmuPerms) :
    (set addr tr pa p).ea = tag addr tr := rfl

end Utlb

/-- Each side and privilege has an array of its own. -/
theorem selectUtlb_inj {i p i' p' : Bool} (h : selectUtlb i p = selectUtlb i' p') :
    i = i' ∧ p = p' := by
  revert h
  cases i <;> cases p <;> cases i' <;> cases p' <;> decide

namespace Mmu

theorem addrToIdx_page {a b : VA} (h : Block.base 12 a = Block.base 12 b) :
    addrToIdx a = addrToIdx b := by
  apply BitVec.eq_of_getLsbD_eq
  intro i hi
  simp [addrToIdx, hi, Block.getLsbD_of_base_eq h (Nat.le_add_right 12 i)]

@[simp] theorem enabled_utlbSet (m : Mmu) (i p i' : Bool) (a : VA) (h : HVA) (q : MmuPerms) :
    (m.utlbSet i p a h q).enabled i' = m.enabled i' := rfl

/-- What a lookup of a page finds right after its insertion. -/
theorem utlbLookup_utlbSet (m : Mmu) (inD priv : Bool) {a b : VA} (h : HVA) (p : MmuPerms)
    (hab : Block.base 12 b = Block.base 12 a) :
    (m.utlbSet inD priv a h p).utlbLookup inD priv b =
      some (Block.base 12 h ||| Block.offset 12 (b.setWidth 64), p) := by
  simp [utlbLookup, utlbSet, addrToIdx_page hab, Utlb.tag_page _ hab, enabled]

/-- A lookup reads the entry of the page: it finds something where the
entry carries the page's tag. -/
theorem utlbLookup_eq_some {m : Mmu} {inD priv : Bool} {addr : VA} {h : HVA} {p : MmuPerms} :
    m.utlbLookup inD priv addr = some (h, p) ↔
      (m.utlb (selectUtlb inD priv) (addrToIdx addr)).ea = Utlb.tag addr (m.enabled inD) ∧
      (m.utlb (selectUtlb inD priv) (addrToIdx addr)).getPA |||
        Block.offset 12 (addr.setWidth 64) = h ∧
      (m.utlb (selectUtlb inD priv) (addrToIdx addr)).getPerms = p := by
  unfold utlbLookup
  simp only
  split_ifs with hea
  · simp [hea]
  · simp [hea]

/-- One page, one entry. -/
theorem utlbLookup_page {m : Mmu} {inD priv : Bool} {a b : VA} {h : HVA} {p : MmuPerms}
    (hl : m.utlbLookup inD priv a = some (h, p)) (hab : Block.base 12 b = Block.base 12 a) :
    m.utlbLookup inD priv b =
      some (Block.base 12 h ||| Block.offset 12 (b.setWidth 64), p) := by
  obtain ⟨hea, hpa, hp⟩ := utlbLookup_eq_some.mp hl
  refine utlbLookup_eq_some.mpr ?_
  rw [addrToIdx_page hab, Utlb.tag_page _ hab, ← hpa]
  refine ⟨hea, ?_, hp⟩
  rw [Utlb.getPA, Block.base_join]

/-! ## Routes by the page -/

/-- A route, read at another address of the page. -/
def Route.at (b : VA) : Route → Route
  | .block pa perms => .block (Block.base 12 pa ||| Block.offset 12 b) perms
  | r => r

theorem segOf_page {m : Mmu} {a b : VA} (h : Block.base 12 b = Block.base 12 a) :
    m.segOf b = m.segOf a := by
  have : (b >>> 28).setWidth 4 = (a >>> 28).setWidth 4 := by
    apply BitVec.eq_of_getLsbD_eq
    intro i hi
    simp [hi, Block.getLsbD_of_base_eq h (show 12 ≤ 28 + i by omega)]
  rw [segOf, segOf, this]

theorem pgidx_page {a b : VA} (h : Block.base 12 b = Block.base 12 a) : pgidx b = pgidx a := by
  apply BitVec.eq_of_getLsbD_eq
  intro i hi
  simp [pgidx, Block.getLsbD_of_base_eq h (Nat.le_add_right 12 i)]

theorem pteSlots_page {m : Mmu} {a b : VA} (h : Block.base 12 b = Block.base 12 a) :
    m.pteSlots b = m.pteSlots a := by
  rw [pteSlots, pteSlots, segOf_page h, pgidx_page h]

theorem pteMatches_page {m : Mmu} {a b : VA} (h : Block.base 12 b = Block.base 12 a) :
    m.pteMatches b = m.pteMatches a := by
  funext wantH ptel
  rw [pteMatches, pteMatches, segOf_page h, pgidx_page h]

theorem pteFor_page {m : Mmu} {word : PA → BitVec 32} {a b : VA}
    (h : Block.base 12 b = Block.base 12 a) : m.pteFor word b = m.pteFor word a := by
  rw [pteFor, pteFor, pteSlots_page h, pteMatches_page h]

theorem TableInRam.page {B : PagedBus} {m : Mmu} {a b : VA} (ht : TableInRam B m a)
    (h : Block.base 12 b = Block.base 12 a) : TableInRam B m b := by
  rw [TableInRam, pteSlots_page h]
  exact ht

/-- A BAT leaves the low 17 bits alone. -/
theorem amask_low (b : Bat) {i : ℕ} (hi : i < 17) : b.amask.getLsbD i = false := by
  rw [Bat.amask, BitVec.getLsbD_shiftLeft]
  by_cases h : i < b.blShift.toNat
  · simp [h]
  · have : (0xfffe0000#32).getLsbD (i - b.blShift.toNat) = false := by
      have hlt : i - b.blShift.toNat < 17 := by omega
      generalize i - b.blShift.toNat = j at hlt
      revert j
      decide
    rw [this, Bool.and_false]

theorem hits_page {b : Bat} {x y : VA} {priv : Bool} (h : Block.base 12 y = Block.base 12 x) :
    b.hits y priv = b.hits x priv := by
  have : (y ^^^ b.bepi) &&& b.amask = (x ^^^ b.bepi) &&& b.amask := by
    apply BitVec.eq_of_getLsbD_eq
    intro i hi
    simp only [BitVec.getLsbD_and, BitVec.getLsbD_xor]
    by_cases h12 : 12 ≤ i
    · have hbit := congrArg (·.getLsbD i) h
      simp only [Block.getLsbD_base, h12, decide_true, Bool.and_true] at hbit
      rw [hbit]
    · rw [amask_low b (by omega), Bool.and_false, Bool.and_false]
  rw [Bat.hits, Bat.hits, this]

theorem gives_page {b : Bat} {x y : VA} (h : Block.base 12 y = Block.base 12 x) :
    (b.gives y).2 = (b.gives x).2 ∧ (b.pp ≠ 0#32 →
      (b.gives y).1 = Block.base 12 (b.gives x).1 ||| Block.offset 12 y) := by
  by_cases hpp : b.pp = 0#32
  · simp [Bat.gives, hpp]
  · simp only [Bat.gives, if_neg hpp, true_and]
    intro _
    apply BitVec.eq_of_getLsbD_eq
    intro i hi
    simp only [BitVec.getLsbD_or, BitVec.getLsbD_and, BitVec.getLsbD_not, Block.getLsbD_base,
      Block.getLsbD_offset]
    by_cases h12 : 12 ≤ i
    · rw [Block.getLsbD_of_base_eq h h12]
      simp [h12, Nat.not_lt.mpr h12]
    · rw [amask_low b (show i < 17 by omega),
        Block.getLsbD_of_offset_eq_zero b.brpn_low (show i < 17 by omega)]
      simp [h12, hi, show i < 12 by omega]

/-- **A page is translated as one.** -/
theorem route_page {m : Mmu} {word : PA → BitVec 32} {tr inD priv : Bool} {a b : VA}
    (h : Block.base 12 b = Block.base 12 a) :
    m.route word tr b inD priv = (m.route word tr a inD priv).at b := by
  unfold route
  cases tr
  · simp only [Bool.not_false, if_true, Route.at]
  · simp only [Bool.not_true, Bool.false_eq_true, if_false]
    have hfind : ((List.finRange 4).map (m.bats inD)).find? (·.hits b priv) =
        ((List.finRange 4).map (m.bats inD)).find? (·.hits a priv) := by
      simp only [hits_page h]
    unfold matchBAT
    rw [hfind]
    cases ((List.finRange 4).map (m.bats inD)).find? (·.hits a priv) with
    | some t =>
      obtain ⟨h₂, h₁⟩ := gives_page (b := t) h
      simp only [Option.map_some]
      rw [h₂]
      by_cases hden : (!(t.gives a).2.r && !(t.gives a).2.w) = true
      · simp [hden, Route.at]
      · have hpp : t.pp ≠ 0 := by
          intro hpp
          simp [Bat.gives, hpp] at hden
        simp only [hden, Bool.false_eq_true, if_false, Route.at]
        rw [h₁ hpp]
    | none =>
      simp only [Option.map_none, segOf_page h, pteFor_page h]
      by_cases hn : (inD && (m.segOf a).n) = true
      · simp only [hn, if_true, Route.at]
      · simp only [hn, Bool.false_eq_true, if_false]
        cases m.pteFor word a with
        | some pte => simp only [Route.at]
        | none => simp only [Route.at]

/-! ## The lookup loop -/

variable {c : Config} {m : Mmu} {mem : HostMem} {addr : VA} {inD rnW priv : Bool}

theorem offset_setWidth (a : VA) :
    Block.offset 12 (a.setWidth 64) = (Block.offset 12 a).setWidth 64 := by
  apply BitVec.eq_of_getLsbD_eq
  intro i hi
  simp only [Block.getLsbD_offset, BitVec.getLsbD_setWidth, hi, decide_true, Bool.true_and]

/-- The address that an entry gives. -/
theorem pteUse_addr (b : Build) (sr : Seg) (pteh : BitVec 32) :
    (pteUse b sr addr rnW priv pteh).addr = Block.base 12 pteh ||| Block.offset 12 addr := rfl

/-- **Every translation keeps the offset within the page.** -/
theorem resolve_offset {r : Fresh} (h : resolve c m mem addr inD rnW priv = .ok r) :
    Block.offset 12 r.pa = Block.offset 12 addr := by
  unfold resolve at h
  have hself : m.route (c.map.word mem) (m.enabled inD) addr inD priv = _ :=
    route_page (rfl : Block.base 12 addr = Block.base 12 addr)
  cases hr : m.route (c.map.word mem) (m.enabled inD) addr inD priv with
  | off => rw [hr] at h; cases h; rfl
  | denied => rw [hr] at h; cases h
  | noExecute => rw [hr] at h; cases h
  | noPage => rw [hr] at h; cases h
  | block pa perms =>
    rw [hr] at h hself
    cases h
    rw [Route.at, Route.block.injEq] at hself
    rw [hself.1, Block.offset_join]
  | page pte =>
    rw [hr] at h
    cases h
    rw [pteUse_addr, Block.offset_join]

/-- The target of a translation keeps the offset too. -/
theorem target_join {pa : PA} {h : HVA} (ht : c.map.target pa = some h)
    (hoff : Block.offset 12 pa = Block.offset 12 addr) :
    Block.base 12 h ||| Block.offset 12 (addr.setWidth 64) = h := by
  rw [offset_setWidth, ← hoff, ← offset_setWidth]
  rcases PagedBus.target_page ht rfl with hn | hs
  · rw [ht] at hn; cases hn
  · rw [ht] at hs
    exact (Option.some_inj.mp hs).symm

theorem matchBAT_clean {pa : PA} {p : MmuPerms} (h : m.matchBAT addr inD priv = some (pa, p)) :
    p.clean = false := by
  obtain ⟨b, -, hb⟩ := Option.map_eq_some_iff.mp h
  rw [Bat.gives] at hb
  split_ifs at hb <;> cases hb <;> rfl

/-- What a route by a BAT comes from. -/
theorem route_block {word : PA → BitVec 32} {tr : Bool} {pa : PA} {p : MmuPerms}
    (h : m.route word tr addr inD priv = .block pa p) :
    tr = true ∧ m.matchBAT addr inD priv = some (pa, p) ∧ (p.r || p.w) = true := by
  unfold route at h
  cases tr
  · cases h
  · simp only [Bool.not_true, Bool.false_eq_true, if_false] at h
    cases hb : m.matchBAT addr inD priv with
    | none =>
      rw [hb] at h
      simp only at h
      split at h
      · cases h
      · split at h <;> cases h
    | some bp =>
      obtain ⟨pa', p'⟩ := bp
      rw [hb] at h
      simp only at h
      split at h
      · cases h
      · rename_i hp
        cases h
        refine ⟨rfl, rfl, ?_⟩
        cases hr : p.r <;> cases hw : p.w <;> simp [hr, hw] at hp ⊢

/-- What a route by a page-table entry comes from. -/
theorem route_page_entry {word : PA → BitVec 32} {tr : Bool} {pte : PA}
    (h : m.route word tr addr inD priv = .page pte) :
    tr = true ∧ m.matchBAT addr inD priv = none ∧ (inD && (m.segOf addr).n) = false ∧
      m.pteFor word addr = some pte := by
  unfold route at h
  cases tr
  · cases h
  · simp only [Bool.not_true, Bool.false_eq_true, if_false] at h
    cases hb : m.matchBAT addr inD priv with
    | some bp =>
      rw [hb] at h
      simp only at h
      split at h <;> cases h
    | none =>
      rw [hb] at h
      simp only at h
      split at h
      · cases h
      · rename_i hn
        split at h
        · rename_i hq
          cases h
          exact ⟨rfl, rfl, by simpa using hn, hq⟩
        · cases h

/-- A walk for a store leaves nothing to clean. -/
theorem pteUse_not_clean (b : Build) (sr : Seg) (addr : VA) (pteh : BitVec 32) :
    checkFaultWasCleanliness b (pteUse b sr addr rnW priv pteh).perms rnW inD = false := by
  simp only [checkFaultWasCleanliness, pteUse]
  generalize (sr.pageRights priv _).2 = w
  generalize (_ != 0#32) = cbit
  cases b.updateRC <;> cases rnW <;> cases inD <;> cases w <;> cases cbit <;> rfl

/-- What is let through was not held up by C. -/
theorem not_clean_of_checkPerms {b : Build} (h : checkPerms b p rnW inD = true) :
    checkFaultWasCleanliness b p rnW inD = false := by
  revert h
  unfold checkPerms checkFaultWasCleanliness
  cases b.updateRC <;> cases rnW <;> cases inD <;> cases p.w <;> cases p.clean <;> simp

theorem resolve_not_clean {r : Fresh} (h : resolve c m mem addr inD rnW priv = .ok r) :
    checkFaultWasCleanliness c.build r.perms rnW inD = false := by
  unfold resolve at h
  cases hr : m.route (c.map.word mem) (m.enabled inD) addr inD priv with
  | off => rw [hr] at h; cases h; simp [checkFaultWasCleanliness, MmuPerms.any]
  | denied => rw [hr] at h; cases h
  | noExecute => rw [hr] at h; cases h
  | noPage => rw [hr] at h; cases h
  | block pa perms =>
    rw [hr] at h
    cases h
    simp [checkFaultWasCleanliness, matchBAT_clean (route_block hr).2.1]
  | page pte =>
    rw [hr] at h
    cases h
    exact pteUse_not_clean _ _ addr _

variable {s : Mem}

/-- A lookup after a walk finds the walk's translation. -/
theorem utlbLookup_resolve {r : Fresh} {h : HVA}
    (hr : resolve c m mem addr inD rnW priv = .ok r) (ht : c.map.target r.pa = some h) :
    (m.utlbSet inD priv addr h r.perms).utlbLookup inD priv addr = some (h, r.perms) := by
  rw [utlbLookup_utlbSet m inD priv h r.perms rfl, target_join ht (resolve_offset hr)]

/-- **`do_lookup` walks once.** It returns the walk's fault, or the walk's
address where the walk's permissions allow the access; it never goes
round again. -/
theorem doLookup_eq (rnW : Bool) (hw : WalkInRam c.map s.mmu addr inD priv) (n : ℕ) :
    (∃ f i, resolve c s.mmu s.sys.mem addr inD rnW priv = .error f ∧
      doLookup c addr inD rnW priv (n + 1) s =
        .ok (.error f) { s with sys := { s.sys with lastDev := i } }) ∨
    (∃ r t, resolve c s.mmu s.sys.mem addr inD rnW priv = .ok r ∧ c.map.target r.pa = none ∧
      doLookup c addr inD rnW priv (n + 1) s = .abort (.busMiss r.pa) t) ∨
    (∃ r h i, resolve c s.mmu s.sys.mem addr inD rnW priv = .ok r ∧
      c.map.target r.pa = some h ∧ doLookup c addr inD rnW priv (n + 1) s =
        .ok (if checkPerms c.build r.perms rnW inD then .ok h else .error .perms)
          ⟨s.mmu.utlbSet inD priv addr h r.perms, { s.sys with mem := r.mem, lastDev := i }⟩) := by
  rw [doLookup]
  cases hr : resolve c s.mmu s.sys.mem addr inD rnW priv with
  | error f =>
    obtain ⟨i, hi⟩ := translateEA_of_error hw hr
    exact .inl ⟨f, i, rfl, by rw [Prog.bind_of_ok hi]; rfl⟩
  | ok r =>
    right
    rcases translateEA_of_ok hw hr with ⟨hn, t, ha⟩ | ⟨h, i, hh, hi⟩
    · exact .inl ⟨r, t, rfl, hn, by rw [Prog.bind_of_abort ha]⟩
    · refine .inr ⟨r, h, i, rfl, hh, ?_⟩
      rw [Prog.bind_of_ok hi]
      simp only [Prog.gets_bind_apply, utlbLookup_resolve hr hh]
      by_cases hc : checkPerms c.build r.perms rnW inD = true
      · simp only [hc, if_true]
        rfl
      · simp only [hc, Bool.false_eq_true, if_false, resolve_not_clean hr]
        rfl

/-- With nothing in the uTLB an address is looked up. -/
theorem translateAddr_of_empty (h : ∀ a idx, s.mmu.utlb a idx = ⟨0, 0⟩) :
    translateAddr c addr inD rnW priv s = doLookup c addr inD rnW priv 2 s := by
  have hmiss : s.mmu.utlbLookup inD priv addr = none := by
    unfold utlbLookup
    simp only [h]
    rw [if_neg]
    exact fun htag => Utlb.tag_ne_zero _ _ htag.symm
  rw [translateAddr, Prog.gets_bind_apply]
  simp only [hmiss]

/-- What one call of `translateAddr` that returns has done. -/
inductive Outcome (c : Config) (addr : VA) (inD rnW priv : Bool) (s : Mem) :
    Except Fault HVA → Mem → Prop
  /-- The entry found allows the access. -/
  | hit {h : HVA} {p : MmuPerms} (hl : s.mmu.utlbLookup inD priv addr = some (h, p))
      (hc : checkPerms c.build p rnW inD = true) : Outcome c addr inD rnW priv s (.ok h) s
  /-- The entry found refuses it. -/
  | refused {h : HVA} {p : MmuPerms} (hl : s.mmu.utlbLookup inD priv addr = some (h, p))
      (hc : checkPerms c.build p rnW inD = false)
      (hd : checkFaultWasCleanliness c.build p rnW inD = false) :
      Outcome c addr inD rnW priv s (.error .perms) s
  /-- There is no usable entry, and the walk ends in a fault. -/
  | fault {f : Fault} (i : ℕ)
      (hr : resolve c s.mmu s.sys.mem addr inD rnW priv = .error f) :
      Outcome c addr inD rnW priv s (.error f) { s with sys := { s.sys with lastDev := i } }
  /-- There is no usable entry, and the walk makes one. -/
  | walk {r : Fresh} {h : HVA} (i : ℕ)
      (hr : resolve c s.mmu s.sys.mem addr inD rnW priv = .ok r)
      (ht : c.map.target r.pa = some h) :
      Outcome c addr inD rnW priv s
        (if checkPerms c.build r.perms rnW inD then .ok h else .error .perms)
        ⟨s.mmu.utlbSet inD priv addr h r.perms, { s.sys with mem := r.mem, lastDev := i }⟩

theorem doLookup_outcome {res : Except Fault HVA} {s' : Mem} {n : ℕ}
    (hw : WalkInRam c.map s.mmu addr inD priv)
    (h : doLookup c addr inD rnW priv (n + 1) s = .ok res s') :
    Outcome c addr inD rnW priv s res s' := by
  rcases doLookup_eq rnW hw n with ⟨f, i, hr, hd⟩ | ⟨r, t, -, -, hd⟩ | ⟨r, k, i, hr, ht, hd⟩
  · rw [hd] at h
    cases h
    exact .fault i hr
  · rw [hd] at h
    cases h
  · rw [hd] at h
    cases h
    exact .walk i hr ht

/-- **What `translateAddr` does.** -/
theorem translateAddr_outcome {res : Except Fault HVA} {s' : Mem}
    (hw : WalkInRam c.map s.mmu addr inD priv)
    (h : translateAddr c addr inD rnW priv s = .ok res s') :
    Outcome c addr inD rnW priv s res s' := by
  rw [translateAddr, Prog.gets_bind_apply] at h
  cases hl : s.mmu.utlbLookup inD priv addr with
  | none =>
    simp only [hl] at h
    exact doLookup_outcome hw h
  | some hp =>
    obtain ⟨k, p⟩ := hp
    simp only [hl] at h
    by_cases hc : checkPerms c.build p rnW inD = true
    · simp only [hc, if_true] at h
      cases h
      exact .hit hl hc
    · simp only [hc, Bool.false_eq_true, if_false] at h
      by_cases hd : checkFaultWasCleanliness c.build p rnW inD = true
      · simp only [hd, if_true] at h
        exact doLookup_outcome hw h
      · simp only [hd, Bool.false_eq_true, if_false] at h
        cases h
        exact .refused hl (by simpa using hc) (by simpa using hd)

end Mmu

end MrIss
