import MrIss.Mmu.Strings
import MrIss.Mmu.Uncached
/-!
# Words accessed again

Two states of an MMU, the second of them one in which some words of a
string have been accessed before: `Redo` says that they differ in no more
than accessing the string makes the same, which are the words themselves
if they are stored, and R and C of the page-table entries. Accesses to the
whole string end in the same memory then, and loads give the same words.
-/

namespace MrIss

open EarlyReturn

/-! ## Words of RAM and their bytes -/

/-- A byte of the word at a host address. -/
def InWord (h a : HVA) : Prop := (a - h).toNat < 4

theorem inWord_add (h : HVA) {k : ℕ} (hk : k < 4) : InWord h (h + BitVec.ofNat 64 k) := by
  rw [InWord, BitVec.add_comm, BitVec.add_sub_cancel, BitVec.toNat_ofNat]
  omega

/-- The word at a host address is its bytes. -/
theorem swap32_read32_eq_iff {mem mem' : HostMem} {h : HVA} :
    ByteMem.swap32 (ByteMem.read32 mem' h) = ByteMem.swap32 (ByteMem.read32 mem h) ↔
      ∀ a, InWord h a → mem' a = mem a := by
  constructor
  · intro heq a ha
    have hbytes := congrArg ByteMem.ofWord heq
    rw [ByteMem.ofWord_read32, ByteMem.ofWord_read32] at hbytes
    have hat := congrArg (·[(a - h).toNat]?) hbytes
    simp only [ByteMem.getElem?_bytes _ _ ha, Option.some.injEq, BitVec.ofNat_toNat,
      BitVec.setWidth_eq] at hat
    rwa [BitVec.add_comm, BitVec.sub_add_cancel] at hat
  · intro hall
    have h0 := hall _ (inWord_add h (by decide : 0 < 4))
    have h1 := hall _ (inWord_add h (by decide : 1 < 4))
    have h2 := hall _ (inWord_add h (by decide : 2 < 4))
    have h3 := hall _ (inWord_add h (by decide : 3 < 4))
    rw [BitVec.add_zero] at h0
    rw [ByteMem.read32, ByteMem.read32, h0, h1, h2, h3]

theorem PagedBus.word_eq_iff {B : PagedBus} {mem mem' : HostMem} {q : PA} {h : HVA}
    (hq : B.ramAt q = some h) : B.word mem' q = B.word mem q ↔
      ∀ a, InWord h a → mem' a = mem a := by
  simp only [PagedBus.word, hq]
  exact swap32_read32_eq_iff

/-- A word of RAM is replaced in its bytes. -/
theorem PagedBus.putWord_of_not {B : PagedBus} {mem : HostMem} {q : PA} {v : BitVec 32} {a : HVA}
    (ha : ∀ h, B.ramAt q = some h → ¬ InWord h a) : B.putWord mem q v a = mem a := by
  unfold PagedBus.putWord
  cases hq : B.ramAt q with
  | none => rfl
  | some h =>
    have hout : 4 ≤ (a - h).toNat := Nat.le_of_not_lt (ha h hq)
    dsimp only
    rw [ByteMem.write32_eq_writeBytes _ _ _ (by decide)]
    exact ByteMem.writeBytes_of_le hout

/-- A page of which one byte is in RAM is in RAM. -/
theorem PagedBus.ramAt_of_add {B : PagedBus} {q : PA} {h : HVA} {n : ℕ}
    (hq : q.toNat % 4096 + n < 4096) (hram : B.ramAt (q + BitVec.ofNat 32 n) = some h) :
    ∃ g, B.ramAt q = some g := by
  obtain ⟨d, r, hd, hr, -⟩ := ramAt_eq_some_iff.mp hram
  have hbase : Block.base 12 q = Block.base 12 (q + BitVec.ofNat 32 n) :=
    (Block.base_add (by omega) (by omega)).symm
  exact ⟨_, ramAt_eq_some_iff.mpr ⟨d, r, deviceAt_page hd hr hbase, hr, rfl⟩⟩

namespace Mmu

variable {c : Config} {m : Mmu} {mem mem' : HostMem} {rnW priv : Bool} {addr b : VA} {h : HVA}

/-! ## R and C -/

/-- The word that an access leaves in an entry that grants it: R is set,
and C for a store, in a build that sets them. -/
def marked (b : Build) (rnW : Bool) (w : BitVec 32) : BitVec 32 :=
  if b.updateRC then w ||| (if rnW then 0x100#32 else 0x180#32) else w

theorem marked_marked (b : Build) (rnW : Bool) (w : BitVec 32) :
    marked b rnW (marked b rnW w) = marked b rnW w := by
  unfold marked
  split_ifs
  · rw [BitVec.or_assoc, BitVec.or_self]
  · rw [BitVec.or_assoc, BitVec.or_self]
  · rfl

theorem or_r {w : BitVec 32} (h : pteR w = true) : w ||| 0x100#32 = w := by
  rw [pteR_eq] at h
  apply BitVec.eq_of_getLsbD_eq
  intro i hi
  rw [BitVec.getLsbD_or, show (0x100#32 : BitVec 32) = BitVec.twoPow 32 8 from rfl,
    BitVec.getLsbD_twoPow]
  by_cases h8 : 8 = i
  · rw [← h8, h, Bool.true_or]
  · simp [h8]

theorem or_c {w : BitVec 32} (h : pteC w = true) : w ||| 0x180#32 = w ||| 0x100#32 := by
  rw [pteC_eq] at h
  apply BitVec.eq_of_getLsbD_eq
  intro i hi
  rw [show (0x180#32 : BitVec 32) = BitVec.twoPow 32 7 ||| 0x100#32 from rfl, ← BitVec.or_assoc,
    BitVec.getLsbD_or, BitVec.getLsbD_or, BitVec.getLsbD_or, BitVec.getLsbD_twoPow]
  by_cases h7 : 7 = i
  · rw [← h7, h, Bool.true_or, Bool.true_or]
  · simp [h7]

/-- What a walk leaves in an entry that grants the access. -/
theorem pteAfter_eq_marked {b : Build} {sr : Seg} {w : BitVec 32}
    (hgrant : rnW = false → (sr.pageRights priv (w &&& 3#32)).2 = true) :
    pteAfter b sr rnW priv w = marked b rnW w := by
  unfold pteAfter marked setsC
  cases hb : b.updateRC with
  | false => rfl
  | true =>
    cases hrnw : rnW with
    | true =>
      cases hR : pteR w with
      | false => rfl
      | true => exact (or_r hR).symm
    | false =>
      rw [hgrant hrnw]
      cases hC : pteC w with
      | false => simp
      | true =>
        cases hR : pteR w with
        | false => exact (or_c hC).symm
        | true =>
          have hboth : w ||| 0x180#32 = w := (or_c hC).trans (or_r hR)
          exact hboth.symm

/-- Words that are the same once marked give the same page, and the same
rights. -/
theorem keeps_of_marked {b : Build} {w w' : BitVec 32} (h : marked b rnW w' = marked b rnW w) :
    w' &&& 0xfffff000#32 = w &&& 0xfffff000#32 ∧ w' &&& 3#32 = w &&& 3#32 ∧
      (b.updateRC = false → w' = w) := by
  unfold marked at h
  cases hb : b.updateRC with
  | false =>
    rw [hb] at h
    have heq : w' = w := h
    exact ⟨by rw [heq], by rw [heq], fun _ => heq⟩
  | true =>
    have hrc (v : BitVec 32) : RcWord v (v ||| if rnW then 0x100#32 else 0x180#32) := by
      cases rnW with
      | true => exact .inl rfl
      | false => exact .inr rfl
    simp only [hb, if_true] at h
    have h' := (hrc w').keeps
    rw [h] at h'
    obtain ⟨hbase, hpp⟩ := (hrc w).keeps
    exact ⟨h'.1.symm.trans hbase, h'.2.symm.trans hpp, fun hno => by cases hno⟩

/-- Whether an entry grants a data access. -/
theorem checkPerms_pteUse (b : Build) (sr : Seg) (w : BitVec 32) :
    checkPerms b (pteUse b sr addr rnW priv w).perms rnW false =
      if rnW then (sr.pageRights priv (w &&& 3#32)).1
      else (sr.pageRights priv (w &&& 3#32)).2 && (b.updateRC || pteC w) := by
  rw [pteUse_perms, checkPerms]
  generalize (sr.pageRights priv (w &&& 3#32)) = rights
  cases b.updateRC <;> cases rnW <;> cases rights.2 <;> cases pteC w <;> rfl

/-- What is answered of an address that has an entry. -/
theorem uncached_page {pte : PA}
    (hr : m.route (c.map.word mem) (m.enabled false) addr false priv = .page pte) :
    (uncached c m mem addr false rnW priv).1 =
      if checkPerms c.build (pteUse c.build (m.segOf addr) addr rnW priv
          (c.map.word mem (pte + 4))).perms rnW false then
        .ok (c.map.hva (pteUse c.build (m.segOf addr) addr rnW priv
          (c.map.word mem (pte + 4))).addr)
      else .error .perms := by
  simp only [uncached, resolve, hr]

/-! ## Entries that agree -/

/-- The entries that a walk for an address reads agree in two memories, but
for bits that an access sets. -/
def EntriesAlike (c : Config) (m : Mmu) (rnW : Bool) (addr : VA) (mem mem' : HostMem) : Prop :=
  ∀ slot ∈ m.pteSlots addr, c.map.word mem' slot.1 = c.map.word mem slot.1 ∧
    marked c.build rnW (c.map.word mem' (slot.1 + 4)) =
      marked c.build rnW (c.map.word mem (slot.1 + 4))

namespace EntriesAlike

theorem refl (c : Config) (m : Mmu) (rnW : Bool) (addr : VA) (mem : HostMem) :
    EntriesAlike c m rnW addr mem mem := fun _ _ => ⟨rfl, rfl⟩

theorem symm (h : EntriesAlike c m rnW addr mem mem') : EntriesAlike c m rnW addr mem' mem :=
  fun slot hs => ⟨(h slot hs).1.symm, (h slot hs).2.symm⟩

theorem trans {mem'' : HostMem} (h : EntriesAlike c m rnW addr mem mem')
    (h' : EntriesAlike c m rnW addr mem' mem'') : EntriesAlike c m rnW addr mem mem'' :=
  fun slot hs => ⟨(h' slot hs).1.trans (h slot hs).1, (h' slot hs).2.trans (h slot hs).2⟩

/-- An address is translated in the same way. -/
theorem route (h : EntriesAlike c m rnW addr mem mem') (tr inD priv : Bool) :
    m.route (c.map.word mem') tr addr inD priv = m.route (c.map.word mem) tr addr inD priv :=
  route_congr (pteFor_congr fun slot hs => (h slot hs).1)

/-- The entry of an address agrees. -/
theorem entry (h : EntriesAlike c m rnW addr mem mem') {tr inD : Bool} {pte : PA}
    (hr : m.route (c.map.word mem) tr addr inD priv = .page pte) :
    marked c.build rnW (c.map.word mem' (pte + 4)) =
      marked c.build rnW (c.map.word mem (pte + 4)) := by
  obtain ⟨slot, hs, rfl⟩ := pteFor_mem (route_page_entry hr).2.2.2
  exact (h slot hs).2

/-- **The same is answered.** -/
theorem uncached (h : EntriesAlike c m rnW addr mem mem') :
    (uncached c m mem' addr false rnW priv).1 = (uncached c m mem addr false rnW priv).1 := by
  have hroute := h.route (m.enabled false) false priv
  cases hr : m.route (c.map.word mem) (m.enabled false) addr false priv with
  | page pte =>
    obtain ⟨hbase, hpp, hsame⟩ := keeps_of_marked (h.entry hr)
    rw [hr] at hroute
    have hgrant : (c.build.updateRC || pteC (c.map.word mem' (pte + 4))) =
        (c.build.updateRC || pteC (c.map.word mem (pte + 4))) := by
      cases hb : c.build.updateRC with
      | true => rw [Bool.true_or, Bool.true_or]
      | false => rw [hsame hb]
    rw [uncached_page hroute, uncached_page hr, checkPerms_pteUse, checkPerms_pteUse, hpp, hgrant,
      pteUse_addr, pteUse_addr]
    exact congrArg (fun base => ite _ (Except.ok (c.map.hva (base ||| Block.offset 12 addr))) _) hbase
  | off => simp only [Mmu.uncached, resolve, hroute, hr]
  | denied => simp only [Mmu.uncached, resolve, hroute, hr]
  | block pa p => simp only [Mmu.uncached, resolve, hroute, hr]
  | noExecute => simp only [Mmu.uncached, resolve, hroute, hr]
  | noPage => simp only [Mmu.uncached, resolve, hroute, hr]

end EntriesAlike

/-- Where an access is let through, without a uTLB. -/
def Place (c : Config) (rnW priv : Bool) (addr : VA) (s : Mem) (h : HVA) : Prop :=
  (uncached c s.mmu s.sys.mem addr false rnW priv).1 = .ok h

/-- The bytes in which an access may set R and C. -/
def Marks (c : Config) (priv : Bool) (addr : VA) (s : Mem) (a : HVA) : Prop :=
  ∃ pte h, s.mmu.route (c.map.word s.sys.mem) (s.mmu.enabled false) addr false priv = .page pte ∧
    c.map.ramAt (pte + 4) = some h ∧ InWord h a

/-- The bytes of the entries that a walk may read. -/
def InEntries (c : Config) (m : Mmu) (addr : VA) (a : HVA) : Prop :=
  ∃ slot ∈ m.pteSlots addr, ∃ h, c.map.ramAt slot.1 = some h ∧ (a - h).toNat < 8

/-! ## What a translation leaves -/

variable {s s' t t' : Mem}

/-- Bytes where no R or C is set stay. -/
theorem uncached_of_not_marks {a : HVA} (ha : ¬ Marks c priv addr s a) :
    (uncached c s.mmu s.sys.mem addr false rnW priv).2 a = s.sys.mem a := by
  unfold uncached resolve
  cases hr : s.mmu.route (c.map.word s.sys.mem) (s.mmu.enabled false) addr false priv with
  | off => rfl
  | denied => rfl
  | block pa p => rfl
  | noExecute => rfl
  | noPage => rfl
  | page pte =>
    dsimp only
    cases (pteUse c.build (s.mmu.segOf addr) addr rnW priv
        (c.map.word s.sys.mem (pte + 4))).update with
    | none => rfl
    | some v => exact PagedBus.putWord_of_not fun h hh hin => ha ⟨pte, h, hr, hh, hin⟩

/-- **The words that an access leaves** where it is let through. -/
theorem uncached_word (hw : WalkInRam c.map s.mmu addr false priv)
    (hp : Place c rnW priv addr s h) {pte : PA}
    (hr : s.mmu.route (c.map.word s.sys.mem) (s.mmu.enabled false) addr false priv = .page pte)
    {q : PA} (hq : q.toNat % 4 = 0) :
    c.map.word (uncached c s.mmu s.sys.mem addr false rnW priv).2 q =
      if q = pte + 4 then marked c.build rnW (c.map.word s.sys.mem (pte + 4))
      else c.map.word s.sys.mem q := by
  unfold Place at hp
  unfold uncached at hp ⊢
  cases hres : resolve c s.mmu s.sys.mem addr false rnW priv with
  | error f => rw [hres] at hp; cases hp
  | ok r =>
    rw [hres] at hp
    dsimp only at hp ⊢
    obtain ⟨-, hperms, -, hword⟩ := resolve_page hr hres (hw.table hr)
    have hgrant : checkPerms c.build r.perms rnW false = true := by
      by_contra hno
      rw [if_neg hno] at hp
      cases hp
    rw [hperms, checkPerms_pteUse] at hgrant
    rw [hword q hq, pteAfter_eq_marked fun hrnw => ?_]
    rw [hrnw] at hgrant
    simp only [Bool.false_eq_true, if_false, Bool.and_eq_true] at hgrant
    exact hgrant.1

/-- Where the address has no entry, memory stays. -/
theorem uncached_of_not_page
    (hr : ∀ pte, s.mmu.route (c.map.word s.sys.mem) (s.mmu.enabled false) addr false priv ≠
      .page pte) : (uncached c s.mmu s.sys.mem addr false rnW priv).2 = s.sys.mem := by
  funext a
  exact uncached_of_not_marks fun ⟨pte, _, hpage, _⟩ => hr pte hpage

/-- **An access leaves every entry alike.** -/
theorem alike_uncached (hw : WalkInRam c.map s.mmu addr false priv)
    (hp : Place c rnW priv addr s h) (b : VA) :
    EntriesAlike c s.mmu rnW b s.sys.mem (uncached c s.mmu s.sys.mem addr false rnW priv).2 := by
  by_cases hpage : ∃ pte,
      s.mmu.route (c.map.word s.sys.mem) (s.mmu.enabled false) addr false priv = .page pte
  · obtain ⟨pte, hr⟩ := hpage
    obtain ⟨-, -, h4⟩ := pteFor_ram (hw.table hr) (route_page_entry hr).2.2.2
    intro slot hs
    have h8 := slot_aligned hs
    have hnext : (slot.1 + 4).toNat % 4 = 0 := by
      rw [BitVec.toNat_add, show (4 : BitVec 32).toNat = 4 from rfl]
      omega
    rw [uncached_word hw hp hr (by omega), uncached_word hw hp hr hnext]
    constructor
    · rw [if_neg]
      rintro heq
      rw [heq] at h8
      omega
    · split_ifs with heq
      · rw [marked_marked, heq]
      · rfl
  · rw [uncached_of_not_page fun pte hr => hpage ⟨pte, hr⟩]
    exact EntriesAlike.refl c s.mmu rnW b s.sys.mem

/-! ## States that translate alike -/

theorem uncached_registers {m' : Mmu} (hreg : m'.registers = m.registers) :
    uncached c m' mem addr false rnW priv = uncached c m mem addr false rnW priv := by
  change uncached c m'.registers mem addr false rnW priv = _
  rw [hreg]
  rfl

theorem route_registers {m' : Mmu} (hreg : m'.registers = m.registers) {word : PA → BitVec 32}
    {tr inD : Bool} : m'.route word tr addr inD priv = m.route word tr addr inD priv := by
  change m'.registers.route word tr addr inD priv = _
  rw [hreg]
  rfl

theorem enabled_registers {m' : Mmu} (hreg : m'.registers = m.registers) (inD : Bool) :
    m'.enabled inD = m.enabled inD := by
  rw [enabled, enabled, enabledI_of_registers hreg, enabledD_of_registers hreg]

theorem pteSlots_registers {m' : Mmu} (hreg : m'.registers = m.registers) :
    m'.pteSlots addr = m.pteSlots addr := by
  change m'.registers.pteSlots addr = _
  rw [hreg]
  rfl

section

variable (hreg : s'.mmu.registers = s.mmu.registers)
  (hal : EntriesAlike c s.mmu rnW addr s.sys.mem s'.sys.mem)

include hreg hal

/-- Entries that agree make the same route. -/
theorem route_alike :
    s'.mmu.route (c.map.word s'.sys.mem) (s'.mmu.enabled false) addr false priv =
      s.mmu.route (c.map.word s.sys.mem) (s.mmu.enabled false) addr false priv := by
  rw [enabled_registers hreg, route_registers hreg, hal.route]

theorem place_alike : Place c rnW priv addr s' h ↔ Place c rnW priv addr s h := by
  rw [Place, Place, uncached_registers hreg, hal.uncached]

theorem marks_alike {a : HVA} : Marks c priv addr s' a ↔ Marks c priv addr s a := by
  rw [Marks, Marks, route_alike hreg hal]

/-- **Accesses to the same place settle R and C.** Bytes that agreed, or
hold them, agree. -/
theorem uncached_settles (hw : WalkInRam c.map s.mmu addr false priv)
    (hp : Place c rnW priv addr s h) {a : HVA}
    (ha : Marks c priv addr s a ∨ s'.sys.mem a = s.sys.mem a) :
    (uncached c s'.mmu s'.sys.mem addr false rnW priv).2 a =
      (uncached c s.mmu s.sys.mem addr false rnW priv).2 a := by
  by_cases hm : Marks c priv addr s a
  · obtain ⟨pte, k, hr, hk, hin⟩ := hm
    have hr' := (route_alike hreg hal).trans hr
    have hw' : WalkInRam c.map s'.mmu addr false priv := walkInRam_registers hreg hw
    have hp' : Place c rnW priv addr s' h := (place_alike hreg hal).mpr hp
    obtain ⟨-, -, h4⟩ := pteFor_ram (hw.table hr) (route_page_entry hr).2.2.2
    refine (PagedBus.word_eq_iff hk).mp ?_ a hin
    rw [uncached_word hw' hp' hr' (by omega), uncached_word hw hp hr (by omega), if_pos rfl,
      if_pos rfl]
    exact hal.entry hr
  · have hm' : ¬ Marks c priv addr s' a := fun h => hm ((marks_alike hreg hal).mp h)
    rw [uncached_of_not_marks hm, uncached_of_not_marks hm']
    exact ha.resolve_left hm

end

/-! ## What the uTLB holds stays backed -/

/-- **A translation keeps what is found of an address backed,** of its own
address or another. -/
theorem HitBacked.translateAddr {res : Except Fault HVA} (hb : HitBacked c false priv b s)
    (hw : WalkInRam c.map s.mmu addr false priv)
    (ht : translateAddr c addr false rnW priv s = .ok res t) : HitBacked c false priv b t := by
  have hothers (hidx : addrToIdx b ≠ addrToIdx addr) :=
    utlbLookup_translateAddr (i := false) (p := priv) ht hidx
  cases translateAddr_outcome hw ht with
  | hit hl hc => exact hb
  | refused hl hc hd => exact hb
  | fault i hr => exact hb
  | @walk r k i hr htar =>
    have hside : SameSide false s.mmu (s.mmu.utlbSet false priv addr k r.perms) :=
      ⟨rfl, rfl, rfl, rfl⟩
    intro g p hl
    by_cases hidx : addrToIdx b = addrToIdx addr
    · -- the entry of the walk, which is found for its page alone
      obtain ⟨hea, -, -⟩ := utlbLookup_eq_some.mp hl
      rw [hidx] at hea
      dsimp only [utlbSet] at hea
      rw [Function.update_self, Function.update_self] at hea
      obtain ⟨hab, -⟩ := Utlb.tag_inj hea
      have hfound := utlbLookup_utlbSet s.mmu false priv k r.perms hab.symm
      cases hfound.symm.trans hl
      refine ⟨_, hside.backed ((backed_of_resolve hw hr).page hab.symm), ?_⟩
      rw [PagedBus.hva_page (b := Block.base 12 r.pa ||| Block.offset 12 b) htar
        (Block.base_join ..), offset_setWidth, offset_setWidth, Block.offset_join]
    · rw [hothers hidx] at hl
      obtain ⟨pa, hback, hva⟩ := hb g p hl
      exact ⟨pa, hside.backed (hback.walk hw hr), hva⟩

/-- **Bytes put elsewhere** than in the entries of an address do not unmake
what is found of it. -/
theorem HitBacked.put {bs : List (BitVec 8)} (hb : HitBacked c false priv b s)
    (hout : ∀ slot ∈ s.mmu.pteSlots b,
      c.map.word (put s h bs).sys.mem slot.1 = c.map.word s.sys.mem slot.1 ∧
      c.map.word (put s h bs).sys.mem (slot.1 + 4) = c.map.word s.sys.mem (slot.1 + 4)) :
    HitBacked c false priv b (put s h bs) := by
  intro g p hl
  obtain ⟨pa, hback, hva⟩ := hb g p hl
  refine ⟨pa, hback.congr (route_congr (pteFor_congr fun slot hs => (hout slot hs).1)) ?_, hva⟩
  intro pte hpte _
  obtain ⟨slot, hs, rfl⟩ := pteFor_mem hpte
  rw [(hout slot hs).2]
  exact ⟨rfl, id⟩

/-- Bytes outside the entries of an address leave their words. -/
theorem words_put {bs : List (BitVec 8)}
    (hout : ∀ a, (a - h).toNat < bs.length → ¬ InEntries c s.mmu b a) :
    ∀ slot ∈ s.mmu.pteSlots b,
      c.map.word (put s h bs).sys.mem slot.1 = c.map.word s.sys.mem slot.1 ∧
      c.map.word (put s h bs).sys.mem (slot.1 + 4) = c.map.word s.sys.mem (slot.1 + 4) := by
  intro slot hs
  have hkeep (a : HVA) (ha : InEntries c s.mmu b a) : (Mmu.put s h bs).sys.mem a = s.sys.mem a :=
    ByteMem.writeBytes_of_le (Nat.le_of_not_lt fun hlt => hout a hlt ha)
  cases hk : c.map.ramAt slot.1 with
  | none =>
    have h8 := slot_aligned hs
    have hno : c.map.ramAt (slot.1 + 4) = none := by
      cases hk4 : c.map.ramAt (slot.1 + 4) with
      | none => rfl
      | some k =>
        obtain ⟨g, hg⟩ := PagedBus.ramAt_of_add (n := 4) (by omega) hk4
        rw [hk] at hg
        cases hg
    simp only [PagedBus.word, hk, hno, and_self]
  | some k =>
    have h8 := slot_aligned hs
    have hk4 : c.map.ramAt (slot.1 + 4) = some (k + 4) :=
      PagedBus.ramAt_add (n := 4) (by omega) hk
    constructor
    · refine (PagedBus.word_eq_iff hk).mpr fun a ha => hkeep a ⟨slot, hs, k, hk, ?_⟩
      exact Nat.lt_of_lt_of_le ha (by decide)
    · refine (PagedBus.word_eq_iff hk4).mpr fun a ha => hkeep a ⟨slot, hs, k, hk, ?_⟩
      rw [InWord] at ha
      have hsub : a - k = (a - (k + 4)) + 4 := by
        rw [← BitVec.sub_sub, BitVec.sub_add_cancel]
      rw [hsub, BitVec.toNat_add, show (4 : HVA).toNat = 4 from rfl]
      omega

/-! ## Strings accessed again -/

/-- The address of a word of a string. -/
def wordAt (addr : VA) (j : ℕ) : VA := addr + BitVec.ofNat 32 (4 * j)

@[simp] theorem wordAt_zero (addr : VA) : wordAt addr 0 = addr := BitVec.add_zero addr

theorem wordAt_succ (addr : VA) (j : ℕ) :
    wordAt addr (j + 1) = wordAt (addr + BitVec.ofNat 32 4) j := by
  rw [wordAt, wordAt, BitVec.add_assoc, BitVec.ofNat_add_ofNat, Nat.mul_succ, Nat.add_comm 4]

/-- **The second state may go again.** It translates the words of a string
as the first does, to RAM; and its memory is the first's, but for what
accessing the string settles: R and C of the entries that translate it,
and the words themselves if they are to be stored. What is to be loaded
is the same, and nothing is to be stored over the entries. -/
structure Redo (c : Config) (rnW priv : Bool) (addr : VA) (n : ℕ) (s s' : Mem) : Prop where
  registers : s'.mmu.registers = s.mmu.registers
  walks : ∀ j < n, WalkInRam c.map s.mmu (wordAt addr j) false priv
  backed : ∀ j < n, HitBacked c false priv (wordAt addr j) s ∧
    HitBacked c false priv (wordAt addr j) s'
  entries : ∀ j < n, EntriesAlike c s.mmu rnW (wordAt addr j) s.sys.mem s'.sys.mem
  ram : ∀ j < n, ∀ h, Place c rnW priv (wordAt addr j) s h → isDirect h = true
  clear : rnW = false → ∀ i < n, ∀ h, Place c rnW priv (wordAt addr i) s h → ∀ a, InWord h a →
    ∀ j < n, ¬ InEntries c s.mmu (wordAt addr j) a
  same : rnW = true → ∀ j < n, ∀ h, Place c rnW priv (wordAt addr j) s h → ∀ a, InWord h a →
    s'.sys.mem a = s.sys.mem a
  differ : ∀ a, s'.sys.mem a ≠ s.sys.mem a → (∃ j < n, Marks c priv (wordAt addr j) s a) ∨
    rnW = false ∧ ∃ j < n, ∃ h, Place c rnW priv (wordAt addr j) s h ∧ InWord h a

namespace Redo

variable {n : ℕ}

/-- Where there is nothing left to access, memory is the same. -/
theorem done (h : Redo c rnW priv addr 0 s s') : s'.sys.mem = s.sys.mem := by
  funext a
  by_contra hne
  rcases h.differ a hne with ⟨j, hj, -⟩ | ⟨-, j, hj, -⟩
  · exact absurd hj (Nat.not_lt_zero j)
  · exact absurd hj (Nat.not_lt_zero j)

/-- The words behind the first, once that is settled. -/
theorem tail (h : Redo c rnW priv addr (n + 1) s s')
    (hset : ∀ a, s'.sys.mem a ≠ s.sys.mem a → ¬ Marks c priv addr s a ∧
      (rnW = false → ∀ g, Place c rnW priv addr s g → ¬ InWord g a)) :
    Redo c rnW priv (addr + BitVec.ofNat 32 4) n s s' := by
  refine ⟨h.registers, ?_, ?_, ?_, ?_, ?_, ?_, ?_⟩
  · intro j hj
    rw [← wordAt_succ]
    exact h.walks _ (by omega)
  · intro j hj
    rw [← wordAt_succ]
    exact h.backed _ (by omega)
  · intro j hj
    rw [← wordAt_succ]
    exact h.entries _ (by omega)
  · intro j hj
    rw [← wordAt_succ]
    exact h.ram _ (by omega)
  · intro hrnw i hi
    rw [← wordAt_succ]
    intro g hg a ha j hj
    rw [← wordAt_succ]
    exact h.clear hrnw _ (by omega) g hg a ha _ (by omega)
  · intro hrnw j hj
    rw [← wordAt_succ]
    exact h.same hrnw _ (by omega)
  · intro a hne
    obtain ⟨hmark, hword⟩ := hset a hne
    rcases h.differ a hne with ⟨j, hj, hm⟩ | ⟨hrnw, j, hj, g, hg, ha⟩
    · cases j with
      | zero => exact absurd (wordAt_zero addr ▸ hm) hmark
      | succ j => exact .inl ⟨j, by omega, by rwa [← wordAt_succ]⟩
    · cases j with
      | zero => exact absurd ha (hword hrnw g (wordAt_zero addr ▸ hg))
      | succ j => exact .inr ⟨hrnw, j, by omega, g, by rwa [← wordAt_succ], ha⟩

/-- A later pair of states, each of whose memories translates the string as
before. -/
theorem later (h : Redo c rnW priv addr n s s') (ht : t.mmu.registers = s.mmu.registers)
    (ht' : t'.mmu.registers = s'.mmu.registers)
    (hal : ∀ j < n, EntriesAlike c s.mmu rnW (wordAt addr j) s.sys.mem t.sys.mem)
    (hal' : ∀ j < n, EntriesAlike c s.mmu rnW (wordAt addr j) s'.sys.mem t'.sys.mem)
    (hback : ∀ j < n, HitBacked c false priv (wordAt addr j) t ∧
      HitBacked c false priv (wordAt addr j) t')
    (hkeep : ∀ a, s'.sys.mem a = s.sys.mem a → t'.sys.mem a = t.sys.mem a) :
    Redo c rnW priv addr n t t' := by
  have hplace {j : ℕ} (hj : j < n) {g : HVA} :
      Place c rnW priv (wordAt addr j) t g ↔ Place c rnW priv (wordAt addr j) s g :=
    place_alike ht (hal j hj)
  refine ⟨ht'.trans (h.registers.trans ht.symm), ?_, hback, ?_, ?_, ?_, ?_, ?_⟩
  · intro j hj
    exact walkInRam_registers ht (h.walks j hj)
  · intro j hj
    have hall := (hal j hj).symm.trans ((h.entries j hj).trans (hal' j hj))
    intro slot hs
    rw [pteSlots_registers ht] at hs
    exact hall slot hs
  · intro j hj g hg
    exact h.ram j hj g ((hplace hj).mp hg)
  · intro hrnw i hi g hg a ha j hj hin
    refine h.clear hrnw i hi g ((hplace hi).mp hg) a ha j hj ?_
    rwa [InEntries, ← pteSlots_registers ht]
  · intro hrnw j hj g hg a ha
    exact hkeep a (h.same hrnw j hj g ((hplace hj).mp hg) a ha)
  · intro a hne
    rcases h.differ a fun heq => hne (hkeep a heq) with ⟨j, hj, hm⟩ | ⟨hrnw, j, hj, g, hg, ha⟩
    · exact .inl ⟨j, hj, (marks_alike ht (hal j hj)).mpr hm⟩
    · exact .inr ⟨hrnw, j, hj, g, (hplace hj).mpr hg, ha⟩

/-- An access that is let through to RAM does not end the simulator. -/
theorem answered_ok {o : Out Abort Mem (Except Fault HVA)} (hp : Place c rnW priv addr s h)
    (hd : isDirect h = true)
    (ho : Answers c s.mmu s.sys.mem addr false rnW priv (fun t : Mem => t.sys.mem) o) :
    ∃ t, o = .ok (.ok h) t ∧
      t.sys.mem = (uncached c s.mmu s.sys.mem addr false rnW priv).2 := by
  rcases ho with ⟨t, ho, hmem⟩ | ⟨pa, t, ⟨hno, r, hr, hpa⟩, -⟩
  · rw [hp] at ho
    exact ⟨t, ho, hmem⟩
  · rw [Place, uncached, hr] at hp
    dsimp only at hp
    split_ifs at hp
    cases hp
    have htar : c.map.target r.pa = none := by
      rw [hpa, PagedBus.target, hno, Option.map_none]
    rw [PagedBus.hva, htar, Option.getD_none, isDirect] at hd
    simp at hd

/-- **The first word's translation,** made again. -/
theorem translateAddr (h : Redo c rnW priv addr (n + 1) s s') {g : HVA}
    (ht : translateAddr c addr false rnW priv s = .ok (.ok g) t) :
    Place c rnW priv addr t g ∧ isDirect g = true ∧
      ∃ t', Mmu.translateAddr c addr false rnW priv s' = .ok (.ok g) t' ∧
        Redo c rnW priv addr (n + 1) t t' ∧
        ∀ a, t'.sys.mem a ≠ t.sys.mem a → ¬ Marks c priv addr t a := by
  have hw := wordAt_zero addr ▸ h.walks 0 (Nat.succ_pos n)
  have hw' := walkInRam_registers h.registers hw
  have hal := wordAt_zero addr ▸ h.entries 0 (Nat.succ_pos n)
  obtain ⟨hb, hb'⟩ := wordAt_zero addr ▸ h.backed 0 (Nat.succ_pos n)
  have hfetch : false = true → rnW = true := nofun
  have hans := hb.answers hw hfetch
  rw [ht] at hans
  have hplace : Place c rnW priv addr s g := hans.of_ok.1.symm
  have hmem : t.sys.mem = _ := hans.of_ok.2
  have hd := h.ram 0 (Nat.succ_pos n) g (by rwa [wordAt_zero])
  have hplace' := (place_alike h.registers hal).mpr hplace
  obtain ⟨t', ht', hmem'⟩ := answered_ok hplace' hd (hb'.answers hw' hfetch)
  have hreg := (keeps_translateAddr.of_ok ht).registers
  have hreg' := (keeps_translateAddr.of_ok ht').registers
  have hleft (j : ℕ) : EntriesAlike c s.mmu rnW (wordAt addr j) s.sys.mem t.sys.mem := by
    rw [hmem]
    exact alike_uncached hw hplace _
  have hright (j : ℕ) : EntriesAlike c s.mmu rnW (wordAt addr j) s'.sys.mem t'.sys.mem := by
    intro slot hs
    rw [← pteSlots_registers h.registers] at hs
    rw [hmem']
    exact alike_uncached hw' hplace' _ slot hs
  have hsettle {a : HVA} (ha : Marks c priv addr s a ∨ s'.sys.mem a = s.sys.mem a) :
      t'.sys.mem a = t.sys.mem a := by
    rw [hmem, hmem']
    exact uncached_settles h.registers hal hw hplace ha
  have hal' : EntriesAlike c s.mmu rnW addr s.sys.mem t.sys.mem := wordAt_zero addr ▸ hleft 0
  refine ⟨(place_alike hreg hal').mpr hplace, hd, t', ht', ?_, fun a hne hm => ?_⟩
  · refine h.later hreg hreg' (fun j _ => hleft j) (fun j _ => hright j) (fun j hj => ?_)
      fun a heq => hsettle (.inr heq)
    obtain ⟨hj₁, hj₂⟩ := h.backed j hj
    exact ⟨hj₁.translateAddr hw ht, hj₂.translateAddr hw' ht'⟩
  · exact hne (hsettle (.inl ((marks_alike hreg hal').mp hm)))

/-- **The first word's store,** made again, settles the word. -/
theorem put (h : Redo c false priv addr (n + 1) s s') {g : HVA} (hg : Place c false priv addr s g)
    (hset : ∀ a, s'.sys.mem a ≠ s.sys.mem a → ¬ Marks c priv addr s a) {bs : List (BitVec 8)}
    (hlen : bs.length = 4) :
    Redo c false priv (addr + BitVec.ofNat 32 4) n (Mmu.put s g bs) (Mmu.put s' g bs) := by
  have hkeep (a : HVA) (ha : s'.sys.mem a = s.sys.mem a) :
      (Mmu.put s' g bs).sys.mem a = (Mmu.put s g bs).sys.mem a := by
    show ByteMem.writeBytes _ _ _ a = ByteMem.writeBytes _ _ _ a
    rw [ByteMem.writeBytes, ByteMem.writeBytes, ha]
  have hclear {j : ℕ} (hj : j < n + 1) (a : HVA) (ha : (a - g).toNat < bs.length) :
      ¬ InEntries c s.mmu (wordAt addr j) a := by
    rw [hlen] at ha
    exact h.clear rfl 0 (Nat.succ_pos n) g (by rwa [wordAt_zero]) a ha j hj
  have hwords {j : ℕ} (hj : j < n + 1) := words_put (hclear hj)
  have hwords' {j : ℕ} (hj : j < n + 1) := words_put (s := s') (h := g) (b := wordAt addr j)
    fun a ha hin => hclear hj a ha (by rwa [InEntries, ← pteSlots_registers h.registers])
  have hal {j : ℕ} (hj : j < n + 1) :
      EntriesAlike c s.mmu false (wordAt addr j) s.sys.mem (Mmu.put s g bs).sys.mem := by
    intro slot hs
    obtain ⟨h₁, h₂⟩ := hwords hj slot hs
    exact ⟨h₁, by rw [h₂]⟩
  have hal' {j : ℕ} (hj : j < n + 1) :
      EntriesAlike c s.mmu false (wordAt addr j) s'.sys.mem (Mmu.put s' g bs).sys.mem := by
    intro slot hs
    rw [← pteSlots_registers h.registers] at hs
    obtain ⟨h₁, h₂⟩ := hwords' hj slot hs
    exact ⟨h₁, by rw [h₂]⟩
  have hput : Redo c false priv addr (n + 1) (Mmu.put s g bs) (Mmu.put s' g bs) := by
    refine h.later rfl rfl (fun j hj => hal hj) (fun j hj => hal' hj) (fun j hj => ?_) hkeep
    obtain ⟨hb, hb'⟩ := h.backed j hj
    exact ⟨hb.put (hwords hj), hb'.put (hwords' hj)⟩
  have hfirst := wordAt_zero addr ▸ hal (Nat.succ_pos n)
  have hreg : (Mmu.put s g bs).mmu.registers = s.mmu.registers := rfl
  refine hput.tail fun a hne => ⟨fun hm => ?_, fun _ k hk hin => hne ?_⟩
  · exact hset a (fun heq => hne (hkeep a heq)) ((marks_alike hreg hfirst).mp hm)
  · -- the same four bytes have been put in both
    have hk' : Place c false priv addr s k := (place_alike hreg hfirst).mp hk
    cases hk'.symm.trans hg
    have hlt : (a - g).toNat < bs.length := by
      rw [hlen]
      exact hin
    show ByteMem.writeBytes _ _ _ a = ByteMem.writeBytes _ _ _ a
    rw [ByteMem.writeBytes, ByteMem.writeBytes, List.getElem?_eq_getElem hlt]
    rfl

end Redo

/-- **Loads of a string, made again,** give the same words, and leave the
same memory. -/
theorem Reads.again {ws : List (BitVec 32)} (hr : Reads c .word priv addr s ws t)
    (h : Redo c true priv addr ws.length s s') :
    ∃ t', Reads c .word priv addr s' ws t' ∧ t'.sys.mem = t.sys.mem := by
  induction hr generalizing s' with
  | nil => exact ⟨s', .nil, h.done⟩
  | @cons addr s u t v vs head tail ih =>
    obtain ⟨res, m, ht, hl⟩ := Prog.bind_eq_ok head
    cases res with
    | error f => cases hl
    | ok g =>
      obtain ⟨hplace, hd, m', ht', hredo, hset⟩ := h.translateAddr ht
      simp only at hl
      rw [Prog.bind_of_ok (readPA_direct hd), Prog.pure_apply] at hl
      split_ifs at hl with ha
      · cases hl
      cases hl
      have hword : memRead .word m'.sys.mem g = memRead .word u.sys.mem g :=
        swap32_read32_eq_iff.mpr (hredo.same rfl 0 (Nat.succ_pos _) g (by rwa [wordAt_zero]))
      have head' : load c .word addr priv s' = .ok (.ok (memRead .word u.sys.mem g)) m' := by
        rw [load, Prog.bind_of_ok ht']
        dsimp only
        rw [Prog.bind_of_ok (readPA_direct hd), if_neg ha, hword]
        rfl
      obtain ⟨t', htail, hmem⟩ := ih (hredo.tail fun a hne => ⟨hset a hne, fun hno => by cases hno⟩)
      exact ⟨t', .cons head' htail, hmem⟩

/-- **Stores of a string, made again,** leave the same memory. -/
theorem Writes.again {ws : List (BitVec 32)} (hw : Writes c .word 4 priv addr ws s t)
    (h : Redo c false priv addr ws.length s s') :
    ∃ t', Writes c .word 4 priv addr ws s' t' ∧ t'.sys.mem = t.sys.mem := by
  induction hw generalizing s' with
  | nil => exact ⟨s', .nil, h.done⟩
  | @cons addr s u t v vs head tail ih =>
    obtain ⟨g, m, ht, -, hd, ha, rfl⟩ := store_ok (fun g m hm => (h.translateAddr hm).2.1) head
    obtain ⟨hplace, -, m', ht', hredo, hset⟩ := h.translateAddr ht
    have head' : store c .word addr v priv s' = .ok (.ok ()) (put m' g (ByteMem.ofWord v)) := by
      have hmem : memWrite .word m'.sys.mem g v =
          ByteMem.writeBytes m'.sys.mem g (ByteMem.ofWord v) :=
        ByteMem.write32_eq_writeBytes _ _ _ (by decide)
      rw [store, Prog.bind_of_ok ht']
      dsimp only
      rw [Prog.bind_of_ok (writePA_direct hd), ha, hmem]
      rfl
    obtain ⟨t', htail, hmem⟩ := ih (hredo.put hplace hset (ByteMem.length_ofWord v))
    exact ⟨t', .cons head' htail, hmem⟩

end Mmu

end MrIss
