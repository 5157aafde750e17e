import MrIss.Mmu.Coherence
/-!
# No dirty page is lost

In a build that updates R and C, a store that gets through leaves C set
in the entry that maps its page, whatever the uTLB held before, and
nothing else sets C.
-/

namespace MrIss

open EarlyReturn Run

namespace Mmu

variable {c : Config} {priv : Bool}

/-- A store is let through by an entry that is writable and not clean. -/
theorem checkPerms_store {b : Build} (hb : b.updateRC = true) {p : MmuPerms} :
    checkPerms b p false false = true ↔ p.w = true ∧ p.clean = false := by
  simp [checkPerms, hb]

/-- The right to write gives the right to read. -/
theorem pageRights_read {sr : Seg} {pp : BitVec 32} (h : (sr.pageRights priv pp).2 = true) :
    (sr.pageRights priv pp).1 = true := by
  have hpp : pp = 2#32 → pp ≠ 0#32 := by
    rintro rfl
    decide
  cases priv <;> simp [Seg.pageRights] at h ⊢ <;> grind

/-- A backed entry that lets a store through is of a page with R and C. -/
theorem Backed.dirty {m : Mmu} {mem : HostMem} {tr : Bool} {ea : VA} {pa pte : PA} {p : MmuPerms}
    (h : Backed c m mem false priv tr ea pa p) (hb : c.build.updateRC = true)
    (hroute : m.route (c.map.word mem) tr ea false priv = .page pte)
    (hc : checkPerms c.build p false false = true) :
    pteR (c.map.word mem (pte + 4)) = true ∧ pteC (c.map.word mem (pte + 4)) = true := by
  unfold Backed at h
  rw [hroute] at h
  obtain ⟨-, -, hp⟩ := h
  exact ⟨hp.referenced hb, hp.changed hb ((checkPerms_store hb).mp hc).2⟩

/-- **A store that gets through leaves its page dirty.** -/
theorem dirty_of_store {s t : Mem} {addr : VA} {h : HVA} {pte : PA} (hs : Coherent c s)
    (hb : c.build.updateRC = true) (hw : WalkInRam c.map s.mmu addr false priv)
    (ht : translateAddr c addr false false priv s = .ok (.ok h) t)
    (hroute : s.mmu.route (c.map.word s.sys.mem) (s.mmu.enabled false) addr false priv =
      .page pte) :
    pteR (c.map.word t.sys.mem (pte + 4)) = true ∧
      pteC (c.map.word t.sys.mem (pte + 4)) = true := by
  generalize hres : (Except.ok h : Except Fault HVA) = res at ht
  cases translateAddr_outcome hw ht with
  | hit hl hc =>
    obtain ⟨pa, hback, -⟩ := backed_of_lookup hs hl
    exact hback.dirty hb hroute hc
  | refused hl hc hd => cases hres
  | fault i hr => cases hres
  | walk i hr htar =>
    have hback := backed_of_resolve hw hr
    have hrc := resolve_rcUpdate hw hr
    split_ifs at hres with hc
    exact hback.dirty hb (by rw [hrc.route]; exact hroute) hc

/-- **Only a store that gets through sets C.** -/
theorem store_of_changed {s t : Mem} {addr : VA} {inD rnW : Bool} {res : Except Fault HVA} {q : PA}
    (hb : c.build.updateRC = true) (hw : WalkInRam c.map s.mmu addr inD priv)
    (ht : translateAddr c addr inD rnW priv s = .ok res t) (hq : q.toNat % 8 = 4)
    (hclear : pteC (c.map.word s.sys.mem q) = false)
    (hset : pteC (c.map.word t.sys.mem q) = true) :
    rnW = false ∧ ∃ h, res = .ok h := by
  cases translateAddr_outcome hw ht with
  | hit hl hc => rw [hclear] at hset; cases hset
  | refused hl hc hd => rw [hclear] at hset; cases hset
  | fault i hr => simp only at hset; rw [hclear] at hset; cases hset
  | walk i hr htar =>
    rename_i r h
    simp only at hset
    by_cases hp : ∃ pte, s.mmu.route (c.map.word s.sys.mem) (s.mmu.enabled inD) addr inD priv =
        .page pte
    · obtain ⟨pte, hroute⟩ := hp
      obtain ⟨-, hperms, -, hword⟩ := resolve_page hroute hr (hw.table hroute)
      have hq' := hword q (by omega)
      by_cases heq : q = pte + 4
      · subst heq
        rw [if_pos rfl] at hq'
        rw [hq', pteAfter_c, hclear, Bool.false_or] at hset
        have hstore := hset
        simp only [setsC, Bool.and_eq_true, Bool.not_eq_eq_eq_not, Bool.not_true] at hstore
        obtain ⟨⟨⟨-, hrnw⟩, hright⟩, -⟩ := hstore
        refine ⟨hrnw, h, if_pos ?_⟩
        subst hrnw
        rw [hperms, pteUse_perms]
        -- a fetch is checked against the right to read alone, which the one to write gives
        cases inD with
        | false =>
          rw [checkPerms_store hb, hright, hb]
          simp
        | true => simpa [checkPerms] using pageRights_read hright
      · rw [if_neg heq] at hq'
        rw [hq', hclear] at hset
        cases hset
    · rw [resolve_mem_of_not_page (fun pte he => hp ⟨pte, he⟩) hr, hclear] at hset
      cases hset

/-- **No dirty page is lost.** In every run from a constructed MMU of a
build that updates R and C: a data store that gets through to a page
leaves R and C set in the page's entry; and a step that sets C in an
entry, other than a change of memory by something else, is a store that
gets through: of data, or one that is made on the instruction side. -/
theorem no_dirty_page_lost (hb : c.build.updateRC = true) {m₀ : Mmu} {sys : Sys} {es : List Event}
    {s : RunState} (hrun : Steps (Step c) (.init m₀ sys) es s) :
    (∀ addr priv h t pte, s.stale = false → WalkInRam c.map s.mem.mmu addr false priv →
      translateAddr c addr false false priv s.mem = .ok (.ok h) t →
      s.mem.mmu.route (c.map.word s.mem.sys.mem) (s.mem.mmu.enabled false) addr false priv =
        .page pte →
      pteR (c.map.word t.sys.mem (pte + 4)) = true ∧
        pteC (c.map.word t.sys.mem (pte + 4)) = true) ∧
    ∀ e s' q, Step c s e s' → e ≠ .outside → q.toNat % 8 = 4 →
      pteC (c.map.word s.mem.sys.mem q) = false → pteC (c.map.word s'.mem.sys.mem q) = true →
      ∃ addr inD priv h, e = .translate addr inD false priv ∧
        translateAddr c addr inD false priv s.mem = .ok (.ok h) s'.mem := by
  constructor
  · intro addr priv h t pte hstale hw ht hroute
    exact dirty_of_store (runInv_of_run hrun hstale) hb hw ht hroute
  · intro e s' q hstep hout hq hclear hset
    cases hstep with
    | map op => rw [hclear] at hset; cases hset
    | outside hsame => exact absurd rfl hout
    | table sys => exact absurd rfl hout
    | @translate t addr inD rnW priv res hstale hw ht =>
      obtain ⟨rfl, h, rfl⟩ := store_of_changed hb hw ht hq hclear hset
      exact ⟨addr, inD, priv, h, rfl, ht⟩

/-- A store on the instruction side sets C too. -/
theorem changed_by_instruction_side :
    ∃ s s' : RunState,
      Steps (Step (.quiet .default)) (.init zero .onePage)
        [.map (.setSDR1 0x10000), .map (.setIRDR true false)] s ∧
      Step (.quiet .default) s (.translate 0x1000 true false true) s' ∧
      pteC ((Config.quiet .default).map.word s.mem.sys.mem 0x10044) = false ∧
      pteC ((Config.quiet .default).map.word s'.mem.sys.mem 0x10044) = true := by
  have hw : WalkInRam (Config.quiet .default).map ((zero.construct.setSDR1 0x10000).setIRDR true false)
      0x1000 true true := fun _ _ _ =>
    (by decide : TableInRam (Config.quiet .default).map paged 0x1000)
  have key : (translateAddr (.quiet .default) 0x1000 true false true
      ⟨(zero.construct.setSDR1 0x10000).setIRDR true false, .onePage⟩).test fun _ t =>
        pteC ((Config.quiet .default).map.word t.sys.mem 0x10044) := by decide +kernel
  obtain ⟨_, t, ht, hset⟩ := Out.of_test key
  exact ⟨⟨⟨_, .onePage⟩, false⟩, ⟨t, false⟩, .snoc (.single (.map _)) (.map _),
    .translate rfl hw ht, by decide, hset⟩

/-- A load fills the uTLB, and the store that follows it leaves R and C
set. -/
theorem no_dirty_page_lost_paged :
    ∃ (s : RunState) (h : HVA) (t : Mem),
      Steps (Step (.quiet .default)) (.init zero .onePage)
        [.map (.setSDR1 0x10000), .map (.setIRDR false true),
          .translate 0x1000 false true true] s ∧
      translateAddr (.quiet .default) 0x1000 false false true s.mem = .ok (.ok h) t ∧
      pteC ((Config.quiet .default).map.word s.mem.sys.mem 0x10044) = false ∧
      pteR ((Config.quiet .default).map.word t.sys.mem 0x10044) = true ∧
        pteC ((Config.quiet .default).map.word t.sys.mem 0x10044) = true := by
  have key : (translateAddr (.quiet .default) 0x1000 false true true ⟨paged, .onePage⟩).test
      fun _ u => !pteC ((Config.quiet .default).map.word u.sys.mem 0x10044) &&
        decide (u.mmu.route ((Config.quiet .default).map.word u.sys.mem) (u.mmu.enabled false) 0x1000
          false true = .page 0x10040) &&
        decide (TableInRam (Config.quiet .default).map u.mmu 0x1000) &&
        (translateAddr (.quiet .default) 0x1000 false false true u).test fun res _ => res.toBool := by
    decide +kernel
  obtain ⟨_, u, hu, h⟩ := Out.of_test key
  simp only [Bool.and_eq_true, Bool.not_eq_true', decide_eq_true_eq] at h
  obtain ⟨⟨⟨hc, hr⟩, hw⟩, ht⟩ := h
  obtain ⟨res, t, ht, hok⟩ := Out.of_test ht
  cases res with
  | error f => cases hok
  | ok k =>
    have hrun := (steps_paged .default .onePage).snoc
      (.translate rfl (walkInRam_paged .default false true) hu)
    obtain ⟨hdirty, -⟩ := no_dirty_page_lost (c := .quiet .default) rfl hrun
    exact ⟨⟨u, false⟩, k, t, hrun, ht, hc,
      hdirty 0x1000 true k t 0x10040 rfl (fun _ _ _ => hw) ht hr⟩

end Mmu

end MrIss
