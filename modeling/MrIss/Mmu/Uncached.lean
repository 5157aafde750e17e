import MrIss.Mmu.Coherence
/-!
# Translation without a uTLB

What a translation answers, and what it leaves in memory, does not depend
on what the uTLB holds, so long as that is coherent: `uncached` is the
answer of a walk, and `translateAddr_answers` says that the code gives it.
The uTLB shows only where no device answers the translated address: a walk
ends the simulator there, an entry for the page does not.
-/

namespace MrIss

open EarlyReturn

namespace Mmu

section

variable (c : Config) (m : Mmu) (mem : HostMem) (addr : VA) (inD rnW priv : Bool)

/-- **What a translation is to answer,** and the memory it is to leave. -/
def uncached : Except Fault HVA × HostMem :=
  match resolve c m mem addr inD rnW priv with
  | .error f => (.error f, mem)
  | .ok r =>
    (if checkPerms c.build r.perms rnW inD then .ok (c.map.hva r.pa) else .error .perms, r.mem)

/-- The address is translated to one that no device answers. -/
def Unanswered (pa : PA) : Prop :=
  c.map.deviceAt pa = none ∧ ∃ r, resolve c m mem addr inD rnW priv = .ok r ∧ r.pa = pa

/-- A call answers what it is to, or ends the simulator because no device
answers; `host` is the memory of a state. -/
def Answers {σ : Type} (host : σ → HostMem) (o : Out Abort σ (Except Fault HVA)) : Prop :=
  (∃ t, o = .ok (uncached c m mem addr inD rnW priv).1 t ∧
    host t = (uncached c m mem addr inD rnW priv).2) ∨
  ∃ pa t, Unanswered c m mem addr inD rnW priv pa ∧ o = .abort (.busMiss pa) t

end

variable {c : Config} {m : Mmu} {mem : HostMem} {addr : VA} {inD rnW priv : Bool} {pa : PA}
  {p : MmuPerms}

section

variable {σ : Type} {host : σ → HostMem} {t : σ}

theorem answers_ok {r : Fresh} (hr : resolve c m mem addr inD rnW priv = .ok r)
    (hmem : host t = r.mem) : Answers c m mem addr inD rnW priv host
      (.ok (if checkPerms c.build r.perms rnW inD then .ok (c.map.hva r.pa) else .error .perms) t) :=
  .inl ⟨t, by rw [uncached, hr], by rw [uncached, hr, hmem]⟩

theorem answers_error {f : Fault} (hr : resolve c m mem addr inD rnW priv = .error f)
    (hmem : host t = mem) : Answers c m mem addr inD rnW priv host (.ok (.error f) t) :=
  .inl ⟨t, by rw [uncached, hr], by rw [uncached, hr, hmem]⟩

theorem answers_miss {r : Fresh} (hr : resolve c m mem addr inD rnW priv = .ok r)
    (hn : c.map.target r.pa = none) :
    Answers c m mem addr inD rnW priv host (.abort (.busMiss r.pa) t) :=
  .inr ⟨r.pa, t, ⟨by simpa [PagedBus.target] using hn, r, hr, rfl⟩, rfl⟩

/-- A call that returns. -/
theorem Answers.of_ok {res : Except Fault HVA}
    (h : Answers c m mem addr inD rnW priv host (.ok res t)) :
    res = (uncached c m mem addr inD rnW priv).1 ∧
      host t = (uncached c m mem addr inD rnW priv).2 := by
  rcases h with ⟨t', ho, hmem⟩ | ⟨pa, t', -, ho⟩
  · cases ho
    exact ⟨rfl, hmem⟩
  · cases ho

end

/-! ## Entries that are used -/

/-- Where an entry is used, R is set, and C if it is used for a store: a
walk would leave memory as it is. -/
theorem resolve_mem_of_backed {r : Fresh}
    (h : Backed c m mem inD priv (m.enabled inD) addr pa p) (hfetch : inD = true → rnW = true)
    (hclean : checkFaultWasCleanliness c.build p rnW inD = false)
    (hr : resolve c m mem addr inD rnW priv = .ok r) : r.mem = mem := by
  by_cases hp : ∃ pte, m.route (c.map.word mem) (m.enabled inD) addr inD priv = .page pte
  · obtain ⟨pte, hroute⟩ := hp
    unfold Backed at h
    rw [hroute] at h
    obtain ⟨-, -, hback⟩ := h
    have hsame : (c.build.updateRC && (!pteR (c.map.word mem (pte + 4)) ||
        setsC c.build (m.segOf addr) rnW priv (c.map.word mem (pte + 4)))) = false := by
      generalize c.map.word mem (pte + 4) = w at hback ⊢
      cases hb : c.build.updateRC with
      | false => rfl
      | true =>
        rw [hback.referenced hb, setsC]
        cases hrnw : rnW with
        | true => simp
        | false =>
          have hinD : inD = false := by
            cases inD
            · rfl
            · rw [hfetch rfl] at hrnw; cases hrnw
          have hw := hback.w
          rw [hb, Bool.true_or, Bool.and_true] at hw
          simp only [checkFaultWasCleanliness, hb, hrnw, hinD, Bool.not_false, Bool.true_and,
            Bool.and_eq_false_iff] at hclean
          rcases hclean with hno | hno
          · simp [← hw, hno]
          · simp [hback.changed hb hno]
    simp only [resolve, hroute, pteUse_update, hsame, Bool.false_eq_true, if_false] at hr
    cases hr
    rfl
  · exact resolve_mem_of_not_page (fun pte he => hp ⟨pte, he⟩) hr

/-- **An entry that is used answers as a walk would.** -/
theorem resolve_of_used (h : Backed c m mem inD priv (m.enabled inD) addr pa p)
    (hfetch : inD = true → rnW = true)
    (hclean : checkFaultWasCleanliness c.build p rnW inD = false) :
    ∃ r, resolve c m mem addr inD rnW priv = .ok r ∧ r.pa = pa ∧ r.mem = mem ∧
      checkPerms c.build r.perms rnW inD = checkPerms c.build p rnW inD := by
  obtain ⟨-, r, hr, hpa, hread, hwrite, hc⟩ := resolve_of_backed h rnW
  refine ⟨r, hr, hpa, resolve_mem_of_backed h hfetch hclean hr, ?_⟩
  unfold checkPerms
  rw [hread, hwrite]
  rcases hc with hc | ⟨hset, hclear, -⟩
  · rw [hc]
  · rw [hset, hclear]
    rw [checkFaultWasCleanliness, hset] at hclean
    revert hclean
    cases c.build.updateRC <;> cases rnW <;> cases inD <;> cases p.w <;> simp

theorem answers_of_used {σ : Type} {host : σ → HostMem} {s : σ} (hhost : host s = mem)
    (h : Backed c m mem inD priv (m.enabled inD) addr pa p) (hfetch : inD = true → rnW = true)
    (hclean : checkFaultWasCleanliness c.build p rnW inD = false) :
    Answers c m mem addr inD rnW priv host
      (.ok (if checkPerms c.build p rnW inD then .ok (c.map.hva pa) else .error .perms) s) := by
  obtain ⟨r, hr, rfl, hmem, hperms⟩ := resolve_of_used h hfetch hclean
  rw [← hperms]
  exact answers_ok hr (hhost.trans hmem.symm)

/-! ## Walks -/

/-- **A second walk finds what the first has found,** and changes nothing
more. -/
theorem resolve_again {r : Fresh} (hw : WalkInRam c.map m addr inD priv)
    (hfetch : inD = true → rnW = true) (hr : resolve c m mem addr inD rnW priv = .ok r) :
    ∃ r', resolve c m r.mem addr inD rnW priv = .ok r' ∧ r'.pa = r.pa ∧ r'.mem = r.mem ∧
      checkPerms c.build r'.perms rnW inD = checkPerms c.build r.perms rnW inD :=
  resolve_of_used (backed_of_resolve hw hr) hfetch (resolve_not_clean hr)

/-- What is answered after a walk is answered before it. -/
theorem Answers.of_walk {σ : Type} {host : σ → HostMem} {o : Out Abort σ (Except Fault HVA)}
    {r : Fresh} (hw : WalkInRam c.map m addr inD priv) (hfetch : inD = true → rnW = true)
    (hr : resolve c m mem addr inD rnW priv = .ok r)
    (h : Answers c m r.mem addr inD rnW priv host o) :
    Answers c m mem addr inD rnW priv host o := by
  obtain ⟨r', hr', hpa, hmem, hperms⟩ := resolve_again hw hfetch hr
  have heq : uncached c m r.mem addr inD rnW priv = uncached c m mem addr inD rnW priv := by
    rw [uncached, hr', uncached, hr]
    dsimp only
    rw [hpa, hmem, hperms]
  rcases h with h | ⟨pa, t, ⟨hdev, r'', hr'', hpa''⟩, ho⟩
  · exact .inl (heq ▸ h)
  · rw [hr'] at hr''
    cases hr''
    exact .inr ⟨pa, t, ⟨hdev, r, hr, by rw [← hpa, hpa'']⟩, ho⟩

variable {s : Mem}

theorem doLookup_answers (n : ℕ) (hw : WalkInRam c.map s.mmu addr inD priv) :
    Answers c s.mmu s.sys.mem addr inD rnW priv (fun t : Mem => t.sys.mem)
      (doLookup c addr inD rnW priv (n + 1) s) := by
  rcases doLookup_eq rnW hw n with ⟨f, i, hr, hd⟩ | ⟨r, t, hr, hn, hd⟩ | ⟨r, h, i, hr, ht, hd⟩
  · rw [hd]
    exact answers_error hr rfl
  · rw [hd]
    exact answers_miss hr hn
  · rw [hd, ← PagedBus.hva_of_target ht]
    exact answers_ok hr rfl

/-- What a lookup of an address finds is backed. -/
def HitBacked (c : Config) (inD priv : Bool) (addr : VA) (s : Mem) : Prop :=
  ∀ h p, s.mmu.utlbLookup inD priv addr = some (h, p) →
    ∃ pa, Backed c s.mmu s.sys.mem inD priv (s.mmu.enabled inD) addr pa p ∧ c.map.hva pa = h

theorem Coherent.hitBacked (hs : Coherent c s) : HitBacked c inD priv addr s := by
  intro h p hl
  obtain ⟨hea, hpa, hperms⟩ := utlbLookup_eq_some.mp hl
  obtain ⟨pa, hback, hva⟩ := (hs inD priv (addrToIdx addr)).hit hea
  exact ⟨pa, hperms ▸ hback, by rw [← hva, hpa]⟩

/-- What is found does not show, where it is backed. -/
theorem HitBacked.answers (hs : HitBacked c inD priv addr s)
    (hw : WalkInRam c.map s.mmu addr inD priv) (hfetch : inD = true → rnW = true) :
    Answers c s.mmu s.sys.mem addr inD rnW priv (fun t : Mem => t.sys.mem)
      (translateAddr c addr inD rnW priv s) := by
  rw [translateAddr, Prog.gets_bind_apply]
  cases hl : s.mmu.utlbLookup inD priv addr with
  | none => exact doLookup_answers 1 hw
  | some hp =>
    obtain ⟨h, p⟩ := hp
    obtain ⟨pa, hback, rfl⟩ := hs h p hl
    have hused (hclean : checkFaultWasCleanliness c.build p rnW inD = false) :
        Answers c s.mmu s.sys.mem addr inD rnW priv (fun t : Mem => t.sys.mem)
          (.ok (if checkPerms c.build p rnW inD then .ok (c.map.hva pa) else .error .perms) s) :=
      answers_of_used rfl hback hfetch hclean
    by_cases hc : checkPerms c.build p rnW inD = true
    · simp only [hc, if_true] at hused ⊢
      exact hused (not_clean_of_checkPerms hc)
    · simp only [hc, Bool.false_eq_true, if_false] at hused ⊢
      by_cases hd : checkFaultWasCleanliness c.build p rnW inD = true
      · simp only [hd, if_true]
        exact doLookup_answers 1 hw
      · simp only [hd, Bool.false_eq_true, if_false]
        exact hused (by simpa using hd)

/-- **A coherent uTLB does not show** in what `translateAddr` answers. -/
theorem translateAddr_answers (hs : Coherent c s) (hw : WalkInRam c.map s.mmu addr inD priv)
    (hfetch : inD = true → rnW = true) :
    Answers c s.mmu s.sys.mem addr inD rnW priv (fun t : Mem => t.sys.mem)
      (translateAddr c addr inD rnW priv s) := hs.hitBacked.answers hw hfetch

end Mmu

end MrIss
