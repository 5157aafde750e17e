import MrIss.Machine.Stores
/-!
# One store for each `lwarx`

A store that `stwcx.` makes has its `lwarx`, and no two stores have the
same one, so long as no store is made and refused at once: the MMU checks
the alignment of a store after it has made it, and a `stwcx.` that faults
returns before it drops its reservation.
-/

namespace MrIss

open EarlyReturn Licence Run

/-- The store has been made: the check for alignment comes after it. -/
def Performs (f : Option Fault) : Prop := f = none ∨ f = some .align

/-- **What licences are to be.** -/
structure OneStoreEach (tr : List Event) : Prop where
  /-- Between two stores is an `lwarx` of the second's address, the latest
  before it. -/
  between : ∀ post addr f mid addr' f' pre,
    tr = post ++ .stwcxStore addr f :: (mid ++ .stwcxStore addr' f' :: pre) →
      Performs f → Performs f' →
        ∃ q₁ q₂, mid = q₁ ++ .lwarx addr :: q₂ ∧ ∀ b, .lwarx b ∉ q₁
  /-- A store is to the address of the latest `lwarx`, with no `rfi` and no
  completed `stwcx.` since. -/
  fresh : ∀ post addr f since a pre,
    tr = post ++ .stwcxStore addr f :: (since ++ .lwarx a :: pre) → Performs f →
      (∀ b, .lwarx b ∉ since) → addr = a ∧ .rfi ∉ since ∧ .stwcx ∉ since

/-- No store of the trace was made and refused. -/
def NoMisstore (tr : List Event) : Prop := Stores (fun _ f _ => f ≠ some .align) tr

theorem not_grant {since : List Event} (h : ∀ b, .lwarx b ∉ since) :
    ∀ x ∈ since, reservationKind.grants x = none := by
  intro x hx
  cases x with
  | lwarx a => exact absurd hx (h a)
  | _ => rfl

/-- **One store each,** by the generation count. -/
theorem oneStoreEach_of_reserves {i : InterpState} {s : Machine} (h : s.Reserves i)
    (hmis : NoMisstore s.trace) (hfew : revocations reservationKind s.trace < 2 ^ 64) :
    OneStoreEach s.trace where
  between := by
    intro post addr f mid addr' f' pre htr hf hf'
    have hnone : f' = none := by
      refine hf'.resolve_right (hmis (post ++ .stwcxStore addr f :: mid) addr' f' pre ?_)
      rw [htr, List.append_assoc]
      rfl
    obtain ⟨hlic, hsettled⟩ := h.uses post addr f _ htr
    have hlic' := (h.uses (post ++ .stwcxStore addr f :: mid) addr' f' pre (by simp [htr])).1
    have hrev := hsettled mid addr' pre (by rw [hnone])
    rw [htr, revocations_append] at hfew
    have hle : revocations reservationKind (mid ++ .stwcxStore addr' f' :: pre) ≤
        revocations reservationKind (.stwcxStore addr f :: (mid ++ .stwcxStore addr' f' :: pre)) :=
      revocations_cons_le
    obtain ⟨g, q₁, q₂, rfl, hg, hno⟩ := grant_between (by omega) rfl hlic' hrev hlic
    refine ⟨q₁, q₂, ?_, fun b hb => ?_⟩
    · cases g with
      | lwarx a => cases hg; rfl
      | _ => cases hg
    · have := hno _ hb
      cases this
  fresh := by
    intro post addr f since a pre htr hf hno
    obtain ⟨hlic, -⟩ := h.uses post addr f _ htr
    have hlatest : latest reservationKind (since ++ .lwarx a :: pre) = some (a, since) :=
      latest_of_split rfl (not_grant hno)
    rw [MrIss.Licensed, Licence.Licensed, hlatest] at hlic
    obtain ⟨haddr, hzero⟩ := hlic
    have hle : revocations reservationKind (since ++ .lwarx a :: pre) ≤
        revocations reservationKind (.stwcxStore addr f :: (since ++ .lwarx a :: pre)) :=
      revocations_cons_le
    rw [htr, revocations_append] at hfew
    rw [revocations_append since] at hle
    rw [Nat.mod_eq_of_lt (by omega)] at hzero
    have hnone (e : Event) (he : reservationKind.revokes e = true) : e ∉ since := fun hmem => by
      have := one_le_revocations hmem he
      omega
    exact ⟨haddr, hnone .rfi rfl, hnone .stwcx rfl⟩

/-! ## Stores that are made and refused -/

/-- **The pass from a state makes no store that it refuses:** if it decodes
an `stwcx.` whose reservation holds and whose store translation grants, the
address is not misaligned for the build. -/
def StoresAligned (c : Config) (s : Machine) : Prop :=
  ∀ inst u, Decodes c s inst u → isStwcx inst = true → u.stwcxReserved inst = true →
    ∀ pa m, Mmu.translateAddr c (u.stwcxEA inst) false false u.cpu.isPrivileged u.mem =
      .ok (.ok pa) m → Mmu.alignFault c.build .word pa = false

/-- The same, computed. -/
def storesAligned (c : Config) (s : Machine) : Bool :=
  match decoded c s with
  | none => true
  | some (inst, u) =>
    !(isStwcx inst && u.stwcxReserved inst) ||
      match Mmu.translateAddr c (u.stwcxEA inst) false false u.cpu.isPrivileged u.mem with
      | .ok (.ok pa) _ => !Mmu.alignFault c.build .word pa
      | _ => true

theorem storesAligned_spec {c : Config} {s : Machine} (h : storesAligned c s = true) :
    StoresAligned c s := by
  intro inst u hdec hinst hres pa m hgrant
  rw [storesAligned, hdec.decoded_eq] at h
  simpa [hinst, hres, hgrant] using h

/-- A store that is made has been granted, and is refused where its address
is misaligned. -/
theorem grant_of_performs {c : Config} {va : VA} {v : Reg} {priv : Bool} {m m' : Mem}
    {res : Except Fault Unit} (h : Mmu.store c .word va v priv m = .ok res m')
    (hf : Performs (faultOf res)) :
    ∃ pa u, Mmu.translateAddr c va false false priv m = .ok (.ok pa) u ∧
      (faultOf res = some .align → Mmu.alignFault c.build .word pa = true) := by
  rw [Mmu.store] at h
  obtain ⟨pa', u, htrans, hrest⟩ := Prog.bind_eq_ok h
  cases pa' with
  | ok pa =>
    refine ⟨pa, u, htrans, fun hal => ?_⟩
    obtain ⟨_, v, -, hend⟩ := Prog.bind_eq_ok hrest
    cases hmis : Mmu.alignFault c.build .word pa with
    | true => rfl
    | false =>
      rw [hmis] at hend
      cases hend
      cases hal
  | error f =>
    -- translation gives no fault of alignment
    cases hrest
    rcases hf with hf | hf
    · cases hf
    · obtain rfl : f = .align := Option.some.inj hf
      rcases Mmu.translateAddr_faults m _ m' htrans .align rfl with hf | hf | ⟨hf, -⟩ <;> cases hf

/-- The stores that are not made and refused. -/
theorem pass_aligned {c : Config} {s : Machine} (hal : StoresAligned c s)
    (h : NoMisstore s.trace) : NoMisstore (pass c s).state.trace := by
  refine pass_stores (fun inst u hdec hinst hres out m hst hf => ?_) h
  obtain ⟨pa, u', hgrant, hmis⟩ := grant_of_performs hst (.inr hf)
  have hok := hal inst u hdec hinst hres pa u' hgrant
  rw [hmis hf] at hok
  cases hok

/-! ## What completes -/

/-- **What a completed `stwcx.` is to leave:** CR0 says whether it has
stored, and where it has not, memory is unchanged. -/
def StwcxCompleted (s t : Machine) : Prop :=
  ∃ evs stored, t.trace = .stwcx :: evs ++ s.trace ∧
    (stored = true ↔ ∃ addr, .stwcxStore addr none ∈ evs) ∧
    readCRField t.cpu.user.cr 0 = (if stored then 2 else 0) ||| s.cpu.user.getXERSO ∧
    (stored = false → t.mem = s.mem)

theorem completeStwcx_ok (stored : Bool) (so : Reg) (s : Machine) :
    ∃ t, completeStwcx stored so s = .ok () t ∧ t.trace = .stwcx :: s.trace ∧ t.mem = s.mem ∧
      t.cpu.user.cr = writeCRField s.cpu.user.cr 0 (if stored then so ||| 2 else so) :=
  ⟨_, rfl, rfl, rfl, rfl⟩

/-- A store that has been made leaves its event, and the processor as it
was. -/
theorem condStore_ok {c : Config} {base : VA} {v : Reg} {s t : Machine}
    (h : condStore c base v s = .ok () t) : t.cpu = s.cpu ∧
      ∃ e, t.trace = .stwcxStore base none :: .access false base none :: e :: s.trace := by
  rw [condStore] at h
  obtain ⟨_, u, hu, hrest⟩ := Prog.bind_eq_ok h
  rw [storeX_apply] at hu
  cases hst : Mmu.store c .word base v s.cpu.isPrivileged s.mem with
  | ret m => rw [hst] at hu; cases hu
  | abort e m => rw [hst] at hu; cases hu
  | ok res m =>
    rw [hst] at hu
    cases hu
    cases res with
    | ok _ => cases hrest; exact ⟨rfl, _, rfl⟩
    | error f =>
      -- the fault is raised, and the instruction left
      obtain ⟨_, _, -, hend⟩ := Prog.bind_eq_ok (x := raiseMemException false false base f _)
        (f := fun _ => Prog.ret) hrest
      cases hend

theorem stwcxCompleted {c : Config} {inst : BitVec 32} (hinst : isStwcx inst = true)
    {s t : Machine} (h : decode c inst s = .ok () t) : StwcxCompleted s t := by
  have hso : s.cpu.user.getXERSO = 0 ∨ s.cpu.user.getXERSO = 1 := by
    unfold UserState.getXERSO
    split
    · exact .inr rfl
    · exact .inl rfl
  have hfield (stored : Bool) (x : Reg) :
      readCRField (writeCRField x 0
        (if stored then s.cpu.user.getXERSO ||| 2 else s.cpu.user.getXERSO)) 0 =
      (if stored then 2 else 0) ||| s.cpu.user.getXERSO := by
    rw [readCRField_writeCRField]
    · cases stored <;> simp [BitVec.or_comm]
    · rcases hso with h | h <;> cases stored <;> rw [h] <;> decide
  rw [decode_stwcx_apply c hinst] at h
  obtain ⟨_, u, hu, hdone⟩ := Prog.bind_eq_ok h
  obtain ⟨t', ht', htr, hmem, hcr⟩ :=
    completeStwcx_ok (s.stwcxReserved inst) s.cpu.user.getXERSO u
  rw [ht'] at hdone
  cases hdone
  cases hres : s.stwcxReserved inst with
  | false =>
    rw [hres] at hu hcr
    cases hu
    exact ⟨[], false, htr, by simp, by rw [hcr]; exact hfield false _, fun _ => hmem⟩
  | true =>
    rw [hres] at hu hcr
    obtain ⟨-, e, hstore⟩ := condStore_ok hu
    refine ⟨[.stwcxStore (s.stwcxEA inst) none, .access false (s.stwcxEA inst) none, e], true, ?_,
      by simp, by rw [hcr]; exact hfield true _, fun h => by cases h⟩
    rw [htr, hstore]
    rfl

/-! ## Runs -/

/-- Before the first pass nothing has been granted. -/
theorem reserves_boot (startAddr startMsr : Reg) (i : InterpState) (m : Mmu) (sys : Sys) :
    (Machine.boot startAddr startMsr i m sys).Reserves i := by
  refine ⟨⟨⟨rfl, fun _ => ⟨rfl, rfl⟩, fun a since h => by cases h⟩, .nil⟩, ?_⟩
  intro post addr pre h
  cases post <;> cases h

theorem reserves_step {i : InterpState} {c : Config} {s t : Machine} {l : Label}
    (h : s.Reserves i) (hstep : Step c s l t) : t.Reserves i := by
  cases hstep with
  | pass hbreak hpass =>
    have hkeeps : Keeps (reserves_allows i).frame (pass c) :=
      (reserves_allows i).keeps_pass (reserves_prog i)
    exact hkeeps.of_ok hpass h
  | devices irq sys => exact h.same ⟨rfl, rfl, rfl⟩ rfl

/-- **Each `lwarx` licenses one store.** In every run of a machine that is
set up and booted, with fewer than 2^64 events that revoke, and in which no
pass executes a licensed `stwcx.` that is granted an address misaligned for
the build: between two stores lies an `lwarx` of the second's address, the
latest before it; a store is to the address of the latest `lwarx`, with no
`rfi` and no completed `stwcx.` since; and a completed `stwcx.` says in CR0
whether it has stored. -/
theorem one_store_each (c : Config) (startAddr startMsr : Reg) (i : InterpState) (m : Mmu)
    (sys : Sys) {ls : List Label} {t : Machine}
    (hrun : Steps (fun s l t => Step c s l t ∧ (l ≠ .devices → StoresAligned c s))
      (.boot startAddr startMsr i m sys) ls t)
    (hfew : revocations reservationKind t.trace < 2 ^ 64) :
    OneStoreEach t.trace ∧ ∀ inst s u, isStwcx inst = true → decode c inst s = .ok () u →
      StwcxCompleted s u := by
  refine ⟨?_, fun inst s u hinst hu => stwcxCompleted hinst hu⟩
  have hinv : t.Reserves i ∧ NoMisstore t.trace := by
    refine hrun.invariant (I := fun t => t.Reserves i ∧ NoMisstore t.trace)
      ⟨reserves_boot .., by exact .nil⟩ fun s l u ⟨hs, hmis⟩ ⟨hstep, hal⟩ => ?_
    refine ⟨reserves_step hs hstep, ?_⟩
    cases hstep with
    | pass hbreak hpass =>
      have := pass_aligned (hal (by simp)) hmis
      rwa [hpass] at this
    | devices irq sys => exact hmis
  exact oneStoreEach_of_reserves hinv.1 hinv.2 hfew

/-- `lwarx 4,0,0` and `stwcx. 5,0,0`; the same with an `sc` between them; and
the same again, with `rfi` at the vectors. The sample host maps RAM at
0x10000000. -/
def Sys.reserving : Sys :=
  .program 0x10000100
    ([0x7c, 0x80, 0x00, 0x28, 0x7c, 0xa0, 0x01, 0x2d] ++
      [0x7c, 0x80, 0x00, 0x28, 0x44, 0x00, 0x00, 0x02, 0x7c, 0xa0, 0x01, 0x2d] ++
      [0x7c, 0x80, 0x00, 0x28, 0x7c, 0xa0, 0x01, 0x2d])
    [0x4c, 0x00, 0x00, 0x64]

/-- Each store has its `lwarx`; the second `stwcx.` makes none. -/
theorem one_store_each_reserving : ∃ ls t,
    Steps (Step (.quiet .default)) (.boot 0x100 0 .zero .zero .reserving) ls t ∧
      t.trace.count .stwcx = 3 ∧ t.trace.count (.stwcxStore 0 none) = 2 ∧
        OneStoreEach t.trace := by
  have key : ((passesWhere (.quiet .default) (storesAligned (.quiet .default)) 8
      (.boot 0x100 0 .zero .zero .reserving)).any fun r =>
        decide (r.2.trace.count .stwcx = 3 ∧ r.2.trace.count (.stwcxStore 0 none) = 2 ∧
          revocations reservationKind r.2.trace = 4)) = true := by decide +kernel
  obtain ⟨⟨ls, t⟩, hrun, htr⟩ := (Option.any_eq_true ..).mp key
  obtain ⟨hcompleted, hstored, hrevoked⟩ := of_decide_eq_true htr
  have hfew : revocations reservationKind t.trace < 2 ^ 64 := lt_of_eq_of_lt hrevoked (by decide)
  have hsteps := steps_of_passesWhere _ hrun
  refine ⟨ls, t, hsteps.imp fun _ _ _ h => h.1, hcompleted, hstored, ?_⟩
  exact (one_store_each (.quiet .default) 0x100 0 .zero .zero .reserving
    (hsteps.imp fun _ _ _ h => ⟨h.1, fun _ => storesAligned_spec h.2⟩) hfew).1

/-- `addi 3,0,0x2005` and `lwarx 4,0,3`, and at the vector of the alignment
interrupt `stwcx. 5,0,3`. The sample host maps RAM at 0x10000000. -/
def Sys.twice : Sys := .program 0x10000100 [0x38, 0x60, 0x20, 0x05, 0x7c, 0x80, 0x18, 0x28]
  [0x7c, 0xa0, 0x19, 0x2d]

/-- The `stwcx.` stores, faults, and is executed again. -/
theorem not_one_store_each : ¬ ∀ ls t,
    Steps (Step (.quiet .default)) (.boot 0x100 0 .zero .zero .twice) ls t →
      revocations reservationKind t.trace < 2 ^ 64 → OneStoreEach t.trace := by
  intro hall
  let store : Event := .stwcxStore 0x2005 (some .align)
  let fetch : Event := .translate true false false 0
  let mid := [.access false 0x2005 (some .align), .translate false false false 0, fetch,
    .exception .align]
  let pre := [.access false 0x2005 (some .align), .translate false false false 0, fetch,
    .exception .align, .lwarx 0x2005, .access true 0x2005 (some .align),
    .translate false false false 0, fetch, fetch]
  have key : ((passes (.quiet .default) 4 (.boot 0x100 0 .zero .zero .twice)).any fun r =>
      decide (r.2.trace = [.exception .align] ++ store :: (mid ++ store :: pre))) = true := by
    decide +kernel
  obtain ⟨⟨ls, t⟩, hrun, htr⟩ := (Option.any_eq_true ..).mp key
  have htrace := of_decide_eq_true htr
  have hfew : revocations reservationKind t.trace < 2 ^ 64 := by
    rw [htrace]
    decide
  -- between the two stores nothing is reserved
  obtain ⟨q₁, q₂, hmid, -⟩ := (hall ls t (steps_of_passes _ hrun) hfew).between _ _ _ _ _ _ _
    htrace (.inr rfl) (.inr rfl)
  have hmem : .lwarx 0x2005 ∈ mid := hmid ▸ by simp
  revert hmem
  decide

end MrIss
