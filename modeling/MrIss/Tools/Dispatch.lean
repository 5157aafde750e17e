import MrIss.Tools.MkDecode
/-!
# What the generated switches select

A row matches the words of its primary opcode that have its extended opcode;
an XO-form row with OE also those with the OE bit set. Both switches select
the row that matches, up to the XO-form rows that the generator takes for
ones with OE, or for ones without.
-/

namespace MrIss.MkDecode

/-! ## Rows and words -/

namespace Row

/-- A row that is not left out. -/
def Kept (r : Row) : Prop := r.form ≠ "" ∧ r.opcode ≠ "" ∧ r.subdec ≠ "1"

instance (r : Row) : Decidable r.Kept := inferInstanceAs (Decidable (_ ∧ _))

/-- The primary opcode. -/
def primary (r : Row) : Option ℤ := int r.opcode

/-- The extended opcode, where there is one; −1 is none. -/
def number (r : Row) : Option ℤ :=
  if r.xo = "" ∨ int r.xo = some (-1) then none else int r.xo

/-- The number with the OE bit set. -/
def withOe (x : ℤ) : ℤ := Int.lor x 0x200

/-- Whether a value of the extended opcode is the row's, whose number is
given. -/
def Admits (r : Row) (x v : ℤ) : Prop :=
  v = x ∨ (r.form = "XO" ∧ r.hasOe = "1" ∧ v = withOe x)

/-- **A row matches a word**: the primary opcodes are equal, and the
extended one is the row's if the row has one. -/
def Matches (acc : Accessors) (r : Row) (w : BitVec 32) : Prop :=
  r.Kept ∧ r.primary = some ((getOpcode w).toNat : ℤ) ∧
    ∀ x, r.number = some x → r.Admits x ((acc.xopc r.form w).toNat : ℤ)

/-- The interpreter's call for a word of the row: the fields that the
prototype has, in its order. -/
def invocation (acc : Accessors) (r : Row) (w : BitVec 32) : Invocation :=
  ⟨(genPrototype r).op, (genPrototype r).params.map fun p => acc.field r.form p.2 w⟩

/-- The call planted for a word of the row: the same, with the types that
the prototype has. -/
def planted (acc : Accessors) (r : Row) (w : BitVec 32) : Planted :=
  ⟨(genPrototype r).params.map Prod.fst, (genPrototype r).op,
    (genPrototype r).params.map fun p => acc.field r.form p.2 w,
    if r.endsBb = "" then "0" else r.endsBb⟩

end Row

/-- The rows of a primary opcode. -/
def group (rows : List Row) (f : ℤ) : List Row :=
  rows.filter fun r => r.Kept ∧ r.primary = some f

/-- **The tables that are meant**: of two rows of one primary opcode both
have an extended opcode, which the same accessor reads, and no word matches
two rows. -/
structure Table (acc : Accessors) (rows : List Row) : Prop where
  numbered : rows.Pairwise fun r r' => r.Kept → r'.Kept → r.primary = r'.primary →
    r.number ≠ none ∧ r'.number ≠ none ∧ acc.xopc r.form = acc.xopc r'.form
  apart : rows.Pairwise fun r r' => ∀ w, ¬ (r.Matches acc w ∧ r'.Matches acc w)

/-- **A word is dispatched to its row**: both switches select the row that
matches it, and both reach the undefined instruction if none does. -/
def Dispatched (acc : Accessors) (rows : List Row)
    (p : Program Call × Program GenCall) (w : BitVec 32) : Prop :=
  (∀ r ∈ rows, r.Matches acc w →
    decode acc p.1 w = .op (r.invocation acc w) ∧
      decodeInstrGenerateCall acc p.2 w = .op (r.planted acc w)) ∧
  ((∀ r ∈ rows, ¬ r.Matches acc w) →
    decode acc p.1 w = .unk w ∧ decodeInstrGenerateCall acc p.2 w = .unk w)

/-- A word of an opcode reaches a value of a form's extended opcode. -/
def Reached (acc : Accessors) (form : String) (f v : ℤ) : Prop :=
  ∃ w, ((getOpcode w).toNat : ℤ) = f ∧ ((acc.xopc form w).toNat : ℤ) = v

/-- **What the table has to keep to**: an XO-form row whose number with the
OE bit set can occur has OE if its opcode has other rows, that bit not being
its number's own, and has none, or the bit is its number's own, if it is the
only row of its opcode. -/
def OePlain (acc : Accessors) (rows : List Row) : Prop :=
  ∀ r ∈ rows, r.Kept → r.form = "XO" → ∀ f x, r.primary = some f → r.number = some x →
    Reached acc r.form f (Row.withOe x) →
      if 2 ≤ (group rows f).length then r.hasOe = "1" ∧ Row.withOe x ≠ x
      else r.hasOe = "1" → Row.withOe x = x

variable {acc : Accessors} {rows : List Row}

theorem mem_group {r : Row} {f : ℤ} :
    r ∈ group rows f ↔ r ∈ rows ∧ r.Kept ∧ r.primary = some f := by
  simp [group]

theorem group_append_singleton (r : Row) (f : ℤ) :
    group (rows ++ [r]) f =
      group rows f ++ if r.Kept ∧ r.primary = some f then [r] else [] := by
  by_cases h : r.Kept ∧ r.primary = some f <;> simp [group, List.filter_append, h]

/-! ## What reading the table collects -/

/-- A step that succeeds, and what comes after it. -/
theorem bind_ok {α β : Type} {x : Except Failure α} {k : α → Except Failure β} {b : β} :
    x >>= k = .ok b ↔ ∃ a, x = .ok a ∧ k a = .ok b := by
  cases x with
  | error e => exact ⟨nofun, nofun⟩
  | ok a =>
    constructor
    · intro h
      exact ⟨a, rfl, h⟩
    · rintro ⟨a', ha, h⟩
      cases ha
      exact h

theorem intOf_ok {s : String} {n : ℤ} (h : intOf s = .ok n) : int s = some n := by
  unfold intOf at h
  split at h
  · next m hm =>
    cases h
    exact hm
  · cases h

/-- The entries found under an opcode. -/
def entriesAt (ops : Opcodes) (f : ℤ) : List Entry := (ops.lookup f).getD []

theorem entriesAt_insert (ops : Opcodes) (f g : ℤ) (xs : List Entry) :
    entriesAt (ops.insert f xs) g = if g = f then xs else entriesAt ops g := by
  by_cases h : g = f
  · subst h
    simp [entriesAt]
  · simp [entriesAt, AList.lookup_insert_ne h, h]

/-- An opcode that is entered without a row has none. -/
theorem entriesAt_touch (ops : Opcodes) (f g : ℤ) :
    entriesAt (if f ∈ ops then ops else ops.insert f []) g = entriesAt ops g := by
  by_cases h : f ∈ ops
  · rw [if_pos h]
  · rw [if_neg h, entriesAt_insert]
    by_cases hg : g = f
    · subst hg
      simp [entriesAt, AList.lookup_eq_none.2 h]
    · rw [if_neg hg]

/-- What the number of a row is that has been read. -/
theorem number_eq {r : Row} {x : ℤ} (h : xOpcodeOf r.xo = .ok x) : r.number = if x = -1 then none else some x := by
  unfold xOpcodeOf at h
  by_cases hx : r.xo = ""
  · rw [if_neg (not_not.2 hx)] at h
    obtain rfl : (-1 : ℤ) = x := Except.ok.inj h
    simp [Row.number, hx]
  · rw [if_pos hx] at h
    by_cases h1 : x = -1
    · simp [Row.number, hx, intOf_ok h, h1]
    · simp [Row.number, hx, intOf_ok h, h1]

/-- **One row**: a kept row goes behind those of its opcode, in whose place
it comes if it has no extended opcode. -/
theorem parseRow_ok {ops ops' : Opcodes} {r : Row} (h : parseRow ops r = .ok ops') (f : ℤ) :
    entriesAt ops' f =
      if r.Kept ∧ r.primary = some f then
        (if r.number = none then [] else entriesAt ops f) ++ [r.entry r.number]
      else entriesAt ops f := by
  unfold parseRow at h
  by_cases hblank : r.form ≠ "" ∧ r.opcode ≠ ""
  · rw [if_pos hblank] at h
    obtain ⟨g, hg, h⟩ := bind_ok.1 h
    obtain ⟨x, hx, h⟩ := bind_ok.1 h
    have hprimary : r.primary = some g := intOf_ok hg
    have hnumber := number_eq hx
    by_cases hsub : r.subdec = "1"
    · rw [if_pos hsub] at h
      obtain rfl := Except.ok.inj h
      rw [entriesAt_touch, if_neg (fun hk => hk.1.2.2 hsub)]
    · rw [if_neg hsub] at h
      obtain ⟨_, _, h⟩ := bind_ok.1 h
      have hkept : r.Kept := ⟨hblank.1, hblank.2, hsub⟩
      -- what stood under the opcode is read after it has been entered
      have htouch := entriesAt_touch ops g
      by_cases hnone : x = -1
      · rw [if_neg (not_not.2 hnone)] at h
        obtain rfl := Except.ok.inj h
        rw [if_pos hnone] at hnumber
        rw [entriesAt_insert, htouch, hnumber]
        simp [hkept, hprimary, eq_comm]
      · rw [if_pos hnone] at h
        obtain rfl := Except.ok.inj h
        rw [if_neg hnone] at hnumber
        rw [entriesAt_insert, htouch, hnumber]
        have hstood := htouch g
        rw [entriesAt] at hstood
        rw [hstood]
        by_cases hf : f = g
        · subst hf
          simp [hkept, hprimary]
        · simp [hprimary, hf, Ne.symm hf]
  · rw [if_neg hblank] at h
    obtain rfl := Except.ok.inj h
    rw [if_neg (fun hk => hblank ⟨hk.1.1, hk.1.2.1⟩)]

/-- The entries of every opcode are those of its rows. -/
def Collected (ops : Opcodes) (rows : List Row) : Prop :=
  ∀ f, entriesAt ops f = (group rows f).map fun r => r.entry r.number

/-- The rows read so far are collected, if those to come are. -/
theorem foldlM_collected (before rest : List Row) {ops ops' : Opcodes}
    (ht : Table acc (before ++ rest)) (hc : Collected ops before)
    (h : rest.foldlM parseRow ops = .ok ops') : Collected ops' (before ++ rest) := by
  induction rest generalizing before ops with
  | nil =>
    obtain rfl := Except.ok.inj h
    simpa using hc
  | cons r rest ih =>
    rw [List.foldlM_cons] at h
    obtain ⟨mid, hmid, h⟩ := bind_ok.1 h
    rw [List.append_cons] at ht ⊢
    refine ih _ ht (fun f => ?_) h
    rw [parseRow_ok hmid, group_append_singleton, hc f]
    by_cases hf : r.Kept ∧ r.primary = some f
    · rw [if_pos hf, if_pos hf, List.map_append]
      -- a row without an extended opcode replaces nothing: it is alone
      have hold : r.number = none → group before f = [] := by
        intro hnone
        refine List.eq_nil_iff_forall_not_mem.2 fun q hq => ?_
        obtain ⟨hq, hkept, hprimary⟩ := mem_group.1 hq
        have hpair := (List.pairwise_append.1 (List.pairwise_append.1 ht.numbered).1).2.2 q hq r
          List.mem_cons_self hkept hf.1 (hprimary.trans hf.2.symm)
        exact hpair.2.1 hnone
      by_cases hnone : r.number = none
      · simp [hnone, hold hnone]
      · simp [hnone]
    · rw [if_neg hf, if_neg hf, List.append_nil]

/-- **Reading a table collects its rows.** -/
theorem parseCsvInput_collected (ht : Table acc rows) {ops : Opcodes}
    (h : parseCsvInput rows = .ok ops) : Collected ops rows :=
  foldlM_collected [] rows ht (fun _ => rfl) h

/-! ## What is written behind an opcode's label -/

/-- The arm of an entry among others: an XO-form entry gets both values. -/
def minorArm (e : Entry) : Arm ℤ Entry :=
  ⟨if e.form = "XO" then [e.xOpcode.getD 0, Row.withOe (e.xOpcode.getD 0)]
    else [e.xOpcode.getD 0], e⟩

/-- The OE flag is never looked at: it is compared with a number. -/
theorem genMinor_ok {f : ℤ} {e : Entry} {a : Arm ℤ Entry} (h : genMinor f e = .ok a) :
    e.xOpcode ≠ none ∧ a = minorArm e := by
  unfold genMinor at h
  split at h
  · cases h
  · next x hx =>
    have hflag : ¬ Value.str e.hasOe = Value.num 0 := nofun
    refine ⟨by simp [hx], ?_⟩
    split at h
    · next hform =>
      obtain rfl := Except.ok.inj h
      have hxo : e.form ≠ "XO" := by
        rintro hxo
        simp [hxo, hflag] at hform
      simp [minorArm, hx, hxo]
    · split at h
      · next hxo =>
        obtain rfl := Except.ok.inj h
        simp [minorArm, hx, hxo, Row.withOe]
      · cases h

theorem mapM_genMinor_ok {f : ℤ} {es : List Entry} {arms : List (Arm ℤ Entry)}
    (h : es.mapM (genMinor f) = .ok arms) :
    (∀ e ∈ es, e.xOpcode ≠ none) ∧ arms = es.map minorArm := by
  induction es generalizing arms with
  | nil =>
    rw [List.mapM_nil] at h
    obtain rfl := Except.ok.inj h
    exact ⟨by simp, rfl⟩
  | cons e es ih =>
    rw [List.mapM_cons] at h
    obtain ⟨a, ha, h⟩ := bind_ok.1 h
    obtain ⟨rest, hrest, h⟩ := bind_ok.1 h
    obtain rfl := Except.ok.inj h
    obtain ⟨hx, rfl⟩ := genMinor_ok ha
    obtain ⟨hxs, rfl⟩ := ih hrest
    exact ⟨List.forall_mem_cons.2 ⟨hx, hxs⟩, rfl⟩

theorem sortEntries_perm {xs ys : List Entry} (h : sortEntries xs = .ok ys) : ys.Perm xs := by
  unfold sortEntries at h
  split at h
  · cases h
  · obtain rfl := Except.ok.inj h
    exact List.perm_insertionSort _ _

/-- An opcode without a row is refused. -/
theorem genMajor_nil {f : ℤ} {body : Body Entry} : genMajor f [] ≠ .ok body := nofun

/-- **The only entry of an opcode**: its number is tested as it stands. -/
theorem genMajor_single {f : ℤ} {e : Entry} {body : Body Entry}
    (h : genMajor f [e] = .ok body) (acc : Accessors) (w : BitVec 32) :
    body.run acc w =
      if ∀ x, e.xOpcode = some x → ((acc.xopc e.form w).toNat : ℤ) = x then .arm e
      else .past := by
  have hsort : sortEntries [e] = .ok [e] := rfl
  rw [genMajor, hsort] at h
  cases hx : e.xOpcode with
  | none =>
    simp only [bind, Except.bind, hx] at h
    obtain rfl := Except.ok.inj h
    simp [Body.run]
  | some x =>
    simp only [bind, Except.bind, hx] at h
    obtain rfl := Except.ok.inj h
    simp [Body.run]

/-- **Several entries**: a switch over the extended opcode that the first
one's accessor reads. -/
theorem genMajor_several {f : ℤ} {xs : List Entry} {body : Body Entry}
    (hlen : 2 ≤ xs.length) (h : genMajor f xs = .ok body) :
    (∀ e ∈ xs, e.xOpcode ≠ none) ∧ ∃ e ∈ xs, ∃ s : List (Arm ℤ Entry),
      s.Perm (xs.map minorArm) ∧ body = .switch e.form s := by
  unfold genMajor at h
  obtain ⟨ys, hys, h⟩ := bind_ok.1 h
  have hperm := sortEntries_perm hys
  rcases ys with - | ⟨e, - | ⟨e', es⟩⟩
  · cases h
  · have := hperm.length_eq
    simp only [List.length_cons, List.length_nil] at this
    omega
  · obtain ⟨s, hs, h⟩ := bind_ok.1 h
    obtain rfl := Except.ok.inj h
    obtain ⟨hx, rfl⟩ := mapM_genMinor_ok hs
    exact ⟨fun a ha => hx a (hperm.mem_iff.2 ha), e, hperm.mem_iff.1 List.mem_cons_self, _,
      hperm.map _, rfl⟩

/-! ## The switch over the opcodes -/

theorem genArms_ok {l : List (Sigma fun _ : ℤ => List Entry)} {arms : Program Entry}
    (h : genArms l = .ok arms) :
    arms.map Arm.labels = l.keys.map (fun k => [k]) ∧
      ∀ e ∈ l, ∃ body, genMajor e.1 e.2 = .ok body ∧ (⟨[e.1], body⟩ : Arm _ _) ∈ arms := by
  induction l generalizing arms with
  | nil =>
    obtain rfl := Except.ok.inj h
    exact ⟨rfl, by simp⟩
  | cons e l ih =>
    unfold genArms at h
    obtain ⟨body, hbody, h⟩ := bind_ok.1 h
    obtain ⟨rest, hrest, h⟩ := bind_ok.1 h
    obtain rfl := Except.ok.inj h
    obtain ⟨hlabels, hmem⟩ := ih hrest
    refine ⟨by simp [hlabels], List.forall_mem_cons.2 ⟨⟨body, hbody, List.mem_cons_self⟩, ?_⟩⟩
    intro e' he'
    obtain ⟨body', hbody', hin⟩ := hmem e' he'
    exact ⟨body', hbody', List.mem_cons_of_mem _ hin⟩

/-- An opcode's label leads to what was written for its entries, and a word
of any other opcode past the switch. -/
theorem land_genArms {ops : Opcodes} {arms : Program Entry}
    (h : genArms (ops.entries.insertionSort fun a b => a.1 ≤ b.1) = .ok arms) (f : ℤ) :
    (ops.lookup f = none ∧ Arm.land arms f = .past) ∨
      ∃ xs body, ops.lookup f = some xs ∧ genMajor f xs = .ok body ∧
        Arm.land arms f = .arm body := by
  obtain ⟨hlabels, hmem⟩ := genArms_ok h
  have hperm := List.perm_insertionSort (fun a b : Sigma fun _ : ℤ => List Entry => a.1 ≤ b.1)
    ops.entries
  cases hf : ops.lookup f with
  | none =>
    refine .inl ⟨rfl, Arm.land_eq_past_iff.2 fun a ha hfa => ?_⟩
    have hin : a.labels ∈ arms.map Arm.labels := List.mem_map_of_mem ha
    rw [hlabels] at hin
    obtain ⟨k, hk, hka⟩ := List.mem_map.1 hin
    rw [← hka, List.mem_singleton] at hfa
    subst hfa
    obtain ⟨xs, hxs⟩ := List.exists_of_mem_keys hk
    exact AList.lookup_eq_none.1 hf
      (AList.mem_keys.2 (List.mem_keys_of_mem (hperm.mem_iff.1 hxs)))
  | some xs =>
    have he : (⟨f, xs⟩ : Sigma fun _ : ℤ => List Entry) ∈ ops.entries :=
      AList.mem_lookup_iff.1 hf
    obtain ⟨body, hbody, hin⟩ := hmem _ (hperm.mem_iff.2 he)
    refine .inr ⟨xs, body, rfl, hbody, ?_⟩
    have hkeys := (List.perm_nodupKeys hperm).2 ops.nodupKeys
    exact Arm.land_of_single (Arm.single_of_labels hlabels hkeys f) hin List.mem_cons_self

/-- The template that both programs fill. -/
theorem generate_ok {p : Program Call × Program GenCall} (h : generate rows = .ok p) :
    ∃ ops arms, parseCsvInput rows = .ok ops ∧
      genArms (ops.entries.insertionSort fun a b => a.1 ≤ b.1) = .ok arms ∧
      p = (arms.map (Arm.map (Body.fill Entry.callStr)),
        arms.map (Arm.map (Body.fill Entry.genCallStr))) := by
  obtain ⟨ops, hops, h⟩ := bind_ok.1 h
  obtain ⟨arms, harms, h⟩ := bind_ok.1 h
  exact ⟨ops, arms, hops, harms, (Except.ok.inj h).symm⟩

/-- A filled template runs what the template runs, filled. -/
theorem run_fill {α : Type} (g : Entry → α) (arms : Program Entry) (w : BitVec 32) :
    Program.run acc (arms.map (Arm.map (Body.fill g))) w = (Program.run acc arms w).map g := by
  have hbody : ∀ b : Body Entry, (b.fill g).run acc w = (b.run acc w).map g := by
    intro b
    cases b with
    | call e => rfl
    | test form x e =>
      simp only [Body.fill, Body.run]
      split <;> rfl
    | switch form s => exact Arm.land_map g
  unfold Program.run
  rw [Arm.land_map]
  cases Arm.land arms ((getOpcode w).toNat : ℤ) with
  | arm b => exact hbody b
  | past => rfl
  | illFormed => rfl

/-! ## The arm a word reaches -/

variable {ops : Opcodes} {arms : Program Entry} {f : ℤ} {w : BitVec 32} {r : Row}
variable {body : Body Entry}

/-- The entries of a group of rows. -/
def entries (g : List Row) : List Entry := g.map fun r => r.entry r.number

/-- A word runs what was written for the rows of its opcode. -/
theorem run_eq (ht : Table acc rows) (hops : parseCsvInput rows = .ok ops)
    (harms : genArms (ops.entries.insertionSort fun a b => a.1 ≤ b.1) = .ok arms)
    (hf : ((getOpcode w).toNat : ℤ) = f) :
    (group rows f = [] ∧ Program.run acc arms w = .past) ∨
      ∃ body, genMajor f (entries (group rows f)) = .ok body ∧
        Program.run acc arms w = body.run acc w := by
  have hc : entriesAt ops f = entries (group rows f) := parseCsvInput_collected ht hops f
  rw [Program.run, hf]
  rcases land_genArms harms f with ⟨hnone, hland⟩ | ⟨xs, body, hxs, hbody, hland⟩
  · refine .inl ⟨?_, by rw [hland]; rfl⟩
    rw [entriesAt, hnone, Option.getD_none] at hc
    exact List.map_eq_nil_iff.1 hc.symm
  · refine .inr ⟨body, ?_, by rw [hland]; rfl⟩
    rw [entriesAt, hxs, Option.getD_some] at hc
    rw [← hc]
    exact hbody

/-- A row matches a word of its opcode by the extended opcode alone. -/
theorem matches_iff (hr : r ∈ group rows f) (hf : ((getOpcode w).toNat : ℤ) = f) :
    r.Matches acc w ↔ ∀ x, r.number = some x → r.Admits x ((acc.xopc r.form w).toNat : ℤ) := by
  obtain ⟨-, hkept, hprimary⟩ := mem_group.1 hr
  constructor
  · intro h
    exact h.2.2
  · intro h
    exact ⟨hkept, by rw [hprimary, hf], h⟩

/-- The rows that match a word are of its opcode. -/
theorem mem_group_of_matches (hr : r ∈ rows) (h : r.Matches acc w) :
    r ∈ group rows ((getOpcode w).toNat : ℤ) :=
  mem_group.2 ⟨hr, h.1, h.2.1⟩

/-- The rows of an opcode are read with one accessor. -/
theorem Table.shared (ht : Table acc rows) {r' : Row} (hr : r ∈ group rows f)
    (hr' : r' ∈ group rows f) : acc.xopc r.form = acc.xopc r'.form := by
  obtain ⟨hm, hk, hp⟩ := mem_group.1 hr
  obtain ⟨hm', hk', hp'⟩ := mem_group.1 hr'
  have hsymm : Std.Symm fun a b : Row =>
      a.Kept → b.Kept → a.primary = b.primary → acc.xopc a.form = acc.xopc b.form :=
    ⟨fun a b hab hb ha hpr => (hab ha hb hpr.symm).symm⟩
  have hpair := ht.numbered.imp fun {a b} hab ha hb hpr => (hab ha hb hpr).2.2
  exact hpair.forall_of_forall (fun _ _ _ _ _ => rfl) hm hm' hk hk' (hp.trans hp'.symm)

/-- Two rows of an opcode both have an extended opcode. -/
theorem Table.numbered_of_ne (ht : Table acc rows) {r' : Row} (hr : r ∈ group rows f)
    (hr' : r' ∈ group rows f) (hne : r ≠ r') : r'.number ≠ none := by
  obtain ⟨hm, hk, hp⟩ := mem_group.1 hr
  obtain ⟨hm', hk', hp'⟩ := mem_group.1 hr'
  have hsymm : Std.Symm fun a b : Row =>
      a.Kept → b.Kept → a.primary = b.primary → a.number ≠ none ∧ b.number ≠ none :=
    ⟨fun a b hab hb ha hpr => (hab ha hb hpr.symm).symm⟩
  have hpair := ht.numbered.imp fun {a b} hab ha hb hpr => (hab ha hb hpr).imp_right And.left
  exact (hpair.forall hm hm' hne hk hk' (hp.trans hp'.symm)).2

/-- **Several rows of an opcode**: one arm for each, in some order. -/
theorem run_several (ht : Table acc rows) (hlen : 2 ≤ (group rows f).length)
    (hbody : genMajor f (entries (group rows f)) = .ok body) :
    (∀ r ∈ group rows f, r.number ≠ none) ∧ ∃ s : List (Arm ℤ Entry),
      s.Perm ((entries (group rows f)).map minorArm) ∧ ∀ r ∈ group rows f, ∀ w,
        body.run acc w = Arm.land s ((acc.xopc r.form w).toNat : ℤ) := by
  obtain ⟨hx, e, he, s, hs, rfl⟩ := genMajor_several (by simpa [entries] using hlen) hbody
  refine ⟨fun r hr => hx _ (List.mem_map_of_mem hr), s, hs, fun r hr w => ?_⟩
  obtain ⟨r₀, hr₀, rfl⟩ := List.mem_map.1 he
  rw [ht.shared hr hr₀]
  rfl

/-- Arms of rows that do not have the same values are apart. -/
theorem minorArm_labels {x v : ℤ} (hx : r.number = some x)
    (hplain : r.form = "XO" → v = Row.withOe x → r.hasOe = "1" ∧ Row.withOe x ≠ x) :
    (v ∈ (minorArm (r.entry r.number)).labels ↔ r.Admits x v) ∧
      (minorArm (r.entry r.number)).labels.count v ≤ 1 := by
  rw [hx]
  by_cases hxo : r.form = "XO"
  · have hl : (minorArm (r.entry (some x))).labels = [x, Row.withOe x] := by
      simp [minorArm, Row.entry, hxo]
    rw [hl]
    by_cases hv : v = Row.withOe x
    · obtain ⟨hoe, hne⟩ := hplain hxo hv
      simp [Row.Admits, hxo, hoe, hv, hne.symm]
    · simp [Row.Admits, hv, Ne.symm hv, List.count_cons]
      split <;> simp
  · have hl : (minorArm (r.entry (some x))).labels = [x] := by
      simp [minorArm, Row.entry, hxo]
    rw [hl]
    exact ⟨by simp [Row.Admits, hxo], List.count_le_length⟩

/-! ## Exactly the tables whose words are dispatched -/

/-- What the template selects: the entry of the row that matches. -/
structure Selects (acc : Accessors) (rows : List Row) (w : BitVec 32)
    (l : Landing Entry) : Prop where
  row : ∀ r ∈ rows, r.Matches acc w → l = .arm (r.entry r.number)
  none : (∀ r ∈ rows, ¬ r.Matches acc w) → l = .past

/-- The two programs that a template fills to. -/
def programs (arms : Program Entry) : Program Call × Program GenCall :=
  (arms.map (Arm.map (Body.fill Entry.callStr)), arms.map (Arm.map (Body.fill Entry.genCallStr)))

/-- An entry's calls have the fields of its row's prototype. -/
theorem dispatched_of_selects (h : Selects acc rows w (Program.run acc arms w)) :
    Dispatched acc rows (programs arms) w := by
  constructor
  · intro r hr hm
    have hrow := h.row r hr hm
    constructor
    · simp [decode, programs, run_fill, hrow, Decoded.ofLanding, Row.entry, Row.invocation,
        genCall, genPrototype, Accessors.values]
    · simp [decodeInstrGenerateCall, programs, run_fill, hrow, Decoded.ofLanding, Row.entry,
        Row.planted, genFnCaller, genPrototype, Accessors.values]
  · intro hno
    have hpast := h.none hno
    constructor
    · simp [decode, programs, run_fill, hpast, Decoded.ofLanding]
    · simp [decodeInstrGenerateCall, programs, run_fill, hpast, Decoded.ofLanding]

/-- A word that is dispatched lands in an arm if a row matches it. -/
theorem land_of_dispatched (h : Dispatched acc rows (programs arms) w) (hr : r ∈ rows)
    (hm : r.Matches acc w) : ∃ e, Program.run acc arms w = .arm e := by
  have hd := (h.1 r hr hm).1
  rw [decode, programs, run_fill] at hd
  cases hl : Program.run acc arms w with
  | arm e => exact ⟨e, rfl⟩
  | past => simp [hl, Decoded.ofLanding] at hd
  | illFormed => simp [hl, Decoded.ofLanding] at hd

/-- A word that is dispatched lands in no arm if no row matches it. -/
theorem past_of_dispatched (h : Dispatched acc rows (programs arms) w)
    (hno : ∀ r ∈ rows, ¬ r.Matches acc w) : Program.run acc arms w = .past := by
  have hd := (h.2 hno).1
  rw [decode, programs, run_fill] at hd
  cases hl : Program.run acc arms w with
  | arm e => simp [hl, Decoded.ofLanding] at hd
  | past => rfl
  | illFormed => simp [hl, Decoded.ofLanding] at hd

/-- The only row of an opcode is selected by its number as it stands. -/
theorem selects_alone (hplain : OePlain acc rows) (hf : ((getOpcode w).toNat : ℤ) = f)
    (hg : group rows f = [r]) (hbody : genMajor f (entries (group rows f)) = .ok body) :
    Selects acc rows w (body.run acc w) := by
  have hr : r ∈ group rows f := by rw [hg]; exact List.mem_singleton_self r
  obtain ⟨hrows, hkept, hprimary⟩ := mem_group.1 hr
  rw [hg] at hbody
  have hrun : body.run acc w =
      if ∀ x, r.number = some x → ((acc.xopc r.form w).toNat : ℤ) = x then
        .arm (r.entry r.number) else .past := genMajor_single hbody acc w
  have hiff : r.Matches acc w ↔ ∀ x, r.number = some x → ((acc.xopc r.form w).toNat : ℤ) = x := by
    rw [matches_iff hr hf]
    refine forall₂_congr fun x hx => ⟨?_, .inl⟩
    rintro (h | ⟨hxo, hoe, h⟩)
    · exact h
    · have hpl := hplain r hrows hkept hxo f x hprimary hx ⟨w, hf, h⟩
      rw [hg, if_neg (by simp)] at hpl
      rw [h, hpl hoe]
  constructor
  · intro r' hr' hm
    have hmem := mem_group_of_matches hr' hm
    rw [hf, hg, List.mem_singleton] at hmem
    subst hmem
    rw [hrun, if_pos (hiff.1 hm)]
  · intro hno
    rw [hrun, if_neg fun h => hno r hrows (hiff.2 h)]

/-- Of several rows the one that matches is selected. -/
theorem selects_several (ht : Table acc rows) (hplain : OePlain acc rows)
    (hf : ((getOpcode w).toNat : ℤ) = f) (hlen : 2 ≤ (group rows f).length)
    (hbody : genMajor f (entries (group rows f)) = .ok body) :
    Selects acc rows w (body.run acc w) := by
  obtain ⟨hnumber, s, hs, hrun⟩ := run_several ht hlen hbody
  obtain ⟨r₀, hr₀⟩ := List.exists_mem_of_length_pos (by omega : 0 < (group rows f).length)
  set v : ℤ := ((acc.xopc r₀.form w).toNat : ℤ) with hv
  rw [hrun r₀ hr₀ w, ← hv]
  -- a row has the value's label exactly when it matches, and has it once
  have hlabel : ∀ r ∈ group rows f,
      (v ∈ (minorArm (r.entry r.number)).labels ↔ r.Matches acc w) ∧
        (minorArm (r.entry r.number)).labels.count v ≤ 1 := by
    intro r hr
    obtain ⟨hrows, hkept, hprimary⟩ := mem_group.1 hr
    obtain ⟨x, hx⟩ := Option.ne_none_iff_exists'.1 (hnumber r hr)
    have hvr : ((acc.xopc r.form w).toNat : ℤ) = v := by rw [ht.shared hr hr₀]
    have hl := minorArm_labels (v := v) hx fun hxo hvo => by
      have hpl := hplain r hrows hkept hxo f x hprimary hx ⟨w, hf, hvr.trans hvo⟩
      rwa [if_pos hlen] at hpl
    refine ⟨hl.1.trans ?_, hl.2⟩
    rw [matches_iff hr hf, hvr, hx]
    simp
  have hmem : ∀ a, a ∈ s ↔ ∃ r ∈ group rows f, a = minorArm (r.entry r.number) := by
    intro a
    rw [hs.mem_iff]
    simp [entries, eq_comm]
  have hsingle : Arm.Single s v := by
    refine Arm.Single.perm ⟨?_, ?_⟩ hs.symm
    · intro a ha
      obtain ⟨r, hr, rfl⟩ := (hmem a).1 (hs.mem_iff.2 ha)
      exact (hlabel r hr).2
    · rw [entries, List.map_map, List.pairwise_map]
      refine (ht.apart.filter _).imp_of_mem fun {a b} ha hb hab hvv => hab w ?_
      exact ⟨(hlabel a ha).1.1 hvv.1, (hlabel b hb).1.1 hvv.2⟩
  constructor
  · intro r hr hm
    have hg : r ∈ group rows f := hf ▸ mem_group_of_matches hr hm
    exact Arm.land_of_single hsingle ((hmem _).2 ⟨r, hg, rfl⟩) ((hlabel r hg).1.2 hm)
  · intro hno
    refine Arm.land_eq_past_iff.2 fun a ha hva => ?_
    obtain ⟨r, hr, rfl⟩ := (hmem a).1 ha
    exact hno r (mem_group.1 hr).1 ((hlabel r hr).1.1 hva)

/-- Where every word is dispatched, the only row of an opcode does without
the OE bit. -/
theorem plain_alone (hd : Dispatched acc rows (programs arms) w)
    (hrun : Program.run acc arms w = body.run acc w) (hf : ((getOpcode w).toNat : ℤ) = f)
    (hg : group rows f = [r]) (hbody : genMajor f (entries (group rows f)) = .ok body)
    {x : ℤ} (hx : r.number = some x) (hxo : r.form = "XO") (hoe : r.hasOe = "1")
    (hv : ((acc.xopc r.form w).toNat : ℤ) = Row.withOe x) : Row.withOe x = x := by
  have hr : r ∈ group rows f := by rw [hg]; exact List.mem_singleton_self r
  have hm : r.Matches acc w := by
    rw [matches_iff hr hf, hx]
    intro y hy
    obtain rfl := Option.some.inj hy
    exact .inr ⟨hxo, hoe, hv⟩
  obtain ⟨e, he⟩ := land_of_dispatched hd (mem_group.1 hr).1 hm
  rw [hg] at hbody
  rw [hrun, genMajor_single hbody acc w] at he
  by_contra hne
  rw [if_neg fun h => hne (hv ▸ h x hx)] at he
  cases he

/-- Where every word is dispatched, an XO-form row among others has OE, and
its label is written twice for two values. -/
theorem plain_several (ht : Table acc rows) (hd : Dispatched acc rows (programs arms) w)
    (hrun : Program.run acc arms w = body.run acc w) (hf : ((getOpcode w).toNat : ℤ) = f)
    (hr : r ∈ group rows f) (hlen : 2 ≤ (group rows f).length)
    (hbody : genMajor f (entries (group rows f)) = .ok body)
    {x : ℤ} (hx : r.number = some x) (hxo : r.form = "XO")
    (hv : ((acc.xopc r.form w).toNat : ℤ) = Row.withOe x) :
    r.hasOe = "1" ∧ Row.withOe x ≠ x := by
  obtain ⟨-, s, hs, hland⟩ := run_several ht hlen hbody
  have hlabels : (minorArm (r.entry r.number)).labels = [x, Row.withOe x] := by
    simp [minorArm, Row.entry, hxo, hx]
  have hin : minorArm (r.entry r.number) ∈ s :=
    hs.mem_iff.2 (List.mem_map_of_mem (List.mem_map_of_mem hr))
  rw [hland r hr w, hv] at hrun
  -- the row's own label keeps the word from the undefined instruction
  obtain ⟨r', hr', hm'⟩ : ∃ r' ∈ rows, r'.Matches acc w := by
    by_contra hno
    have hpast := past_of_dispatched hd fun r' hr' hm' => hno ⟨r', hr', hm'⟩
    rw [hpast] at hrun
    refine Arm.land_eq_past_iff.1 hrun.symm _ hin ?_
    rw [hlabels]
    simp
  obtain ⟨e, he⟩ := land_of_dispatched hd hr' hm'
  have hsingle := (Arm.single_of_land (hrun.symm.trans he)).perm hs
  have hne : Row.withOe x ≠ x := by
    intro heq
    have honce := hsingle.once _ (hs.mem_iff.1 hin)
    rw [hlabels, heq] at honce
    simp at honce
  refine ⟨?_, hne⟩
  -- the row that matches has the label too, so that it is the same row
  have hg' : r' ∈ group rows f := hf ▸ mem_group_of_matches hr' hm'
  have hsame : r = r' := by
    by_contra hdiff
    have hapart : (group rows f).Pairwise fun a b =>
        ¬ (Row.withOe x ∈ (minorArm (a.entry a.number)).labels ∧
          Row.withOe x ∈ (minorArm (b.entry b.number)).labels) := by
      have h := hsingle.apart
      rw [entries, List.map_map, List.pairwise_map] at h
      exact h
    have hsymm : Std.Symm fun a b : Row =>
        ¬ (Row.withOe x ∈ (minorArm (a.entry a.number)).labels ∧
          Row.withOe x ∈ (minorArm (b.entry b.number)).labels) :=
      ⟨fun a b hab hba => hab hba.symm⟩
    refine hapart.forall hr hg' hdiff ⟨by simp [hlabels], ?_⟩
    have hm := (matches_iff hg' hf).1 hm'
    rw [← ht.shared hr hg', hv] at hm
    cases hy : r'.number with
    | none => exact absurd hy (ht.numbered_of_ne hr hg' hdiff)
    | some y =>
      rcases hm y hy with h | ⟨hxo', -, h⟩
      · rw [minorArm]
        by_cases hform : r'.form = "XO" <;> simp [Row.entry, hform, h]
      · simp [minorArm, Row.entry, hxo', h]
  subst hsame
  rcases (matches_iff hr hf).1 hm' x hx with h | ⟨-, hoe, -⟩
  · exact absurd (hv.symm.trans h) hne
  · exact hoe

/-- **The exact tables.** Of a table that the generator takes every word is
dispatched to its row, in the interpreter and in the block generator, if and
only if the XO-form rows among others are those that have OE. -/
theorem dispatched_iff (acc : Accessors) (rows : List Row) (p : Program Call × Program GenCall)
    (hp : generate rows = .ok p) (ht : Table acc rows) :
    (∀ w, Dispatched acc rows p w) ↔ OePlain acc rows := by
  obtain ⟨ops, arms, hops, harms, rfl⟩ := generate_ok hp
  constructor
  · intro hd r hr hkept hxo f x hprimary hx ⟨w, hf, hv⟩
    have hg : r ∈ group rows f := mem_group.2 ⟨hr, hkept, hprimary⟩
    rcases run_eq ht hops harms hf with ⟨hnil, -⟩ | ⟨body, hbody, hrun⟩
    · rw [hnil] at hg
      cases hg
    by_cases hlen : 2 ≤ (group rows f).length
    · rw [if_pos hlen]
      exact plain_several ht (hd w) hrun hf hg hlen hbody hx hxo hv
    · rw [if_neg hlen]
      intro hoe
      have hone : (group rows f).length = 1 := by
        have := List.length_pos_of_mem hg
        omega
      obtain ⟨r', hr'⟩ := List.length_eq_one_iff.1 hone
      rw [hr', List.mem_singleton] at hg
      subst hg
      exact plain_alone (hd w) hrun hf hr' hbody hx hxo hoe hv
  · intro hplain w
    refine dispatched_of_selects ?_
    rcases run_eq ht hops harms rfl with ⟨hnil, hpast⟩ | ⟨body, hbody, hrun⟩
    · rw [hpast]
      refine ⟨fun r hr hm => ?_, fun _ => rfl⟩
      have hg := mem_group_of_matches hr hm
      rw [hnil] at hg
      cases hg
    · rw [hrun]
      by_cases hlen : 2 ≤ (group rows ((getOpcode w).toNat : ℤ)).length
      · exact selects_several ht hplain rfl hlen hbody
      · cases hg : group rows ((getOpcode w).toNat : ℤ) with
        | nil =>
          rw [hg] at hbody
          exact absurd hbody genMajor_nil
        | cons r g =>
          obtain rfl : g = [] := by
            rw [hg, List.length_cons] at hlen
            exact List.length_eq_zero_iff.1 (by omega)
          exact selects_alone hplain rfl hg hbody

/-! ## Two tables -/

/-- The accessors that the rows below name. -/
def Accessors.header : Accessors where
  xopc
    | "XL" => xlXOPC
    | "SC" => scXOPC
    | _ => xXOPC
  field
    | "X", "RS", w => ((xRS w).toNat : ℤ)
    | "X", "RA", w => ((xRA w).toNat : ℤ)
    | "X", "RB", w => ((xRB w).toNat : ℤ)
    | "X", "Rc", w => ((xRc w).toNat : ℤ)
    | "XO", "RT", w => ((xoRT w).toNat : ℤ)
    | "XO", "RA", w => ((xoRA w).toNat : ℤ)
    | "XO", "RB", w => ((xoRB w).toNat : ℤ)
    | "XO", "OE", w => ((xoOE w).toNat : ℤ)
    | "XO", "Rc", w => ((xoRc w).toNat : ℤ)
    | _, _, _ => 0

/-- The row of `and`. -/
def rowAnd : Row where
  name := "and"
  form := "X"
  opcode := "31"
  xo := "28"
  subdec := ""
  inRegs := "RS,RB"
  outRegs := "RA"
  outImplicitRegs := ""
  action := "val_RA = val_RS & val_RB"
  hasRc := "1"
  hasOe := ""
  endsBb := ""
  hasAa := ""
  hasLk := ""

/-- The row of `add`. -/
def rowAdd : Row :=
  { rowAnd with
    name := "add", form := "XO", xo := "266", inRegs := "RA,RB", outRegs := "RT",
    action := "ADD_OV(val_RT, val_OV, val_RA, val_RB)", hasOe := "1" }

/-- The row of `mulhw`, as the XO-form row without OE that it is. -/
def rowMulhw : Row :=
  { rowAnd with
    name := "mulhw", form := "XO", xo := "75", inRegs := "RA,RB", outRegs := "RT",
    action := "val_RT = ((s64)(s32)val_RA * (s64)(s32)val_RB)>>32" }

example : (genPrototype rowAdd).params =
    [("int", "RA"), ("int", "RB"), ("int", "RT"), ("int", "Rc"), ("int", "OE")] := by decide

/-- `and` and an XO-form row of another number, the values apart. -/
theorem table_pair {r : Row} {x : ℤ} (hform : r.form = "XO") (hx : r.number = some x)
    (h : x ≠ 28 ∧ Row.withOe x ≠ 28) : Table .header [rowAnd, r] := by
  have h28 : rowAnd.number = some 28 := by decide
  constructor
  · simp only [List.pairwise_cons, List.mem_singleton, forall_eq, List.not_mem_nil, false_implies,
      implies_true, List.Pairwise.nil, and_true]
    intro _ _ _
    rw [h28, hx, hform]
    exact ⟨by simp, by simp, rfl⟩
  · simp only [List.pairwise_cons, List.mem_singleton, forall_eq, List.not_mem_nil, false_implies,
      implies_true, List.Pairwise.nil, and_true]
    rintro w ⟨ha, hr⟩
    have hxopc : Accessors.header.xopc r.form = Accessors.header.xopc rowAnd.form := by
      rw [hform]
      rfl
    have hv : ((Accessors.header.xopc rowAnd.form w).toNat : ℤ) = 28 := by
      rcases ha.2.2 28 h28 with hv | ⟨hxo, -, -⟩
      · exact hv
      · exact absurd hxo (by decide)
    have hr := hr.2.2 x hx
    rw [hxopc, hv] at hr
    rcases hr with hr | ⟨-, -, hr⟩
    · exact h.1 hr.symm
    · exact h.2 hr.symm

/-- The words of `and` and of `add` are dispatched to them. -/
theorem dispatched_iff_add : ∃ p, generate [rowAnd, rowAdd] = .ok p ∧
    ∀ w, Dispatched .header [rowAnd, rowAdd] p w := by
  refine ⟨_, rfl, (dispatched_iff .header [rowAnd, rowAdd] _ rfl
    (table_pair (x := 266) rfl (by decide) (by decide))).2 ?_⟩
  intro r hr _ hxo f x hprimary hx _
  have hr : r = rowAdd := by
    rcases List.mem_pair.1 hr with rfl | rfl
    · exact absurd hxo (by decide)
    · rfl
  subst hr
  obtain rfl : 31 = f := Option.some.inj ((by decide : rowAdd.primary = some 31).symm.trans hprimary)
  obtain rfl : 266 = x := Option.some.inj ((by decide : rowAdd.number = some 266).symm.trans hx)
  decide

/-- **The flag that is compared with a number**: the row without OE is called
for a word with the OE bit set, which no row matches. -/
theorem mulhw_with_oe : ∃ p, generate [rowAnd, rowMulhw] = .ok p ∧
    Table .header [rowAnd, rowMulhw] ∧
    (∀ r ∈ [rowAnd, rowMulhw], ¬ r.Matches .header 0x7c000496) ∧
    decode .header p.1 0x7c000496 = .op ⟨"mulhw", [0, 0, 0, 0]⟩ ∧
    ¬ ∀ w, Dispatched .header [rowAnd, rowMulhw] p w := by
  have hno : ∀ r ∈ [rowAnd, rowMulhw], ¬ r.Matches .header 0x7c000496 := by
    intro r hr hm
    rcases List.mem_pair.1 hr with rfl | rfl
    · exact absurd (hm.2.2 28 (by decide)) (by unfold Row.Admits; decide)
    · exact absurd (hm.2.2 75 (by decide)) (by unfold Row.Admits; decide)
  refine ⟨_, rfl, table_pair (x := 75) rfl (by decide) (by decide), hno, by decide, fun hd => ?_⟩
  exact absurd ((hd 0x7c000496).2 hno).1 (by decide)

end MrIss.MkDecode
