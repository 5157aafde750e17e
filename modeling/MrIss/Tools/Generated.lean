import Mathlib.Data.List.Forall2
import MrIss.Interp.Table
import MrIss.Tools.Dispatch
import MrIss.Tools.PpcTable
/-!
# The switches that are generated

Each line of the instruction table that is kept is that of a function and of
a row of the decoder. The switch that is generated for the interpreter comes,
for every word, to the call that the decoder makes; the one for the block
generator plants a call of the same function, which is entered with the same
arguments.
-/

namespace MrIss

/-- The name of a form. -/
def Form.text : Form → String
  | I => "I"
  | B => "B"
  | SC => "SC"
  | D => "D"
  | X => "X"
  | XL => "XL"
  | XFX => "XFX"
  | XO => "XO"
  | M => "M"

namespace MkDecode

/-! ## Lines, functions and rows -/

/-- What the decoder selects a row by. -/
structure Head where
  form : Form
  opcode : ℕ
  xo : Option ℕ

/-- The head of a row. -/
def head (m : MrIss.Row) : Head := ⟨m.form, m.opcode, m.xo⟩

/-- **A line is that of a function and of a row**: it has the name and the
parameters of the one and the numbers of the other. -/
structure Fits (r : Row) (o : Op) (k : Head) : Prop where
  kept : r.Kept
  name : r.name = o.name
  form : r.form = o.form
  rowForm : r.form = k.form.text
  params : r.params = o.params
  primary : r.primary = some (k.opcode : ℤ)
  number : r.number = k.xo.map Nat.cast
  oe : r.form = "XO" → r.hasOe = "1"

instance fits_decidable (r : Row) (o : Op) (k : Head) : Decidable (Fits r o k) :=
  decidable_of_iff (r.Kept ∧ r.name = o.name ∧ r.form = o.form ∧ r.form = k.form.text ∧
      r.params = o.params ∧ r.primary = some (k.opcode : ℤ) ∧ r.number = k.xo.map Nat.cast ∧
      (r.form = "XO" → r.hasOe = "1"))
    ⟨fun ⟨h₁, h₂, h₃, h₄, h₅, h₆, h₇, h₈⟩ => ⟨h₁, h₂, h₃, h₄, h₅, h₆, h₇, h₈⟩,
      fun ⟨h₁, h₂, h₃, h₄, h₅, h₆, h₇, h₈⟩ => ⟨h₁, h₂, h₃, h₄, h₅, h₆, h₇, h₈⟩⟩

/-- Where the function of each kept line stands, in the order of the lines. -/
def places : List ℕ :=
  [0, 1, 2, 3, 4, 5, 6, 7, 8, 22, 23, 24, 25, 62, 63, 64, 65, 46, 47, 48, 49, 26, 50, 51, 52, 53,
    54, 55, 56, 57, 9, 10, 118, 27, 28, 29, 119, 69, 70, 71, 72, 73, 74, 75, 76, 77, 78, 79, 80, 81,
    112, 114, 115, 101, 82, 83, 84, 85, 86, 58, 59, 60, 121, 122, 123, 61, 128, 129, 11, 12, 13, 14,
    30, 15, 31, 32, 33, 34, 35, 130, 36, 37, 38, 66, 39, 40, 41, 42, 87, 88, 89, 90, 91, 92, 93, 94,
    95, 113, 116, 117, 96, 97, 102, 98, 99, 100, 16, 17, 18, 19, 20, 21, 120, 67, 68, 43, 44, 45,
    124, 107, 103, 104, 108, 105, 109, 106, 110, 111, 125, 126, 131, 132, 133, 134, 135, 127]

/-- The rows are selected alike in every configuration. -/
theorem heads_eq (c c' : Config) : (table c).map head = (table c').map head := by
  simp only [table, arithmeticRows, logicalRows, condRegRows, branchRows, loadRows, storeRows,
    reservationRows, blockRows, cacheRows, multipleRows, specialRows, systemRows, List.map_append,
    List.map_cons, List.map_nil, head, MrIss.Row.d, MrIss.Row.x, MrIss.Row.xPriv]

/-- Each function, with the arguments of a word, is the call of its row. -/
theorem forall₂_ops (c : Config) : List.Forall₂ (fun (o : Op) m =>
    ∀ w, o.body c (o.args w) = some (m.call w)) ops (table c) := by
  unfold ops table arithmeticRows logicalRows condRegRows branchRows loadRows storeRows
    reservationRows blockRows cacheRows multipleRows specialRows systemRows
  simp only [List.cons_append, List.nil_append]
  repeat' apply List.Forall₂.cons
  all_goals first | exact List.Forall₂.nil | (intro w; rfl)

/-- The kept lines. -/
def lines : List Row := ppcRows.filter (·.Kept)

theorem lines_check : List.Forall₂ (fun r i =>
    ∃ x ∈ (ops.zip ((table (.quiet .default)).map head))[i]?, Fits r x.1 x.2) lines places := by
  decide +kernel

theorem places_nodup : places.Nodup := by decide +kernel

theorem places_cover : ∀ i < ops.length, i ∈ places := by decide +kernel

/-! ## Lists in step -/

section

variable {α β : Type} {R : α → β → Prop} {l : List α} {l' : List β}

/-- Of two lists in step, every item of the one has its like in the other. -/
theorem exists_of_forall₂ (h : List.Forall₂ R l l') {a : α} (ha : a ∈ l) : ∃ b ∈ l', R a b := by
  induction h with
  | nil => cases ha
  | cons hab _ ih =>
    rcases List.mem_cons.mp ha with rfl | ha
    · exact ⟨_, List.mem_cons_self, hab⟩
    · obtain ⟨b, hb, hr⟩ := ih ha
      exact ⟨b, List.mem_cons_of_mem _ hb, hr⟩

/-- What holds between any two items of the one list holds between their
likes. -/
theorem pairwise_of_forall₂ {S : β → β → Prop} {T : α → α → Prop} (h : List.Forall₂ R l l')
    (hs : l'.Pairwise S) (ht : ∀ a a' b b', R a b → R a' b' → S b b' → T a a') :
    l.Pairwise T := by
  induction h with
  | nil => exact List.Pairwise.nil
  | cons hab hrest ih =>
    rw [List.pairwise_cons] at hs ⊢
    refine ⟨fun a' ha' => ?_, ih hs.2⟩
    obtain ⟨b', hb', hr⟩ := exists_of_forall₂ hrest ha'
    exact ht _ _ _ _ hab hr (hs.1 b' hb')

/-- Two lists in step, at one place. -/
theorem forall₂_getElem? (h : List.Forall₂ R l l') {i : ℕ} {a : α} {b : β} (ha : l[i]? = some a)
    (hb : l'[i]? = some b) : R a b := by
  induction h generalizing i with
  | nil => cases ha
  | cons hab _ ih =>
    cases i with
    | zero =>
      cases ha
      cases hb
      exact hab
    | succ i => exact ih ha hb

end

/-! ## Where a line stands -/

/-- A line, the place of its function and of its row, and what they come
to. -/
structure Stands (c : Config) (r : Row) (i : ℕ) (o : Op) (m : MrIss.Row) : Prop where
  op : ops[i]? = some o
  row : (table c)[i]? = some m
  fits : Fits r o (head m)
  call : ∀ w, o.body c (o.args w) = some (m.call w)

theorem forall₂_lines (c : Config) :
    List.Forall₂ (fun r i => ∃ o m, Stands c r i o m) lines places := by
  refine lines_check.imp fun r i ⟨⟨o, k⟩, hx, hfits⟩ => ?_
  obtain ⟨ho, hk⟩ := List.getElem?_zip_eq_some.mp (Option.mem_def.mp hx)
  rw [heads_eq _ c, List.getElem?_map, Option.map_eq_some_iff] at hk
  obtain ⟨m, hm, rfl⟩ := hk
  exact ⟨o, m, ho, hm, hfits, forall₂_getElem? (forall₂_ops c) ho hm⟩

theorem mem_lines {r : Row} : r ∈ lines ↔ r ∈ ppcRows ∧ r.Kept := by
  simp [lines]

/-- Every kept line has a function and a row. -/
theorem exists_row (c : Config) {r : Row} (hr : r ∈ ppcRows) (hk : r.Kept) :
    ∃ i o m, Stands c r i o m := by
  obtain ⟨i, -, o, m, h⟩ := exists_of_forall₂ (forall₂_lines c) (mem_lines.mpr ⟨hr, hk⟩)
  exact ⟨i, o, m, h⟩

/-- Every row has a line. -/
theorem exists_line (c : Config) {m : MrIss.Row} (hm : m ∈ table c) :
    ∃ r ∈ ppcRows, ∃ i o, Stands c r i o m := by
  obtain ⟨i, hi, rfl⟩ := List.mem_iff_getElem.mp hm
  have hplace : i ∈ places := places_cover i ((forall₂_ops c).length_eq ▸ hi)
  obtain ⟨r, hr, o, m, h⟩ := exists_of_forall₂ (forall₂_lines c).flip hplace
  refine ⟨r, (mem_lines.mp hr).1, i, o, ?_⟩
  have hsame : (table c)[i]? = some (table c)[i] := List.getElem?_eq_getElem hi
  obtain rfl := Option.some.inj (h.row.symm.trans hsame)
  exact h

variable {c : Config} {r r' : Row} {i j : ℕ} {o o' : Op} {m m' : MrIss.Row} {w : BitVec 32}

/-- The accessor of a line's extended opcode is that of its row. -/
theorem Stands.xopc_eq (h : Stands c r i o m) :
    Accessors.instructionFields.xopc r.form = m.form.xopc := by
  rw [h.fits.rowForm]
  change Accessors.instructionFields.xopc m.form.text = _
  cases m.form <;> rfl

/-- **A line matches the words that its row takes.** -/
theorem Stands.matches_iff (h : Stands c r i o m) :
    r.Matches .instructionFields w ↔ m.accepts w = true := by
  have hxo : r.form = "XO" ↔ m.form = .XO := by
    rw [h.fits.rowForm]
    change m.form.text = "XO" ↔ _
    cases m.form <;> decide
  have hoe := h.fits.oe
  rw [Row.Matches, h.fits.primary, h.fits.number, h.xopc_eq, MrIss.Row.accepts, MrIss.Row.xos]
  change _ ∧ some (m.opcode : ℤ) = _ ∧ (∀ x, Option.map Nat.cast m.xo = some x → _) ↔ _
  rw [Bool.and_eq_true, beq_iff_eq, Option.some_inj, Nat.cast_inj]
  refine and_iff_right_of_imp (fun _ => h.fits.kept) |>.trans (and_congr eq_comm ?_)
  cases hx : m.xo with
  | none => simp
  | some x =>
    have hor : Row.withOe (x : ℤ) = ((x ||| 0x200 : ℕ) : ℤ) := rfl
    simp only [Option.map_some, Option.some.injEq, forall_eq', Row.Admits, hor, Nat.cast_inj, hxo]
    by_cases hform : m.form = .XO
    · simp [hform, hoe (hxo.mpr hform)]
    · simp [hform]

/-- A word that no row takes matches no line. -/
theorem not_matches_of_none (hrow : rowOf c w = none) :
    ∀ r ∈ ppcRows, ¬ r.Matches .instructionFields w := by
  intro r hr hm
  obtain ⟨i, o, m, h⟩ := exists_row c hr hm.1
  exact List.find?_eq_none.mp hrow m (List.mem_of_getElem? h.row) (h.matches_iff.mp hm)

/-- A word that a row takes has a line. -/
theorem exists_line_of_rowOf {m : MrIss.Row} (hrow : rowOf c w = some m) :
    ∃ r ∈ ppcRows, ∃ i o, Stands c r i o m ∧ m.accepts w = true := by
  obtain ⟨r, hr, i, o, h⟩ := exists_line c (List.mem_of_find?_eq_some hrow)
  rw [rowOf] at hrow
  exact ⟨r, hr, i, o, h, List.find?_some (p := fun q : MrIss.Row => q.accepts w) hrow⟩

/-! ## The table is one that is meant -/

/-- Rows that stand apart take no word both. -/
theorem keys_apart (hm : (table c)[i]? = some m) (hm' : (table c)[j]? = some m') (hne : i ≠ j) :
    ∀ k ∈ m.keys, ∀ k' ∈ m'.keys, k.Apart k' := by
  obtain ⟨hi, rfl⟩ := List.getElem?_eq_some_iff.mp hm
  obtain ⟨hj, rfl⟩ := List.getElem?_eq_some_iff.mp hm'
  have hapart := List.pairwise_iff_getElem.mp (table_apart c)
  intro k hk k' hk'
  rcases Nat.lt_or_gt_of_ne hne with hlt | hlt
  · exact hapart i j hi hj hlt k hk k' hk'
  · rcases hapart j i hj hi hlt k' hk' k hk with h | ⟨h₁, h₂, h₃, h₄⟩
    · exact .inl h.symm
    · exact .inr ⟨h₁.symm, h₃, h₂, h₄.symm⟩

/-- A row has a key, by which its extended opcode is known. -/
theorem exists_key (m : MrIss.Row) : ∃ k ∈ m.keys, k.opcode = m.opcode ∧
    k.sc = (m.form == .SC) ∧ (k.xo.isSome → m.xo ≠ none) := by
  unfold MrIss.Row.keys MrIss.Row.xos
  cases m.xo with
  | none => exact ⟨_, List.mem_singleton_self _, rfl, rfl, fun h => absurd h (by simp)⟩
  | some x =>
    rw [Option.map_some]
    by_cases h : m.form = .XO
    · rw [if_pos h]
      exact ⟨_, List.mem_cons_self, rfl, rfl, fun _ => by simp⟩
    · rw [if_neg h]
      exact ⟨_, List.mem_cons_self, rfl, rfl, fun _ => by simp⟩

/-- Lines at different places, of one primary opcode, are numbered, and no
word matches both. -/
theorem apart_of_stands (h : Stands c r i o m) (h' : Stands c r' j o' m') (hne : i ≠ j) :
    (r.primary = r'.primary → r.number ≠ none ∧ r'.number ≠ none ∧
      Accessors.instructionFields.xopc r.form = Accessors.instructionFields.xopc r'.form) ∧
    ∀ w, ¬ (r.Matches .instructionFields w ∧ r'.Matches .instructionFields w) := by
  have hapart := keys_apart h.row h'.row hne
  constructor
  · intro hprimary
    obtain ⟨k, hk, hop, hsc, hxo⟩ := exists_key m
    obtain ⟨k', hk', hop', hsc', hxo'⟩ := exists_key m'
    rw [h.fits.primary, h'.fits.primary, Option.some_inj, Nat.cast_inj] at hprimary
    rcases hapart k hk k' hk' with hdiff | ⟨hs, hx, hx', -⟩
    · exact absurd (hop.trans (hprimary.trans hop'.symm)) hdiff
    · rw [h.fits.number, h'.fits.number, h.xopc_eq, h'.xopc_eq]
      refine ⟨fun hn => hxo hx (Option.map_eq_none_iff.mp hn),
        fun hn => hxo' hx' (Option.map_eq_none_iff.mp hn), funext fun w => ?_⟩
      exact MrIss.Row.xopc_eq (by rw [← hsc, ← hsc', hs])
  · rintro w ⟨hm, hm'⟩
    have hnot := MrIss.Row.not_accepts_of_apart hapart (h.matches_iff.mp hm)
    rw [h'.matches_iff.mp hm'] at hnot
    cases hnot

theorem lines_apart : lines.Pairwise fun r r' =>
    (r.primary = r'.primary → r.number ≠ none ∧ r'.number ≠ none ∧
      Accessors.instructionFields.xopc r.form = Accessors.instructionFields.xopc r'.form) ∧
    ∀ w, ¬ (r.Matches .instructionFields w ∧ r'.Matches .instructionFields w) := by
  have hplaces : places.Pairwise (· ≠ ·) := places_nodup
  refine pairwise_of_forall₂ (forall₂_lines (.quiet .default)) hplaces ?_
  rintro r r' i j ⟨o, m, h⟩ ⟨o', m', h'⟩ hne
  exact apart_of_stands h h' hne

theorem table_ppcRows : Table .instructionFields ppcRows := by
  have h := List.pairwise_filter.mp lines_apart
  simp only [decide_eq_true_eq] at h
  exact ⟨h.imp fun hr hk hk' hp => (hr hk hk').1 hp,
    h.imp fun hr w hm => (hr hm.1.1 hm.2.1).2 w hm⟩

/-- The numbers of XO-form lines leave the OE bit clear. -/
theorem xo_lines : ∀ r ∈ lines, r.form = "XO" →
    r.primary = some 31 ∧ ∀ x ∈ r.number, Row.withOe x ≠ x := by decide +kernel

theorem two_le_group : 2 ≤ (group ppcRows 31).length := by decide +kernel

theorem oePlain_ppcRows : OePlain .instructionFields ppcRows := by
  intro r hr hkept hxo f x hprimary hx _
  obtain ⟨i, o, m, h⟩ := exists_row (.quiet .default) hr hkept
  obtain ⟨h31, hclear⟩ := xo_lines r (mem_lines.mpr ⟨hr, hkept⟩) hxo
  obtain rfl := Option.some.inj (h31.symm.trans hprimary)
  rw [if_pos two_le_group]
  exact ⟨h.fits.oe hxo, hclear x hx⟩

/-- **Every word is dispatched to its line.** -/
theorem dispatched_of_oePlain {acc : Accessors} {rows : List Row}
    {p : Program Call × Program GenCall} (hp : generate rows = .ok p) (ht : Table acc rows)
    (hplain : OePlain acc rows) (w : BitVec 32) : Dispatched acc rows p w := by
  obtain ⟨ops, arms, hops, harms, rfl⟩ := generate_ok hp
  refine dispatched_of_selects ?_
  rcases run_eq ht hops harms rfl with ⟨hnil, hpast⟩ | ⟨body, hbody, hrun⟩
  · rw [hpast]
    refine ⟨fun r hr hm => ?_, fun _ => rfl⟩
    have hg := mem_group_of_matches hr hm
    rw [hnil] at hg
    cases hg
  rw [hrun]
  by_cases hlen : 2 ≤ (group rows ((getOpcode w).toNat : ℤ)).length
  · exact selects_several ht hplain rfl hlen hbody
  · obtain ⟨r, hg⟩ : ∃ r, group rows ((getOpcode w).toNat : ℤ) = [r] := by
      rw [← List.length_eq_one_iff]
      have hpos : group rows ((getOpcode w).toNat : ℤ) ≠ [] := by
        intro hnil
        rw [hnil] at hbody
        exact genMajor_nil hbody
      have := List.length_pos_of_ne_nil hpos
      omega
    exact selects_alone hplain rfl hg hbody

/-! ## Arguments -/

/-- A number of a word's bits is those bits. -/
theorem ofInt_toNat (x : Reg) : BitVec.ofInt 32 (x.toNat : ℤ) = x := by
  rw [BitVec.ofInt_natCast, BitVec.ofNat_toNat, BitVec.setWidth_eq]

/-- A register that was written for an argument holds the argument. -/
theorem taken_plant (t : String) (v : ℤ) : taken t (plant t v) = convert t v := by
  unfold taken plant convert
  split <;> simp

/-- A field as an argument of 32 bits. -/
theorem ofInt_field (f : Option Field) (w : BitVec 32) :
    BitVec.ofInt 32 (f.elim 0 (·.val w)) = f.elim 0 (·.reg w) := by
  rcases f with - | f | f
  · rfl
  · exact ofInt_toNat _
  · exact BitVec.ofInt_toInt

/-- The values of signed 16-bit fields fit. -/
theorem convert_fieldS16 (w : BitVec 32) :
    (BitVec.ofInt 16 (fieldS16 w).toInt).signExtend 32 = fieldS16 w := by
  have hlo := (w.setWidth 16).le_two_mul_toInt
  have hhi := (w.setWidth 16).two_mul_toInt_lt
  rw [fieldS16, BitVec.toInt_signExtend_of_le (by decide), BitVec.ofInt_toInt]

/-- A field is below what its mask is below. -/
theorem field_lt_of_mask (sh n : ℕ) {mask : BitVec 32} (h : mask.toNat < 2 ^ n) (w : BitVec 32) :
    (field sh mask w).toNat < 2 ^ n := by
  rw [field, BitVec.toNat_and]
  exact Nat.lt_of_le_of_lt Nat.and_le_right h

/-- The values of narrow unsigned fields fit. -/
theorem convert_narrow {n : ℕ} {x : Reg} (hx : x.toNat < 2 ^ n) :
    (BitVec.ofInt n (x.toNat : ℤ)).setWidth 32 = x := by
  have hlt : x.toNat < 2 ^ 32 := x.isLt
  apply BitVec.eq_of_toNat_eq
  rw [BitVec.ofInt_natCast, BitVec.toNat_setWidth, BitVec.toNat_ofNat, Nat.mod_eq_of_lt hx,
    Nat.mod_eq_of_lt hlt]

/-- **A field, converted, is its own bits**: no type of a parameter loses
any. -/
theorem convert_field (form i : String) (w : BitVec 32) :
    convert (paramType i) (Accessors.instructionFields.field form i w) =
      ((fieldsOf form).lookup i).elim 0 (·.reg w) := by
  change convert _ (((fieldsOf form).lookup i).elim 0 (·.val w)) = _
  have hsigned (i : String) (hi : (fieldsOf form).lookup i = none ∨
      ∃ f, (fieldsOf form).lookup i = some (.s32 f) ∧ f = fieldS16) :
      convert "s16" (((fieldsOf form).lookup i).elim 0 (·.val w)) =
        ((fieldsOf form).lookup i).elim 0 (·.reg w) := by
    rcases hi with h | ⟨f, h, rfl⟩
    · rw [h]
      rfl
    · rw [h]
      exact convert_fieldS16 w
  unfold paramType
  split
  · refine hsigned _ ?_
    unfold fieldsOf
    split <;> first | exact .inl rfl | exact .inr ⟨_, rfl, rfl⟩
  · refine hsigned _ ?_
    unfold fieldsOf
    split <;> first | exact .inl rfl | exact .inr ⟨_, rfl, rfl⟩
  · have hi : (fieldsOf form).lookup "UI" = none ∨
        (fieldsOf form).lookup "UI" = some (.u32 dUI) := by
      unfold fieldsOf
      split <;> first | exact .inl rfl | exact .inr rfl
    rcases hi with h | h
    · rw [h]
      rfl
    · rw [h]
      exact convert_narrow (field_lt_of_mask 0 16 (by decide) w)
  · exact ofInt_field _ w
  · have hi : (fieldsOf form).lookup "LEV" = none ∨
        (fieldsOf form).lookup "LEV" = some (.u32 scLEV) := by
      unfold fieldsOf
      split <;> first | exact .inl rfl | exact .inr rfl
    rcases hi with h | h
    · rw [h]
      rfl
    · rw [h]
      exact convert_narrow (field_lt_of_mask 5 8 (by decide) w)
  · exact ofInt_field _ w

/-! ## The functions, called -/

theorem names_nodup : (ops.map (·.name)).Nodup := by decide +kernel

/-- A function is found by its name. -/
theorem find?_name (ho : o ∈ ops) : ops.find? (·.name == o.name) = some o := by
  refine find?_of_pairwise ((List.pairwise_map.mp names_nodup).imp fun {a b} hne h => ?_) ho
    (beq_self_eq_true _)
  rw [beq_eq_false_iff_ne]
  rw [beq_iff_eq] at h
  exact fun h' => hne (h.trans h'.symm)

/-- There is a routine that plants each call. -/
theorem types_mem : ∀ o ∈ ops, o.params.map paramType ∈ generators := by decide +kernel

/-- The values that a line names are those of its function's parameters. -/
theorem Stands.values_eq (h : Stands c r i o m) (w : BitVec 32) :
    ((genPrototype r).params.map fun p => Accessors.instructionFields.field r.form p.2 w) =
      o.params.map fun i => Accessors.instructionFields.field o.form i w := by
  rw [genPrototype, List.map_map, h.fits.params, h.fits.form]
  rfl

/-- **The interpreter's call of a line** is that of its row. -/
theorem Stands.invoke_eq (h : Stands c r i o m) (w : BitVec 32) :
    invoke c (.op (r.invocation .instructionFields w)) = some (m.call w) := by
  have hargs : (r.invocation .instructionFields w).args = _ := h.values_eq w
  have hname : (r.invocation .instructionFields w).op = o.name := h.fits.name
  rw [invoke, hname, find?_name (List.mem_of_getElem? h.op), Option.bind_some, Op.call, hargs,
    List.zipWith_map_right, List.zipWith_self, ← h.call w, Op.args]
  exact congrArg _ (List.map_congr_left fun i _ => convert_field o.form i w)

/-- A line's call is planted with the types of its function's parameters. -/
theorem Stands.types_eq (h : Stands c r i o m) (w : BitVec 32) :
    (r.planted .instructionFields w).types = o.params.map paramType := by
  rw [Row.planted, genPrototype, List.map_map, h.fits.params]
  rfl

/-- The function of a line, entered with the registers of its call. -/
theorem Stands.entered_eq (h : Stands c r i o m) (w : BitVec 32) :
    o.entered c (o.params.map fun i =>
      plant (paramType i) (Accessors.instructionFields.field o.form i w)) = some (m.call w) := by
  rw [Op.entered, List.zipWith_map_right, List.zipWith_self, ← h.call w, Op.args]
  refine congrArg _ (List.map_congr_left fun i _ => ?_)
  rw [taken_plant, convert_field]

/-- **The call that is planted for a line**, made, is that of its row. -/
theorem Stands.runPlanted_eq (h : Stands c r i o m) (w : BitVec 32) :
    runPlanted c (.op (r.planted .instructionFields w)) = some (m.call w) := by
  have hmem : o ∈ ops := List.mem_of_getElem? h.op
  have hargs : (r.planted .instructionFields w).args = _ := h.values_eq w
  have hname : (r.planted .instructionFields w).op = o.name := h.fits.name
  rw [runPlanted, hname, find?_name hmem, Option.bind_some, Planted.regs, h.types_eq,
    if_pos (types_mem o hmem), Option.bind_some, hargs, List.zipWith_map, List.zipWith_self]
  exact h.entered_eq w

/-! ## The switches -/

/-- The lines of `mtspr`. -/
theorem mtspr_lines : ∀ r ∈ lines,
    (r.name = "mtspr" ↔ r.primary = some 31 ∧ r.number = some 467) ∧
      (r.name = "mtspr" → r.params = ["spr", "RS"] ∧ r.form = "XFX") := by decide +kernel

theorem generate_isOk : (generate ppcRows).isOk = true := by decide +kernel

/-- **The switches that are generated from the simulator's table**, for every
word: the interpreter's comes to the call that the decoder makes; what the
block generator's plants, with the types that there are routines for, makes
the same call. -/
theorem generated_agree : ∃ p, generate ppcRows = .ok p ∧ ∀ c w,
    invoke c (decode .instructionFields p.1 w) = some (MrIss.decode c w) ∧
      runPlanted c (decodeInstrGenerateCall .instructionFields p.2 w) =
        some (MrIss.decode c w) := by
  cases hp : generate ppcRows with
  | error e =>
    have hok := generate_isOk
    rw [hp] at hok
    cases hok
  | ok p =>
    refine ⟨p, rfl, fun c w => ?_⟩
    have hd := dispatched_of_oePlain hp table_ppcRows oePlain_ppcRows w
    cases hrow : rowOf c w with
    | none =>
      obtain ⟨hfirst, hsecond⟩ := hd.2 (not_matches_of_none hrow)
      rw [hfirst, hsecond, MrIss.decode, hrow]
      exact ⟨rfl, rfl⟩
    | some m =>
      obtain ⟨r, hr, i, o, h, haccepts⟩ := exists_line_of_rowOf hrow
      obtain ⟨hfirst, hsecond⟩ := hd.1 r hr (h.matches_iff.mpr haccepts)
      rw [hfirst, hsecond, h.invoke_eq, h.runPlanted_eq, MrIss.decode, hrow]
      exact ⟨rfl, rfl⟩

end MkDecode

end MrIss
