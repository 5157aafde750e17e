import Mathlib.Data.List.Pairwise
import MrIss.Interp.Decode
import MrIss.Mmu.Run
/-!
# No word matches two rows

A row is recognised by its opcode and its extended opcodes; the keys of the
table are pairwise apart, so that a row that takes a word is the row of the
word.
-/

namespace MrIss

open EarlyReturn

/-- What rows are recognised by: an opcode, whether the extended opcode is
the one bit of the SC form, and the extended opcode. -/
structure Key where
  opcode : ℕ
  sc : Bool
  xo : Option ℕ
  deriving DecidableEq, Repr

/-- Two keys that no word has both of. -/
def Key.Apart (k k' : Key) : Prop :=
  k.opcode ≠ k'.opcode ∨ (k.sc = k'.sc ∧ k.xo.isSome ∧ k'.xo.isSome ∧ k.xo ≠ k'.xo)

instance (k k' : Key) : Decidable (k.Apart k') :=
  inferInstanceAs (Decidable (_ ≠ _ ∨ (_ = _ ∧ _ ∧ _ ∧ _ ≠ _)))

namespace Row

/-- The keys of a row. -/
def keys (r : Row) : List Key :=
  match r.xos with
  | none => [⟨r.opcode, r.form == .SC, none⟩]
  | some xs => xs.map fun x => ⟨r.opcode, r.form == .SC, some x⟩

variable {r r' : Row} {i : BitVec 32}

/-- A row takes a word by one of its keys. -/
theorem key_of_accepts (h : r.accepts i = true) : ∃ k ∈ r.keys, k.opcode = (getOpcode i).toNat ∧
    k.sc = (r.form == .SC) ∧ ∀ x, k.xo = some x → x = (r.form.xopc i).toNat := by
  rw [accepts, Bool.and_eq_true, beq_iff_eq] at h
  obtain ⟨hop, hxo⟩ := h
  unfold keys
  cases hxs : r.xos with
  | none => exact ⟨_, List.mem_singleton.mpr rfl, hop.symm, rfl, nofun⟩
  | some xs =>
    rw [hxs] at hxo
    exact ⟨_, List.mem_map.mpr ⟨_, List.contains_iff_mem.mp hxo, rfl⟩, hop.symm, rfl,
      fun x hx => (Option.some.inj hx).symm⟩

/-- Rows of one kind read the extended opcode in one place. -/
theorem xopc_eq (h : (r.form == .SC) = (r'.form == .SC)) : r.form.xopc i = r'.form.xopc i := by
  revert h
  cases r.form <;> cases r'.form <;> first | exact fun _ => rfl | exact fun h => absurd h (by decide)

/-- Rows whose keys are apart take no word both. -/
theorem not_accepts_of_apart (h : ∀ k ∈ r.keys, ∀ k' ∈ r'.keys, k.Apart k')
    (hr : r.accepts i = true) : r'.accepts i = false := by
  by_contra hr'
  rw [Bool.not_eq_false] at hr'
  obtain ⟨k, hk, hop, hsc, hxo⟩ := key_of_accepts hr
  obtain ⟨k', hk', hop', hsc', hxo'⟩ := key_of_accepts hr'
  rcases h k hk k' hk' with hne | ⟨hs, hx, hx', hne⟩
  · exact hne (hop.trans hop'.symm)
  · obtain ⟨x, hx⟩ := Option.isSome_iff_exists.mp hx
    obtain ⟨x', hx'⟩ := Option.isSome_iff_exists.mp hx'
    have hform : r.form.xopc i = r'.form.xopc i := xopc_eq (by rw [← hsc, ← hsc', hs])
    refine hne ?_
    rw [hx, hx', hxo x hx, hxo' x' hx', hform]

end Row

@[simp] theorem Row.keys_d (opcode : ℕ) (call : BitVec 32 → InterpM Unit) :
    (Row.d opcode call).keys = [⟨opcode, false, none⟩] := rfl

@[simp] theorem Row.keys_x (xo : ℕ) (call : BitVec 32 → InterpM Unit) :
    (Row.x xo call).keys = [⟨31, false, some xo⟩] := rfl

@[simp] theorem Row.keys_xPriv (xo : ℕ) (priv : Priv) (call : BitVec 32 → InterpM Unit) :
    (Row.xPriv xo priv call).keys = [⟨31, false, some xo⟩] := rfl

/-- The keys do not depend on what the simulator is set up with. -/
theorem table_keys (c : Config) : (table c).flatMap Row.keys =
    (table (.quiet .default)).flatMap Row.keys := by
  simp only [table, loadRows, storeRows, reservationRows, blockRows, cacheRows, multipleRows,
    List.flatMap_append, List.flatMap_cons, List.flatMap_nil, Row.keys_d, Row.keys_x,
    Row.keys_xPriv]

/-- **The keys are apart.** -/
theorem table_apart (c : Config) : (table c).Pairwise fun r r' =>
    ∀ k ∈ r.keys, ∀ k' ∈ r'.keys, k.Apart k' := by
  have h : ((table (.quiet .default)).flatMap Row.keys).Pairwise Key.Apart := by decide +kernel
  rw [← table_keys c] at h
  exact (List.pairwise_flatMap.mp h).2

/-- A search finds the item that is taken, where no other is. -/
theorem find?_of_pairwise {α : Type} {p : α → Bool} {l : List α} {a : α}
    (hl : l.Pairwise fun x y => p x = true → p y = false) (ha : a ∈ l) (hp : p a = true) :
    l.find? p = some a := by
  induction l with
  | nil => cases ha
  | cons x l ih =>
    rw [List.pairwise_cons] at hl
    rcases List.mem_cons.mp ha with rfl | ha
    · exact List.find?_cons_of_pos hp
    · have hx : ¬ p x = true := fun hx => by
        rw [hl.1 a ha hx] at hp
        cases hp
      rw [List.find?_cons_of_neg hx]
      exact ih hl.2 ha

/-- **A row that takes a word is the row of the word.** -/
theorem rowOf_of_mem {c : Config} {r : Row} {i : BitVec 32} (hr : r ∈ table c)
    (h : r.accepts i = true) : rowOf c i = some r :=
  find?_of_pairwise ((table_apart c).imp fun hk => Row.not_accepts_of_apart hk) hr h

theorem decode_of_mem {c : Config} {r : Row} {i : BitVec 32} (hr : r ∈ table c)
    (h : r.accepts i = true) : decode c i = r.call i := by
  rw [decode, rowOf_of_mem hr h]
  rfl

/-! ## Three instructions that frames treat apart -/

/-- A word of `mcrxr`. -/
def isMcrxr (i : BitVec 32) : Bool := (getOpcode i).toNat == 31 && (xXOPC i).toNat == 512

/-- A word of `stwcx.`. -/
def isStwcx (i : BitVec 32) : Bool := (getOpcode i).toNat == 31 && (xXOPC i).toNat == 150

/-- A word of `mtspr`. -/
def isMtspr (i : BitVec 32) : Bool := (getOpcode i).toNat == 31 && (xXOPC i).toNat == 467

/-- The extended opcodes of `mcrxr` and `mtspr` are in no other row. -/
theorem table_xo (c : Config) : ∀ r ∈ table c, r.xo = some 512 ∨ r.xo = some 467 →
    r.opcode = 31 ∧ r.form ≠ .SC ∧ r.form ≠ .XO := by
  have hall : ((table c).all fun r => (r.xo != some 512 && r.xo != some 467) ||
      (r.opcode == 31 && r.form != .SC && r.form != .XO)) = true := rfl
  intro r hr hxo
  have := List.all_eq_true.mp hall r hr
  rcases hxo with h | h <;> simpa [h, and_assoc] using this

/-- What a row with one of them accepts. -/
theorem accepts_xo {c : Config} {r : Row} {i : BitVec 32} {n : ℕ} (hr : r ∈ table c)
    (hi : r.accepts i = true) (hn : n = 512 ∨ n = 467) (hxo : r.xo = some n) :
    (getOpcode i).toNat = 31 ∧ (xXOPC i).toNat = n := by
  have hmark : r.xo = some 512 ∨ r.xo = some 467 := by
    rcases hn with rfl | rfl
    · exact .inl hxo
    · exact .inr hxo
  obtain ⟨hop, hsc, hform⟩ := table_xo c r hr hmark
  have hxopc : ∀ f : Form, f ≠ .SC → f.xopc i = xXOPC i := by
    intro f hf
    cases f <;> first | rfl | contradiction
  simpa [Row.accepts, Row.xos, hxo, hform, hop, hxopc r.form hsc] using hi

theorem isMcrxr_of_accepts {c : Config} {r : Row} {i : BitVec 32} (hr : r ∈ table c)
    (hi : r.accepts i = true) (hxo : r.xo = some 512) : isMcrxr i = true := by
  obtain ⟨hop, hn⟩ := accepts_xo hr hi (.inl rfl) hxo
  simp [isMcrxr, hop, hn]

theorem isMtspr_of_accepts {c : Config} {r : Row} {i : BitVec 32} (hr : r ∈ table c)
    (hi : r.accepts i = true) (hxo : r.xo = some 467) : isMtspr i = true := by
  obtain ⟨hop, hn⟩ := accepts_xo hr hi (.inr rfl) hxo
  simp [isMtspr, hop, hn]

/-- The row of `mtspr`. -/
def mtsprRow : Row := .xfx 467 mtsprPriv fun i => opMtspr (xfxSpr i) (xfxRS i)

theorem rowOf_mtspr (c : Config) {i : BitVec 32} (h : isMtspr i = true) :
    rowOf c i = some mtsprRow := by
  have hrow : mtsprRow ∈ table c := by simp [table, systemRows, mtsprRow]
  rw [isMtspr, Bool.and_eq_true, beq_iff_eq, beq_iff_eq] at h
  refine rowOf_of_mem hrow ?_
  simp [Row.accepts, Row.xos, mtsprRow, Row.xfx, Form.xopc, h]

theorem decode_mtspr (c : Config) {i : BitVec 32} (h : isMtspr i = true) :
    decode c i = opMtspr (xfxSpr i) (xfxRS i) := by
  rw [decode, rowOf_mtspr c h]
  rfl

theorem decode_mcrxr (c : Config) {i : BitVec 32} (h : isMcrxr i = true) :
    decode c i = opMcrxr (xBF i) := by
  have hrow : Row.x 512 (fun i => opMcrxr (xBF i)) ∈ table c := by
    simp [table, condRegRows]
  rw [isMcrxr, Bool.and_eq_true, beq_iff_eq, beq_iff_eq] at h
  refine decode_of_mem hrow ?_
  simp [Row.accepts, Row.xos, Row.x, Form.xopc, h]

theorem decode_stwcx (c : Config) {i : BitVec 32} (h : isStwcx i = true) :
    decode c i = opStwcx c (xRS i) (xRA0 i) (xRB i) := by
  have hrow : Row.x 150 (fun i => opStwcx c (xRS i) (xRA0 i) (xRB i)) ∈ table c := by
    simp [table, reservationRows]
  rw [isStwcx, Bool.and_eq_true, beq_iff_eq, beq_iff_eq] at h
  refine decode_of_mem hrow ?_
  simp [Row.accepts, Row.xos, Row.x, Form.xopc, h]

/-- Of the two reservation rows, the one that accepts another word is
`lwarx`. -/
theorem reservation_row {c : Config} {r : Row} {i : BitVec 32} (hr : r ∈ reservationRows c)
    (hi : r.accepts i = true) (h : isStwcx i = false) :
    r.call i = opLwarx c (xRA0 i) (xRB i) (xEH i) (xRT i) := by
  simp only [reservationRows, List.mem_cons, List.not_mem_nil, or_false] at hr
  rcases hr with rfl | rfl
  · rfl
  · have hword : isStwcx i = true := by
      simpa [isStwcx, Row.accepts, Row.xos, Row.x, Form.xopc] using hi
    rw [h] at hword
    cases hword

end MrIss
