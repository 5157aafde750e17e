import MrIss.Jit.Store
/-!
# What the loop of `createBlock` leaves

After each round the calls of all words so far stand behind the prologue,
the words come from addresses in a row, and these lie in one page. A buffer
that was empty has room for as many rounds as the loop makes.
-/

namespace MrIss

namespace Jit

open EarlyReturn ByteFile

variable {c : Config} {d : Decoder} {priv : Bool} {m : Arena.Mem} {start stop n : ℕ}
variable {pc₀ pc : VA} {inst : BitVec 32} {g : Gen}

/-! ## Words in a row -/

/-- Addresses in a row from `pc₀` on, and in its page if `pc₀` is the address
of a word. -/
structure Straight (pc₀ : VA) (insts : List (VA × BitVec 32)) : Prop where
  addrs : insts.map Prod.fst =
    (List.range insts.length).map fun i => pc₀ + BitVec.ofNat 32 (4 * i)
  page : pc₀.toNat % 4 = 0 → ∀ i ∈ insts, i.1.toNat / 4096 = pc₀.toNat / 4096

/-- `pc` is the next address after those in a row, and in their page. -/
structure Follows (pc₀ pc : VA) (insts : List (VA × BitVec 32)) : Prop where
  straight : Straight pc₀ insts
  next : pc = pc₀ + BitVec.ofNat 32 (4 * insts.length)
  page : pc₀.toNat % 4 = 0 → pc.toNat / 4096 = pc₀.toNat / 4096

theorem Follows.nil (pc₀ : VA) : Follows pc₀ pc₀ [] :=
  ⟨⟨rfl, fun _ _ hi => absurd hi (List.not_mem_nil)⟩, by simp, fun _ => rfl⟩

/-- A word more. -/
theorem Follows.straight_concat {insts : List (VA × BitVec 32)} (h : Follows pc₀ pc insts) :
    Straight pc₀ (insts ++ [(pc, inst)]) where
  addrs := by
    rw [List.map_append, h.straight.addrs, List.length_append, List.length_singleton,
      List.range_succ, List.map_append, h.next]
    rfl
  page h₀ i hi := by
    rcases List.mem_append.mp hi with hi | hi
    · exact h.straight.page h₀ i hi
    · rw [List.mem_singleton] at hi
      rw [hi]
      exact h.page h₀

/-- The address after a word is in its page, or the first of the next. -/
theorem page_succ (h : pc.toNat % 4 = 0) (hne : (pc + 4) &&& 0xfff ≠ 0) :
    (pc + 4).toNat / 4096 = pc.toNat / 4096 := by
  have hmod : (pc + 4).toNat % 4096 ≠ 0 := by
    intro hzero
    refine hne (BitVec.eq_of_toNat_eq ?_)
    rw [BitVec.toNat_and]
    exact (Nat.and_two_pow_sub_one_eq_mod _ 12).trans hzero
  have hfour : (4 : VA).toNat = 4 := rfl
  rw [BitVec.toNat_add, hfour] at hmod ⊢
  omega

/-- The addresses in a row are those of words if the first is. -/
theorem Follows.aligned {insts : List (VA × BitVec 32)} (h : Follows pc₀ pc insts)
    (h₀ : pc₀.toNat % 4 = 0) : pc.toNat % 4 = 0 := by
  rw [h.next, BitVec.toNat_add, BitVec.toNat_ofNat]
  omega

theorem Follows.concat {insts : List (VA × BitVec 32)} (h : Follows pc₀ pc insts)
    (hne : (pc + 4) &&& 0xfff ≠ 0) : Follows pc₀ (pc + 4) (insts ++ [(pc, inst)]) where
  straight := h.straight_concat
  next := by
    rw [h.next, List.length_append, List.length_singleton, Nat.mul_add, BitVec.ofNat_add,
      BitVec.add_assoc]
    rfl
  page h₀ := by rw [page_succ (h.aligned h₀) hne, h.page h₀]

/-! ## One round -/

/-- The prologue and the calls for some words stand from `start` on. -/
def Gen.Built (d : Decoder) (m : Arena.Mem) (start stop : ℕ) (g : Gen) : Prop :=
  g.cursor.Built m start stop (prologue ++ d.calls (start + 10) (g.insts.map Prod.snd))

theorem add_cursor : (g.add d pc inst).1.cursor =
    g.cursor.plant ((d.opCall inst).code g.cursor.codeptr) := rfl

@[simp] theorem add_insts : (g.add d pc inst).1.insts = g.insts ++ [(pc, inst)] := rfl

/-- The code for one word more. -/
theorem Gen.Built.code_add (h : g.Built d m start stop) :
    prologue ++ d.calls (start + 10) ((g.add d pc inst).1.insts.map Prod.snd) =
      (prologue ++ d.calls (start + 10) (g.insts.map Prod.snd)) ++
        (d.opCall inst).code g.cursor.codeptr := by
  rw [add_insts, List.map_append, List.map_singleton, Decoder.calls_concat, h.codeptr,
    List.length_append, length_prologue, List.append_assoc, Nat.add_assoc]

theorem Gen.Built.within_add (h : g.Built d m start stop) :
    Arena.Within start (stop + maxCall) m (g.add d pc inst).1.cursor.mem :=
  Cursor.Built.within_plant h (OpCall.length_code ..)

/-- A round that does not run out has added a call. -/
theorem Gen.Built.add (h : g.Built d m start stop)
    (hoom : (g.add d pc inst).1.cursor.oomAbort = false) :
    (g.add d pc inst).1.Built d m start stop := by
  have hfit := (Cursor.fit_of_plant hoom).1
  unfold Gen.Built
  rw [h.code_add]
  exact Cursor.Built.plant h (OpCall.length_code ..) hfit

/-! ## The loop -/

/-- What the loop leaves: it wrote in its range, and unless it ran out, there
are calls for words in a row. -/
structure Gen.Left (d : Decoder) (m : Arena.Mem) (start stop : ℕ) (pc₀ : VA) (g : Gen) :
    Prop where
  within : Arena.Within start (stop + maxCall) m g.cursor.mem
  built : g.cursor.oomAbort = false → g.Built d m start stop
  straight : Straight pc₀ g.insts
  ne : g.insts ≠ []

/-- What a round leaves, if it was the last. -/
theorem Gen.Built.left_add (h : g.Built d m start stop) (hf : Follows pc₀ pc g.insts) :
    (g.add d pc inst).1.Left d m start stop pc₀ :=
  ⟨h.within_add, h.add, hf.straight_concat, by simp⟩

/-- **The loop leaves calls for words in a row.** -/
theorem generate_left {m₁ m₂ : Mem} {g' : Gen} (hg : g.Built d m start stop)
    (hf : Follows pc₀ pc g.insts)
    (h : generate c d priv (n + 1) pc inst g m₁ = .ok g' m₂) :
    g'.Left d m start stop pc₀ := by
  induction n generalizing pc inst g m₁ with
  | zero =>
    have hleft : (g.add d pc inst).1.Left d m start stop pc₀ := hg.left_add hf
    simp only [generate] at h
    split_ifs at h with hoom hend
    · cases h
      exact hleft
    · cases h
      exact hleft
    · obtain ⟨res, m₃, -, hrest⟩ := Prog.bind_eq_ok h
      cases res <;> cases hrest <;> exact hleft
  | succ n ih =>
    have hleft : (g.add d pc inst).1.Left d m start stop pc₀ := hg.left_add hf
    rw [generate] at h
    simp only at h
    split_ifs at h with hoom hend
    · cases h
      exact hleft
    · cases h
      exact hleft
    · obtain ⟨res, m₃, -, hrest⟩ := Prog.bind_eq_ok h
      cases res with
      | error f =>
        cases hrest
        exact hleft
      | ok inst' =>
        rw [not_or] at hend
        exact ih (hg.add (Bool.eq_false_iff.mpr hoom)) (hf.concat hend.1) hrest

/-! ## Room -/

/-- A round takes up to the length of the longest call. -/
theorem add_of_room (hroom : maxCall ≤ g.cursor.codelen) :
    (g.add d pc inst).1.cursor.oomAbort = g.cursor.oomAbort ∧
      g.cursor.codelen ≤ (g.add d pc inst).1.cursor.codelen + maxCall := by
  have hlen := (d.opCall inst).length_code g.cursor.codeptr
  obtain ⟨hoom, hlen'⟩ := Cursor.plant_of_fit (Nat.le_trans hlen hroom)
  rw [add_cursor]
  exact ⟨hoom, by omega⟩

/-- **With room for every round, nothing runs out.** -/
theorem generate_of_room {m₁ m₂ : Mem} {g' : Gen} (hroom : n * maxCall ≤ g.cursor.codelen)
    (hoom : g.cursor.oomAbort = false) (h : generate c d priv n pc inst g m₁ = .ok g' m₂) :
    g'.cursor.oomAbort = false := by
  induction n generalizing pc inst g m₁ with
  | zero =>
    cases h
    exact hoom
  | succ n ih =>
    rw [Nat.succ_mul] at hroom
    have hadd : (g.add d pc inst).1.cursor.oomAbort = g.cursor.oomAbort ∧
      g.cursor.codelen ≤ (g.add d pc inst).1.cursor.codelen + maxCall := add_of_room (by omega)
    obtain ⟨hsame, hleft⟩ := hadd
    rw [hoom] at hsame
    rw [generate] at h
    simp only [hsame, Bool.false_eq_true, if_false] at h
    split_ifs at h with hend
    · cases h
      exact hsame
    · obtain ⟨res, m₃, -, hrest⟩ := Prog.bind_eq_ok h
      cases res with
      | error f =>
        cases hrest
        exact hsame
      | ok inst' => exact ih (by omega) hsame hrest

end Jit

end MrIss
