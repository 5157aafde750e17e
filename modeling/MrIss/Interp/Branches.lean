import MrIss.Interp.Condition
/-!
# What branches leave

A branch has a target and, but for `b`, a condition that BO names: a bit of
CR, and CTR counted down. `BranchOp.decoded_branch` is what a word of one
does at an address that is a multiple of 4.
-/

namespace MrIss

open EarlyReturn

/-- The four branches. -/
inductive BranchOp where
  | b
  | bc
  | bclr
  | bcctr
  deriving DecidableEq, Repr

/-- A bit of BO, counted from the most significant. -/
def boBit (i : BitVec 32) (k : ℕ) : Bool := (bBO i).getLsbD (4 - k)

namespace BranchOp

/-- The opcode, and the extended opcode. -/
def opcode : BranchOp → ℕ × Option ℕ
  | b => (18, none)
  | bc => (16, none)
  | bclr => (19, some 16)
  | bcctr => (19, some 528)

/-- Whether a word is one of the instruction's. -/
def encodes (o : BranchOp) (i : BitVec 32) : Bool :=
  (getOpcode i).toNat == o.opcode.1 && o.opcode.2.all fun x => (xXOPC i).toNat == x

/-- Whether CTR is counted down. -/
def counts (o : BranchOp) (i : BitVec 32) : Bool := (o == bc || o == bclr) && !boBit i 2

/-- Whether the branch is taken. -/
def taken (o : BranchOp) (i : BitVec 32) (s : Machine) : Bool :=
  o == b || ((boBit i 0 || s.crBit (bBI i).toNat == boBit i 1) &&
    (boBit i 2 || decide (s.cpu.user.ctr - 1 = 0) == boBit i 3))

/-- The displacement: 26 bits or 16, the low two of them zero. -/
def displacement (o : BranchOp) (i : BitVec 32) : VA :=
  if o = b then ((iLI i).setWidth 26).signExtend 32 else ((bBD i).setWidth 16).signExtend 32

/-- Where a branch that is taken goes. -/
def target (o : BranchOp) (i : BitVec 32) (s : Machine) : VA :=
  match o with
  | b | bc => if iAA i = 0 then s.cpu.user.pc + o.displacement i else o.displacement i
  | bclr => s.cpu.user.lr &&& ~~~3
  | bcctr => s.cpu.user.ctr &&& ~~~3

/-- The form that decrements CTR and goes where CTR says. -/
def invalid (o : BranchOp) (i : BitVec 32) : Bool := o == bcctr && !boBit i 2

/-- **What a branch leaves.** PC, LR and CTR, and a request to stop where `b`
goes to itself. Nothing else changes. -/
structure Leaves (o : BranchOp) (i : BitVec 32) (s t : Machine) : Prop where
  pc : t.cpu.user.pc = if o.taken i s then o.target i s else s.cpu.user.pc + 4
  lr : t.cpu.user.lr = if iLK i = 0 then s.cpu.user.lr else s.cpu.user.pc + 4
  ctr : t.cpu.user.ctr = if o.counts i then s.cpu.user.ctr - 1 else s.cpu.user.ctr
  rest : t =
    { s.setUser { s.cpu.user with
        pc := t.cpu.user.pc, lr := t.cpu.user.lr, ctr := t.cpu.user.ctr } with
      interp := { s.interp with
        wantBreak := s.interp.wantBreak || (o == b && o.target i s == s.cpu.user.pc) } }

/-- The exception of the form that is not valid: an illegal instruction. -/
def refused (s : Machine) : Machine := s.enter .prog ((s.cpu.os.msr &&& 0x8000ffff) ||| 0x80000)

/-! ### Their words -/

/-- The row of the table. -/
def row : BranchOp → Row
  | b => ⟨.I, 18, none, .user, [], fun i => opB (iLI i) (iAA i) (iLK i)⟩
  | bc => ⟨.B, 16, none, .user, [], fun i => opBc (bBO i) (bBI i) (bBD i) (bAA i) (bLK i)⟩
  | bclr => .xl 16 fun i => opBclr (xlBO i) (xlBI i) (xlBH i) (xlLK i)
  | bcctr => .xl 528 fun i => opBcctr (xlBO i) (xlBI i) (xlBH i) (xlLK i)

theorem row_mem (o : BranchOp) (c : Config) : o.row ∈ table c := by
  have h : o.row ∈ branchRows := by cases o <;> simp [row, branchRows]
  simp only [table, List.append_assoc]
  exact List.mem_append_right _ (List.mem_append_right _ (List.mem_append_right _
    (List.mem_append_left _ h)))

/-- A word of the instruction is decoded as the instruction. -/
theorem decode_eq (c : Config) {o : BranchOp} {i : BitVec 32} (h : o.encodes i = true) :
    decode c i = o.row.call i := by
  refine decode_of_mem (o.row_mem c) ?_
  rw [encodes, Bool.and_eq_true, beq_iff_eq] at h
  obtain ⟨hop, hxo⟩ := h
  have hxl : xlXOPC i = xXOPC i := rfl
  cases o with
  | b | bc => simp [Row.accepts, Row.xos, row, hop, opcode]
  | bclr | bcctr =>
    simpa [Row.accepts, Row.xos, row, Row.xl, Form.xopc, hop, hxl, opcode] using hxo

/-! ### Conditions -/

section

variable (i : BitVec 32) (s : Machine)

theorem getCRb_apply : getCRb (bBI i) s = .ok (s.crBit (bBI i).toNat) s := by
  have hbi : (bBI i).toNat < 32 := BitVec.lt_def.mp (field_lt 16 i)
  have hbit : (rbit s.cpu.user.cr (bBI i) != 0) = s.crBit (bBI i).toNat := by
    rw [Machine.crBit, ← getLsbD_rbit _ hbi]
    have hone : rbit s.cpu.user.cr (bBI i) =
        (s.cpu.user.cr >>> (31 - bBI i)) &&& BitVec.twoPow 32 0 := rfl
    have hlow : (BitVec.twoPow 32 0).getLsbD 0 = true := by decide
    rw [hone, BitVec.getLsbD_and, hlow, Bool.and_true]
    exact Word.and_twoPow_bne _ (by decide)
  exact congrArg (Out.ok · s) hbit

theorem and_bo (k : ℕ) (hk : k < 32) (x : Reg) : (x &&& BitVec.twoPow 32 k != 0) = x.getLsbD k :=
  Word.and_twoPow_bne x hk

theorem branchCond_eq (crBit : Bool) :
    branchCond (bBO i) crBit = (boBit i 0 || crBit == boBit i 1) := by
  rw [boBit, boBit, ← and_bo 4 (by decide), ← and_bo 3 (by decide)]
  rfl

/-- The registers with CTR counted down. -/
def counted (u : UserState) (yes : Bool) : UserState :=
  if yes then { u with ctr := u.ctr - 1 } else u

theorem branchCTR_apply (cond : Bool) : branchCTR (bBO i) cond s =
    .ok (cond && (boBit i 2 || decide (s.cpu.user.ctr - 1 = 0) == boBit i 3))
      (s.setUser (counted s.cpu.user (!boBit i 2))) := by
  have h2 : (bBO i &&& 0x04 != 0) = boBit i 2 := and_bo 2 (by decide) _
  have h3 : (bBO i &&& 0x02 != 0) = boBit i 3 := and_bo 1 (by decide) _
  have hzero : (s.cpu.user.ctr - 1 == 0) = decide (s.cpu.user.ctr - 1 = 0) :=
    Bool.beq_eq_decide_eq _ _
  rw [branchCTR, h2, h3]
  cases boBit i 2 with
  | true =>
    rw [if_pos rfl, Bool.true_or, Bool.and_true]
    rfl
  | false =>
    rw [if_neg (by decide), Bool.false_or, ← hzero]
    rfl

/-! ### What the calls do -/

/-- The end of a conditional branch: LR, then PC. -/
def ended (u : UserState) (lk taken : Bool) (dest : VA) : UserState :=
  let u := if lk then { u with lr := u.pc + 4 } else u
  { u with pc := if taken then dest else u.pc + 4 }

theorem ended_eq (u : UserState) (lk taken : Bool) (dest : VA) : ended u lk taken dest =
    { u with
      lr := if lk then u.pc + 4 else u.lr
      pc := if taken then dest else u.pc + 4 } := by
  cases lk <;> rfl

/-- What follows the test of the condition. -/
theorem finish_apply (lk taken : Bool) (dest : VA → VA) :
    (getPC >>= fun pc => Prog.when lk (setLR (pc + 4)) >>= fun _ => branchTo taken (dest pc)) s =
      .ok () (s.setUser (ended s.cpu.user lk taken (dest s.cpu.user.pc))) := by
  cases lk <;> cases taken <;> rfl

variable {i} {s}

/-- A conditional branch whose ending has run. -/
theorem leaves_ended {o : BranchOp} (hb : o ≠ b) :
    o.Leaves i s (s.setUser (ended (counted s.cpu.user (o.counts i)) (iLK i != 0)
      (o.taken i s) (o.target i s))) := by
  have hob : (o == b) = false := beq_eq_false_iff_ne.mpr hb
  refine
    { pc := ?_
      lr := ?_
      ctr := ?_
      rest := ?_ }
  · rw [ended_eq]
    cases o.counts i <;> rfl
  · rw [ended_eq]
    by_cases h : iLK i = 0
    · have hlk : (iLK i != 0) = false := by rw [h]; rfl
      rw [hlk, if_pos h]
      cases o.counts i <;> rfl
    · have hlk : (iLK i != 0) = true := bne_iff_ne.mpr h
      rw [hlk, if_neg h]
      cases o.counts i <;> rfl
  · rw [ended_eq]
    cases o.counts i <;> rfl
  · rw [ended_eq, hob, Bool.false_and, Bool.or_false]
    cases o.counts i <;> rfl

theorem displacement_b : b.displacement i = ((iLI i) <<< 6).sshiftRight 6 :=
  (Word.sshiftRight_shiftLeft (iLI i) (by decide : 6 < 32)).symm

/-- The target of a branch with a displacement. -/
theorem target_of_aa {o : BranchOp} (ho : o = b ∨ o = bc) : o.target i s =
    if iAA i != 0 then o.displacement i else s.cpu.user.pc + o.displacement i := by
  have htarget : o.target i s =
      if iAA i = 0 then s.cpu.user.pc + o.displacement i else o.displacement i := by
    rcases ho with rfl | rfl <;> rfl
  rw [htarget]
  by_cases h : iAA i = 0
  · rw [if_pos h, h]
    rfl
  · rw [if_neg h, if_pos (bne_iff_ne.mpr h)]

/-- **`b`.** -/
theorem opB_leaves : ∃ t, opB (iLI i) (iAA i) (iLK i) s = .ok () t ∧ b.Leaves i s t := by
  obtain ⟨dest, hdest⟩ : ∃ dest, dest = b.target i s := ⟨_, rfl⟩
  have htarget := hdest.trans (target_of_aa (.inl rfl))
  rw [displacement_b] at htarget
  have hrun : opB (iLI i) (iAA i) (iLK i) s =
      (Prog.when (dest == s.cpu.user.pc) simQuit >>= fun _ =>
        Prog.when (iLK i != 0) (setLR (s.cpu.user.pc + 4)) >>= fun _ => setPC dest) s := by
    rw [htarget]
    rfl
  refine ⟨{ s.setUser (ended s.cpu.user (iLK i != 0) true dest) with
      interp := { s.interp with
        wantBreak := s.interp.wantBreak || (dest == s.cpu.user.pc) } }, ?_, ?_⟩
  · rw [hrun]
    cases hq : dest == s.cpu.user.pc <;> cases (iLK i != 0) <;> simp <;> rfl
  · refine
      { pc := ?_
        lr := ?_
        ctr := ?_
        rest := ?_ }
    · rw [ended_eq, hdest]
      rfl
    · rw [ended_eq]
      by_cases h : iLK i = 0
      · rw [if_pos h, h]
        rfl
      · have hlk : (iLK i != 0) = true := bne_iff_ne.mpr h
        rw [if_neg h, hlk]
        rfl
    · rw [ended_eq]
      rfl
    · rw [ended_eq, hdest]
      rfl

theorem counted_pc (u : UserState) (yes : Bool) : (counted u yes).pc = u.pc := by
  cases yes <;> rfl

theorem counted_lr (u : UserState) (yes : Bool) : (counted u yes).lr = u.lr := by
  cases yes <;> rfl

/-- **`bc`.** -/
theorem opBc_leaves : ∃ t, opBc (bBO i) (bBI i) (bBD i) (bAA i) (bLK i) s = .ok () t ∧
    bc.Leaves i s t := by
  refine ⟨_, ?_, leaves_ended (o := bc) (by decide)⟩
  have hfinish := finish_apply (s.setUser (counted s.cpu.user (!boBit i 2))) (iLK i != 0)
    (bc.taken i s) fun pc => if iAA i != 0 then bc.displacement i else pc + bc.displacement i
  dsimp only [Machine.setUser] at hfinish
  rw [counted_pc] at hfinish
  rw [target_of_aa (.inr rfl), opBc, Prog.bind_of_ok (getCRb_apply i s), branchCond_eq,
    Prog.bind_of_ok (branchCTR_apply i s _)]
  exact hfinish

/-- **`bclr`.** The link register is read before it is written. -/
theorem opBclr_leaves : ∃ t, opBclr (xlBO i) (xlBI i) (xlBH i) (xlLK i) s = .ok () t ∧
    bclr.Leaves i s t := by
  refine ⟨_, ?_, leaves_ended (o := bclr) (by decide)⟩
  have hfinish := finish_apply (s.setUser (counted s.cpu.user (!boBit i 2))) (iLK i != 0)
    (bclr.taken i s) fun _ => (counted s.cpu.user (!boBit i 2)).lr &&& ~~~3
  have htarget : (counted s.cpu.user (!boBit i 2)).lr &&& ~~~3 = bclr.target i s := by
    rw [counted_lr]
    rfl
  show opBclr (bBO i) (bBI i) (xlBH i) (iLK i) s = _
  rw [opBclr, Prog.bind_of_ok (getCRb_apply i s), branchCond_eq,
    Prog.bind_of_ok (branchCTR_apply i s _)]
  exact hfinish.trans (by rw [htarget]; rfl)

/-- **`bcctr`,** where it is valid. -/
theorem opBcctr_leaves (h : boBit i 2 = true) :
    ∃ t, opBcctr (xlBO i) (xlBI i) (xlBH i) (xlLK i) s = .ok () t ∧ bcctr.Leaves i s t := by
  refine ⟨_, ?_, leaves_ended (o := bcctr) (by decide)⟩
  have hbo : (bBO i &&& 0x04 == 0) = false := by
    have h2 : (bBO i &&& 0x04 != 0) = true := (and_bo 2 (by decide) _).trans h
    simpa using h2
  have htaken : branchCond (bBO i) (s.crBit (bBI i).toNat) = bcctr.taken i s := by
    rw [branchCond_eq, taken, h, Bool.true_or, Bool.and_true]
    rfl
  show opBcctr (bBO i) (bBI i) (xlBH i) (iLK i) s = _
  rw [opBcctr, Prog.bind_of_ok (getCRb_apply i s), hbo, htaken]
  cases (iLK i != 0) <;> cases bcctr.taken i s <;> rfl

/-- `bcctr` where it is not. -/
theorem opBcctr_refused (h : boBit i 2 = false) :
    opBcctr (xlBO i) (xlBI i) (xlBH i) (xlLK i) s = .ret (refused s) := by
  have hbo : (bBO i &&& 0x04 == 0) = true := by
    have h2 : (bBO i &&& 0x04 != 0) = false := (and_bo 2 (by decide) _).trans h
    simpa using h2
  show opBcctr (bBO i) (bBI i) (xlBH i) (iLK i) s = _
  rw [opBcctr, Prog.bind_of_ok (getCRb_apply i s), hbo]
  rfl

/-! ### Addresses -/

/-- Sums of multiples of 4. -/
theorem add_mod_four {x y : VA} (hx : x.toNat % 4 = 0) (hy : y.toNat % 4 = 0) :
    (x + y).toNat % 4 = 0 := by
  rw [BitVec.toNat_add]
  omega

/-- The low bits of an address that is cleared. -/
theorem clear_mod_four (x : VA) : (x &&& ~~~3).toNat % 4 = 0 := by
  have hbase : x &&& ~~~3 = Block.base 2 x := rfl
  rw [hbase, Block.toNat_base]
  omega

/-- A field whose mask has no low bits. -/
theorem field_mod_four (sh : ℕ) {mask : BitVec 32} (hm : mask.toNat % 4 = 0) (i : BitVec 32) :
    (field sh mask i).toNat % 4 = 0 := by
  have hand : ((i >>> sh).toNat &&& mask.toNat) % 2 ^ 2 = _ := Nat.and_mod_two_pow ..
  rw [field, BitVec.toNat_and]
  refine hand.trans ?_
  rw [hm, Nat.and_zero]

theorem displacement_mod_four (o : BranchOp) (i : BitVec 32) :
    (o.displacement i).toNat % 4 = 0 := by
  have hli : (iLI i).toNat % 4 = 0 := field_mod_four 0 (by decide) i
  have hbd : (bBD i).toNat % 4 = 0 := field_mod_four 0 (by decide) i
  rw [displacement]
  split_ifs
  all_goals
    rw [BitVec.toNat_signExtend, BitVec.toNat_setWidth, BitVec.toNat_setWidth]
    split_ifs <;> omega

theorem target_mod_four (o : BranchOp) (hpc : s.cpu.user.pc.toNat % 4 = 0) :
    (o.target i s).toNat % 4 = 0 := by
  have hd := o.displacement_mod_four i
  cases o with
  | b | bc =>
    rw [target]
    split_ifs
    · exact add_mod_four hpc hd
    · exact hd
  | bclr | bcctr => exact clear_mod_four _

/-- PC stays a multiple of 4. -/
theorem Leaves.pc_mod_four {o : BranchOp} {t : Machine} (h : o.Leaves i s t)
    (hpc : s.cpu.user.pc.toNat % 4 = 0) : t.cpu.user.pc.toNat % 4 = 0 := by
  rw [h.pc]
  split_ifs
  · exact o.target_mod_four hpc
  · exact add_mod_four hpc (by decide)

end

theorem refused_ctr (s : Machine) : (refused s).cpu.user.ctr = s.cpu.user.ctr := by
  unfold refused Machine.enter
  rfl

theorem refused_lr (s : Machine) : (refused s).cpu.user.lr = s.cpu.user.lr := by
  unfold refused Machine.enter
  rfl

theorem refused_mod_four (s : Machine) : (refused s).cpu.user.pc.toNat % 4 = 0 := by
  rw [refused, Machine.enter_pc]
  split_ifs <;> decide

/-- **What the call does,** for a form that is valid. -/
theorem call_leaves {o : BranchOp} {i : BitVec 32} (h : o.invalid i = false) (s : Machine) :
    ∃ t, o.row.call i s = .ok () t ∧ o.Leaves i s t := by
  cases o with
  | b => exact opB_leaves
  | bc => exact opBc_leaves
  | bclr => exact opBclr_leaves
  | bcctr =>
    have hbo : boBit i 2 = true := by simpa [invalid] using h
    exact opBcctr_leaves hbo

/-- **The family.** A word that is decoded as a branch, at an address that is
a multiple of 4, leaves what the branch leaves; the one form that is not
valid raises the exception, with CTR and LR as they were. PC is a multiple
of 4 again. -/
theorem decoded_branch (c : Config) (o : BranchOp) (i : BitVec 32) (h : o.encodes i = true)
    (s : Machine) (hpc : s.cpu.user.pc.toNat % 4 = 0) :
    ∃ t, Prog.call (decode c i) s = .ok () t ∧ t.cpu.user.pc.toNat % 4 = 0 ∧
      if o.invalid i then
        t = refused s ∧ t.cpu.user.ctr = s.cpu.user.ctr ∧ t.cpu.user.lr = s.cpu.user.lr
      else o.Leaves i s t := by
  rw [decode_eq c h]
  cases hv : o.invalid i with
  | true =>
    have hform : o = bcctr ∧ boBit i 2 = false := by simpa [invalid] using hv
    obtain ⟨rfl, hbo⟩ := hform
    have hrun : bcctr.row.call i s = .ret (refused s) := opBcctr_refused hbo
    refine ⟨refused s, ?_, refused_mod_four s, ?_⟩
    · rw [Prog.call, hrun]
    · rw [if_pos rfl]
      exact ⟨rfl, refused_ctr s, refused_lr s⟩
  | false =>
    obtain ⟨t, ht, hl⟩ := call_leaves hv s
    refine ⟨t, ?_, hl.pc_mod_four hpc, ?_⟩
    · rw [Prog.call, ht]
    · rw [if_neg (by decide)]
      exact hl

/-- `bdnzl` back by 8, with CTR at 1: not taken, and LR is written. -/
theorem decoded_branch_bdnzl : ∃ t, Prog.call (decode (.quiet .default) 0x4200fff9)
    ((Machine.holding 0 0).setUser { (Machine.holding 0 0).cpu.user with ctr := 1, pc := 0x1000 }) =
      .ok () t ∧ t.cpu.user.pc = 0x1004 ∧ t.cpu.user.lr = 0x1004 ∧ t.cpu.user.ctr = 0 := by
  obtain ⟨t, ht, -, hl⟩ := decoded_branch (.quiet .default) bc 0x4200fff9 (by decide)
    ((Machine.holding 0 0).setUser { (Machine.holding 0 0).cpu.user with ctr := 1, pc := 0x1000 })
    (by decide)
  have hleaves : bc.Leaves 0x4200fff9 _ t := hl
  exact ⟨t, ht, hleaves.pc.trans (by decide), hleaves.lr.trans (by decide),
    hleaves.ctr.trans (by decide)⟩

/-- **A branch to itself changes more than registers:** it asks the run loop
to stop. -/
theorem self_branch_stops : ∃ t, Prog.call (decode (.quiet .default) 0x48000000)
    (.holding 0 0) = .ok () t ∧ t.interp.wantBreak = true ∧
      ∀ u : UserState, t ≠ (Machine.holding 0 0).setUser u := by
  have hrun : decode (.quiet .default) 0x48000000 = b.row.call 0x48000000 :=
    decode_eq _ (by decide)
  obtain ⟨t, ht, hl⟩ := call_leaves (o := b) (i := 0x48000000) rfl (.holding 0 0)
  have hself : t.interp.wantBreak = (false || (b == b &&
      b.target 0x48000000 (.holding 0 0) == (Machine.holding 0 0).cpu.user.pc)) :=
    congrArg (·.interp.wantBreak) hl.rest
  have hbreak : t.interp.wantBreak = true := hself.trans (by decide)
  have hquiet : (Machine.holding 0 0).interp.wantBreak = false := rfl
  refine ⟨t, ?_, hbreak, fun u hu => ?_⟩
  · rw [hrun, Prog.call, ht]
  · rw [hu] at hbreak
    cases hquiet.symm.trans hbreak

end BranchOp

end MrIss
