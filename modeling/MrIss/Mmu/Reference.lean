import Mathlib.Data.Nat.Size
import MrIss.Mmu.RcUpdate
import MrIss.Mmu.Run
/-!
# The architecture's translation

Address translation as the PowerPC architecture defines it, stated of the
values software wrote to the BATs, the segment registers (T = 0) and SDR1,
and of the words of the hash table. `translateAddr` on an empty uTLB is
compared with it in `translateAddr_reference`.
-/

namespace MrIss

open EarlyReturn

/-! ## The reference -/

namespace Reference

/-- The translation registers, as written, and IR and DR. -/
structure Registers where
  ibatu : Fin 4 → BitVec 32
  ibatl : Fin 4 → BitVec 32
  dbatu : Fin 4 → BitVec 32
  dbatl : Fin 4 → BitVec 32
  sr : Fin 16 → BitVec 32
  sdr1 : BitVec 32
  ir : Bool
  dr : Bool

/-- Registers that are clear. -/
def Registers.clear : Registers :=
  ⟨fun _ => 0, fun _ => 0, fun _ => 0, fun _ => 0, fun _ => 0, 0, false, false⟩

/-- Registers that lead to the table of `Sys.onePage`. -/
def Registers.onePage : Registers := { Registers.clear with sdr1 := 0x10000, dr := true }

/-- Where an address is mapped, with which rights, and whether C is set
there (a block has no C bit and counts as set). -/
structure Mapping where
  pa : PA
  read : Bool
  write : Bool
  changed : Bool
  deriving DecidableEq, Repr

/-! ### Blocks -/

/-- The size of a block: 128 KB, doubled for each bit of BL's length. -/
def blockSize (upper : BitVec 32) : ℕ := 2 ^ (17 + Nat.size (upper.toNat / 4 % 2048))

/-- Whether Vs or Vp, by the privilege, makes the BAT apply, and its block
contains the address. -/
def blockApplies (upper : BitVec 32) (priv : Bool) (ea : VA) : Bool :=
  (if priv then upper.getLsbD 1 else upper.getLsbD 0) &&
    decide (ea.toNat / blockSize upper = upper.toNat / 2 ^ 17 * 2 ^ 17 / blockSize upper)

/-- The physical address of a block's byte: BRPN, with the offset in the
block put in. -/
def blockPA (upper lower : BitVec 32) (ea : VA) : PA :=
  BitVec.ofNat 32 (lower.toNat / 2 ^ 17 * 2 ^ 17) |||
    BitVec.ofNat 32 (ea.toNat % blockSize upper)

/-- The rights PP gives in a block: none for 00, to read for x1, to read
and write for 10. -/
def blockMapping (upper lower : BitVec 32) (ea : VA) : Except Fault Mapping :=
  match lower.toNat % 4 with
  | 0 => .error .perms
  | 2 => .ok ⟨blockPA upper lower ea, true, true, true⟩
  | _ => .ok ⟨blockPA upper lower ea, true, false, true⟩

/-! ### Pages -/

/-- The fields of a segment register. -/
def vsid (sr : BitVec 32) : BitVec 24 := sr.setWidth 24

/-- The segment register of an address. -/
def segment (r : Registers) (ea : VA) : BitVec 32 := r.sr (ea.extractLsb' 28 4).toFin

/-- The page index. -/
def pageIndex (ea : VA) : BitVec 16 := ea.extractLsb' 12 16

/-- The primary hash: the low 19 bits of the VSID, and the page index. -/
def primaryHash (r : Registers) (ea : VA) : BitVec 19 :=
  (vsid (segment r ea)).setWidth 19 ^^^ (pageIndex ea).setWidth 19

/-- The address of a group of eight entries: HTABORG, with the hash put in
under HTABMASK. -/
def ptegAddress (sdr1 : BitVec 32) (hash : BitVec 19) : PA :=
  (sdr1 &&& 0xffff0000#32) |||
    ((hash.setWidth 32 <<< 6) &&& (((sdr1 &&& 0x1ff#32) <<< 16) ||| 0xffc0#32))

/-- Whether an entry's first word maps the page: V is set, H is as looked
for, and VSID and abbreviated page index are the page's. -/
def entryMatches (r : Registers) (ea : VA) (h : Bool) (word : BitVec 32) : Bool :=
  word.getLsbD 31 && word.getLsbD 6 == h && word.extractLsb' 7 24 == vsid (segment r ea) &&
    word.extractLsb' 0 6 == (pageIndex ea).extractLsb' 10 6

/-- The entries in the order of the search: the primary group, then the
secondary one, at the complemented hash, with H set. -/
def entries (r : Registers) (ea : VA) : List (PA × Bool) :=
  (List.range 8).map (fun i =>
      (ptegAddress r.sdr1 (primaryHash r ea) + BitVec.ofNat 32 (8 * i), false)) ++
    (List.range 8).map (fun i =>
      (ptegAddress r.sdr1 (~~~primaryHash r ea) + BitVec.ofNat 32 (8 * i), true))

/-- The first entry that maps the page. -/
def entry (r : Registers) (word : PA → BitVec 32) (ea : VA) : Option PA :=
  ((entries r ea).find? fun e => entryMatches r ea e.2 (word e.1)).map Prod.fst

/-- The rights of a page, by the key and PP: to read, and to write. -/
def pageRights (key : Bool) (pp : ℕ) : Bool × Bool :=
  match key, pp with
  | false, 3 => (true, false)
  | false, _ => (true, true)
  | true, 0 => (false, false)
  | true, 2 => (true, true)
  | true, _ => (true, false)

/-- The mapping an entry's second word gives; the key is Ks or Kp. -/
def pageMapping (r : Registers) (priv : Bool) (ea : VA) (word : BitVec 32) : Mapping :=
  let key := if priv then (segment r ea).getLsbD 30 else (segment r ea).getLsbD 29
  let rights := pageRights key (word.toNat % 4)
  ⟨word.extractLsb' 12 20 ++ ea.extractLsb' 0 12, rights.1, rights.2, word.getLsbD 7⟩

/-! ### The three mechanisms -/

/-- **The architected translation.** -/
def mapping (r : Registers) (word : PA → BitVec 32) (ea : VA) (inD priv : Bool) :
    Except Fault Mapping :=
  if !(if inD then r.ir else r.dr) then .ok ⟨ea, true, true, true⟩
  else
    let upper := if inD then r.ibatu else r.dbatu
    let lower := if inD then r.ibatl else r.dbatl
    match (List.finRange 4).find? fun i => blockApplies (upper i) priv ea with
    | some i => blockMapping (upper i) (lower i) ea
    | none =>
      if inD && (segment r ea).getLsbD 28 then .error .permsNX
      else match entry r word ea with
        | some pte => .ok (pageMapping r priv ea (word (pte + 4)))
        | none => .error .noPage

/-- Whether a mapping grants a store, or an access that reads. -/
def Mapping.grants (m : Mapping) (store : Bool) : Bool := if store then m.write else m.read

/-- The same where C is not updated by the build: a store also needs C. -/
def Mapping.grantsIn (b : Build) (m : Mapping) (store : Bool) : Bool :=
  m.grants store && (!store || b.updateRC || m.changed)

end Reference

/-! ## The code agrees -/

namespace Mmu

open Reference

/-- Writes every translation register. -/
def program (m : Mmu) (r : Registers) : Mmu :=
  let m := (List.finRange 4).foldl (fun m i =>
    (m.setIBATupper i (r.ibatu i)).setIBATlower i (r.ibatl i)) m
  let m := (List.finRange 4).foldl (fun m i =>
    (m.setDBATupper i (r.dbatu i)).setDBATlower i (r.dbatl i)) m
  let m := (List.finRange 16).foldl (fun m i => m.setSegmentReg i (r.sr i)) m
  (m.setSDR1 r.sdr1).setIRDR r.ir r.dr

/-- What writing the registers leaves. -/
structure Programmed (r : Registers) (m : Mmu) : Prop where
  ibat : ∀ i, ∃ b : Bat, m.ibat i = (b.setUpper (r.ibatu i)).setLower (r.ibatl i)
  dbat : ∀ i, ∃ b : Bat, m.dbat i = (b.setUpper (r.dbatu i)).setLower (r.dbatl i)
  segreg : ∀ i, m.segreg i =
    ⟨r.sr i &&& 0x00ffffff#32, (r.sr i).getLsbD 30, (r.sr i).getLsbD 29, (r.sr i).getLsbD 28⟩
  htabPhys : m.htabPhys = r.sdr1 &&& 0xffff0000#32
  htabMask : m.htabMask = r.sdr1 &&& 0x1ff#32
  enabled : ∀ inD, m.enabled inD = if inD then r.ir else r.dr
  empty : ∀ a idx, m.utlb a idx = ⟨0, 0⟩

/-- A fold that settles each item and unsettles none settles them all. -/
theorem foldl_settles {σ α : Type} {f : σ → α → σ} {P : α → σ → Prop}
    (hset : ∀ s a, P a (f s a)) (hkeep : ∀ s a b, P b s → P b (f s a)) (l : List α) (s : σ) :
    ∀ a ∈ l, P a (l.foldl f s) := by
  intro a ha
  induction l generalizing s with
  | nil => cases ha
  | cons b l ih =>
    rw [List.foldl_cons]
    rcases List.mem_cons.mp ha with rfl | ha
    · exact List.foldlRecOn l f (hset s a) fun t ht b _ => hkeep t b a ht
    · exact ih (f s b) ha

theorem programmed_program (m : Mmu) (r : Registers) : Programmed r (m.program r) := by
  simp only [program]
  -- the three folds settle one array each, and leave the arrays before them alone
  have hi := foldl_settles (P := fun i (m : Mmu) => ∃ b : Bat,
      m.ibat i = (b.setUpper (r.ibatu i)).setLower (r.ibatl i))
    (f := fun m i => (m.setIBATupper i (r.ibatu i)).setIBATlower i (r.ibatl i))
    (fun m i => ⟨m.ibat i, by simp [setIBATlower, setIBATupper, iutlbInv]⟩)
    (fun m a i ⟨b, hb⟩ => by
      by_cases h : i = a
      · subst h
        exact ⟨m.ibat i, by simp [setIBATlower, setIBATupper, iutlbInv]⟩
      · exact ⟨b, by simpa [setIBATlower, setIBATupper, iutlbInv, h] using hb⟩)
    (List.finRange 4) m
  generalize (List.finRange 4).foldl (fun (m : Mmu) i =>
    (m.setIBATupper i (r.ibatu i)).setIBATlower i (r.ibatl i)) m = m₁ at hi ⊢
  have hd := foldl_settles (P := fun i (m : Mmu) => ∃ b : Bat,
      m.dbat i = (b.setUpper (r.dbatu i)).setLower (r.dbatl i))
    (f := fun m i => (m.setDBATupper i (r.dbatu i)).setDBATlower i (r.dbatl i))
    (fun m i => ⟨m.dbat i, by simp [setDBATlower, setDBATupper, dutlbInv]⟩)
    (fun m a i ⟨b, hb⟩ => by
      by_cases h : i = a
      · subst h
        exact ⟨m.dbat i, by simp [setDBATlower, setDBATupper, dutlbInv]⟩
      · exact ⟨b, by simpa [setDBATlower, setDBATupper, dutlbInv, h] using hb⟩)
    (List.finRange 4) m₁
  have hi₂ : ∀ i, ((List.finRange 4).foldl (fun (m : Mmu) i =>
      (m.setDBATupper i (r.dbatu i)).setDBATlower i (r.dbatl i)) m₁).ibat i = m₁.ibat i := fun i =>
    List.foldlRecOn (motive := fun m : Mmu => m.ibat i = m₁.ibat i) (List.finRange 4) _ rfl
      fun t ht a _ => ht
  generalize (List.finRange 4).foldl (fun (m : Mmu) i =>
    (m.setDBATupper i (r.dbatu i)).setDBATlower i (r.dbatl i)) m₁ = m₂ at hd hi₂ ⊢
  have hs := foldl_settles (P := fun i (m : Mmu) => m.segreg i =
      ⟨r.sr i &&& 0x00ffffff#32, (r.sr i).getLsbD 30, (r.sr i).getLsbD 29,
        (r.sr i).getLsbD 28⟩)
    (f := fun m i => m.setSegmentReg i (r.sr i))
    (fun m i => by simp [setSegmentReg, flush, iutlbInv, dutlbInv])
    (fun m a i hb => by
      by_cases h : i = a
      · subst h
        simp [setSegmentReg, flush, iutlbInv, dutlbInv]
      · simpa [setSegmentReg, flush, iutlbInv, dutlbInv, h] using hb)
    (List.finRange 16) m₂
  have hk : ((List.finRange 16).foldl (fun (m : Mmu) i => m.setSegmentReg i (r.sr i)) m₂).ibat =
        m₂.ibat ∧
      ((List.finRange 16).foldl (fun (m : Mmu) i => m.setSegmentReg i (r.sr i)) m₂).dbat =
        m₂.dbat :=
    List.foldlRecOn (motive := fun m : Mmu => m.ibat = m₂.ibat ∧ m.dbat = m₂.dbat)
      (List.finRange 16) _ ⟨rfl, rfl⟩ fun t ht a _ => ht
  generalize (List.finRange 16).foldl (fun (m : Mmu) i => m.setSegmentReg i (r.sr i)) m₂ = m₃
    at hs hk ⊢
  constructor
  · intro i
    obtain ⟨b, hb⟩ := hi i (List.mem_finRange i)
    exact ⟨b, by rw [← hb, ← hi₂ i, ← hk.1]; rfl⟩
  · intro i
    obtain ⟨b, hb⟩ := hd i (List.mem_finRange i)
    exact ⟨b, by rw [← hb, ← hk.2]; rfl⟩
  · intro i
    exact hs i (List.mem_finRange i)
  · rfl
  · rfl
  · intro inD
    cases inD <;> rfl
  · intro a idx
    cases a <;> rfl

/-! ### Blocks -/

theorem and_twoPow_ne_zero (x : BitVec 32) (i : ℕ) (hi : i < 32) :
    (x &&& BitVec.twoPow 32 i != 0#32) = x.getLsbD i := by
  rw [BitVec.and_twoPow]
  cases x.getLsbD i with
  | false => rfl
  | true =>
    have : BitVec.twoPow 32 i ≠ 0#32 := by
      intro h
      have := congrArg (·.getLsbD i) h
      simp [hi] at this
    simpa using this

/-- `m_fls` is the bit length. -/
theorem toNat_mFls (x : BitVec 32) : (mFls x).toNat = Nat.size x.toNat := by
  unfold mFls
  split_ifs with h
  · rw [h]
    rfl
  · have hx : x.toNat ≠ 0 := by
      intro h0
      exact h (BitVec.eq_of_toNat_eq h0)
    have hsize : Nat.size x.toNat = Nat.log2 x.toNat + 1 := by
      apply Nat.le_antisymm
      · exact Nat.size_le.mpr Nat.lt_log2_self
      · exact Nat.lt_size.mpr (Nat.log2_self_le hx)
    have hlt : Nat.log2 x.toNat < 32 := (Nat.log2_lt hx).mpr x.isLt
    rw [hsize, BitVec.toNat_ofNat, Nat.mod_eq_of_lt (by omega)]

/-- The mask of a block. -/
theorem and_amask {b : Bat} {k : ℕ} (hk : b.blShift.toNat = k) (x : BitVec 32) :
    x &&& b.amask = Block.base (17 + k) x ∧ x &&& ~~~b.amask = Block.offset (17 + k) x := by
  have hmask : ∀ i < 32, b.amask.getLsbD i = decide (17 + k ≤ i) := by
    intro i hi
    have h17 : ∀ j < 32, (0xfffe0000#32).getLsbD j = decide (17 ≤ j) := by decide
    rw [Bat.amask, hk, BitVec.getLsbD_shiftLeft]
    by_cases hik : i < k
    · simp [hik, show ¬ 17 + k ≤ i by omega]
    · rw [h17 _ (by omega)]
      simp only [hi, hik, decide_true, decide_false, Bool.not_false, Bool.true_and,
        decide_eq_decide]
      omega
  constructor
  · apply BitVec.eq_of_getLsbD_eq
    intro i hi
    rw [BitVec.getLsbD_and, hmask i hi, Block.getLsbD_base]
  · apply BitVec.eq_of_getLsbD_eq
    intro i hi
    rw [BitVec.getLsbD_and, BitVec.getLsbD_not, hmask i hi, Block.getLsbD_offset]
    simp only [hi, decide_true, Bool.true_and, ← decide_not, Nat.not_le]

section Blocks

variable (b : Bat) (upper lower : BitVec 32) (ea : VA) (priv : Bool)

theorem blShift_eq : ((b.setUpper upper).setLower lower).blShift.toNat =
    Nat.size (upper.toNat / 4 % 2048) := by
  have : ((upper >>> 2) &&& 0x7ff#32).toNat = upper.toNat / 4 % 2048 := by
    have := Block.toNat_offset 11 (upper >>> 2)
    rw [BitVec.toNat_ushiftRight, Nat.shiftRight_eq_div_pow] at this
    exact this
  rw [show ((b.setUpper upper).setLower lower).blShift = mFls ((upper >>> 2) &&& 0x7ff#32) from rfl,
    toNat_mFls, this]

theorem hits_eq : ((b.setUpper upper).setLower lower).hits ea priv =
    blockApplies upper priv ea := by
  have hbepi : ((b.setUpper upper).setLower lower).bepi = Block.base 17 upper := rfl
  have hvs : ((b.setUpper upper).setLower lower).vs = upper.getLsbD 1 :=
    and_twoPow_ne_zero upper 1 (by omega)
  have hvp : ((b.setUpper upper).setLower lower).vp = upper.getLsbD 0 :=
    and_twoPow_ne_zero upper 0 (by omega)
  have hblock : ((ea ^^^ ((b.setUpper upper).setLower lower).bepi) &&&
        ((b.setUpper upper).setLower lower).amask == 0#32) =
      decide (ea.toNat / blockSize upper = upper.toNat / 2 ^ 17 * 2 ^ 17 / blockSize upper) := by
    rw [(and_amask (blShift_eq b upper lower) _).1, hbepi]
    have hxor : ∀ (k : ℕ) (x y : BitVec 32),
        Block.base k (x ^^^ y) = Block.base k x ^^^ Block.base k y := by
      intro k x y
      apply BitVec.eq_of_getLsbD_eq
      intro i _
      simp only [Block.getLsbD_base, BitVec.getLsbD_xor]
      cases x.getLsbD i <;> cases y.getLsbD i <;> cases decide (k ≤ i) <;> rfl
    rw [hxor, Bool.eq_iff_iff, beq_iff_eq, BitVec.xor_eq_zero_iff, decide_eq_true_iff,
      Block.base_eq_iff, Block.toNat_base]
    rfl
  rw [Bat.hits, hblock, hvs, hvp, blockApplies]
  cases priv <;> cases upper.getLsbD 0 <;> cases upper.getLsbD 1 <;> simp

theorem toNat_and_three (x : BitVec 32) : (x &&& 3#32).toNat = x.toNat % 4 :=
  Block.toNat_offset 2 x

/-- What a block that applies gives. -/
theorem gives_eq :
    match blockMapping upper lower ea with
    | .error f => f = .perms ∧
        (((b.setUpper upper).setLower lower).gives ea).2 = ⟨false, false, false⟩
    | .ok mp => ((b.setUpper upper).setLower lower).gives ea =
        (mp.pa, ⟨mp.read, mp.write, false⟩) ∧ mp.read = true ∧ mp.changed = true := by
  have hpp : ((b.setUpper upper).setLower lower).pp = lower &&& 3#32 := rfl
  have hnat := toNat_and_three lower
  have hpa : ((b.setUpper upper).setLower lower).brpn |||
      (ea &&& ~~~((b.setUpper upper).setLower lower).amask) = blockPA upper lower ea := by
    rw [(and_amask (blShift_eq b upper lower) ea).2, blockPA]
    congr 1
    · apply BitVec.eq_of_toNat_eq
      rw [show ((b.setUpper upper).setLower lower).brpn = Block.base 17 lower from rfl,
        Block.toNat_base, BitVec.toNat_ofNat, Nat.mod_eq_of_lt]
      exact Nat.lt_of_le_of_lt (Nat.div_mul_le_self ..) lower.isLt
    · apply BitVec.eq_of_toNat_eq
      rw [Block.toNat_offset, BitVec.toNat_ofNat]
      exact (Nat.mod_eq_of_lt (Nat.lt_of_le_of_lt (Nat.mod_le ..) ea.isLt)).symm
  have hz : lower &&& 3#32 = 0#32 ↔ lower.toNat % 4 = 0 := by
    rw [← hnat, BitVec.toNat_eq, BitVec.toNat_zero]
  have h2 : (lower &&& 3#32 == 2#32) = decide (lower.toNat % 4 = 2) := by
    rw [Bool.eq_iff_iff, beq_iff_eq, decide_eq_true_iff, BitVec.toNat_eq, hnat]
    rfl
  unfold blockMapping Bat.gives
  rw [hpp, h2, hpa]
  have hlt : lower.toNat % 4 < 4 := Nat.mod_lt _ (by omega)
  generalize lower.toNat % 4 = n at hz hlt
  obtain rfl | rfl | rfl | rfl : n = 0 ∨ n = 1 ∨ n = 2 ∨ n = 3 := by omega
  · simp [hz]
  · simp [hz]
  · simp [hz]
  · simp [hz]

end Blocks

/-! ### Segments and the hash table -/

section Pages

variable {r : Registers} {m : Mmu} (hm : Programmed r m) (ea : VA)
include hm

theorem segOf_eq : m.segOf ea = ⟨segment r ea &&& 0x00ffffff#32, (segment r ea).getLsbD 30,
    (segment r ea).getLsbD 29, (segment r ea).getLsbD 28⟩ := by
  have hidx : (ea >>> 28).setWidth 4 = ea.extractLsb' 28 4 := by
    apply BitVec.eq_of_getLsbD_eq
    intro i hi
    simp [hi]
  rw [segOf, hidx, hm.segreg]
  rfl

/-- The hash the code computes, in 32 bits, cut to the 19 that count. -/
theorem ptegAddr_eq {hash : BitVec 32} {h : BitVec 19} (hh : hash.setWidth 19 = h) :
    m.ptegAddr hash = ptegAddress r.sdr1 h := by
  rw [ptegAddr, ptegAddress, hm.htabPhys, hm.htabMask]
  congr 1
  apply BitVec.eq_of_getLsbD_eq
  intro i hi
  simp only [BitVec.getLsbD_and]
  by_cases h25 : i < 25
  · rw [← hh, BitVec.getLsbD_shiftLeft, BitVec.getLsbD_shiftLeft, BitVec.getLsbD_setWidth,
      BitVec.getLsbD_setWidth]
    simp [show i - 6 < 32 by omega, show i - 6 < 19 by omega]
  · -- above bit 24 the mask is clear
    have hmask : (((r.sdr1 &&& 0x1ff#32) <<< 16) ||| 0xffc0#32).getLsbD i = false := by
      have h1 : ∀ j < 32, 9 ≤ j → (0x1ff#32).getLsbD j = false := by decide
      have h2 : ∀ j < 32, 16 ≤ j → (0xffc0#32).getLsbD j = false := by decide
      rw [BitVec.getLsbD_or, BitVec.getLsbD_shiftLeft, BitVec.getLsbD_and,
        h1 (i - 16) (by omega) (by omega), h2 i hi (by omega)]
      simp
    rw [hmask, Bool.and_false, Bool.and_false]

theorem hash_eq : (((m.segOf ea).vsid &&& 0x7ffff#32) ^^^ pgidx ea).setWidth 19 =
    primaryHash r ea := by
  have h19 : ∀ j < 19, (0x7ffff#32).getLsbD j = true := by decide
  have h24 : ∀ j < 19, (0x00ffffff#32).getLsbD j = true := by decide
  have h16 : ∀ j < 32, (0xffff#32).getLsbD j = decide (j < 16) := by decide
  rw [segOf_eq hm ea, primaryHash, vsid, pageIndex, pgidx]
  apply BitVec.eq_of_getLsbD_eq
  intro i hi
  simp only [BitVec.getLsbD_setWidth, BitVec.getLsbD_xor, BitVec.getLsbD_and, h19 i hi, h24 i hi,
    h16 i (by omega), BitVec.getLsbD_ushiftRight, BitVec.getLsbD_extractLsb', hi,
    show i < 24 by omega, decide_true, Bool.true_and, Bool.and_true]
  rw [Bool.and_comm (ea.getLsbD _)]

/-- The code visits the architecture's entries in the architecture's
order. -/
theorem pteSlots_eq : m.pteSlots ea =
    (entries r ea).map fun e => (e.1, if e.2 then 0x40#32 else 0#32) := by
  have hnot : (~~~(((m.segOf ea).vsid &&& 0x7ffff#32) ^^^ pgidx ea)).setWidth 19 =
      ~~~primaryHash r ea := by
    rw [← hash_eq hm ea]
    apply BitVec.eq_of_getLsbD_eq
    intro i hi
    simp [hi, show i < 32 by omega]
  simp only [pteSlots, entries, List.flatMap_cons, List.flatMap_nil, List.append_nil,
    List.map_append, List.map_map, ptegAddr_eq hm (hash_eq hm ea), ptegAddr_eq hm hnot,
    Function.comp_def, Nat.mul_comm 8, if_true, Bool.false_eq_true, if_false]

omit hm in
/-- Comparing a field under a mask is comparing its bits. -/
theorem and_eq_iff {x y k : BitVec 32} :
    x &&& k = y ↔ ∀ i < 32, (x.getLsbD i && k.getLsbD i) = y.getLsbD i := by
  constructor
  · rintro rfl i _
    rw [BitVec.getLsbD_and]
  · intro h
    apply BitVec.eq_of_getLsbD_eq
    intro i hi
    rw [BitVec.getLsbD_and, h i hi]

theorem pteMatches_eq (h : Bool) (word : BitVec 32) :
    m.pteMatches ea (if h then 0x40#32 else 0#32) word = entryMatches r ea h word := by
  have hv : (word &&& 0x80000000#32 != 0#32) = word.getLsbD 31 :=
    and_twoPow_ne_zero word 31 (by omega)
  have hh : (word &&& 0x40#32 == if h then 0x40#32 else 0#32) = (word.getLsbD 6 == h) := by
    rw [show (0x40#32 : BitVec 32) = BitVec.twoPow 32 6 from rfl, BitVec.and_twoPow]
    cases word.getLsbD 6 <;> cases h <;> decide
  have hid : (word &&& 0x7fffff80#32 == (m.segOf ea).vsid <<< 7) =
      (word.extractLsb' 7 24 == vsid (segment r ea)) := by
    have hk : ∀ j < 32, (0x7fffff80#32).getLsbD j = decide (7 ≤ j ∧ j < 31) := by decide
    have hv : ∀ j < 32, (0x00ffffff#32).getLsbD j = decide (j < 24) := by decide
    rw [segOf_eq hm ea, Bool.eq_iff_iff, beq_iff_eq, beq_iff_eq, and_eq_iff]
    constructor
    · intro hb
      apply BitVec.eq_of_getLsbD_eq
      intro i hi
      have := hb (7 + i) (by omega)
      rw [hk _ (by omega), BitVec.getLsbD_shiftLeft, BitVec.getLsbD_and, hv _ (by omega)] at this
      simp only [show 7 ≤ 7 + i ∧ 7 + i < 31 by omega, show 7 + i < 32 by omega,
        show ¬ 7 + i < 7 by omega, show 7 + i - 7 = i by omega, hi, decide_true, decide_false,
        Bool.not_false, Bool.and_true, Bool.true_and, and_self] at this
      rw [BitVec.getLsbD_extractLsb', vsid, BitVec.getLsbD_setWidth, this]
    · intro hb i hi
      rw [hk i hi, BitVec.getLsbD_shiftLeft, BitVec.getLsbD_and]
      by_cases h7 : 7 ≤ i ∧ i < 31
      · have := congrArg (·.getLsbD (i - 7)) hb
        simp only [BitVec.getLsbD_extractLsb', vsid, BitVec.getLsbD_setWidth,
          show i - 7 < 24 by omega, show 7 + (i - 7) = i by omega, decide_true,
          Bool.true_and] at this
        rw [hv _ (by omega), this]
        simp [h7, hi, show ¬ i < 7 by omega, show i - 7 < 24 by omega]
      · by_cases hlt : i < 7
        · simp [h7, hlt]
        · rw [hv _ (by omega)]
          simp [h7, show ¬ i - 7 < 24 by omega]
  have ha : (word &&& 0x3f#32 == pgidx ea >>> 10) =
      (word.extractLsb' 0 6 == (pageIndex ea).extractLsb' 10 6) := by
    have hk : ∀ j < 32, (0x3f#32).getLsbD j = decide (j < 6) := by decide
    have hp : ∀ j, (0xffff#32).getLsbD j = decide (j < 16) := by
      intro j
      by_cases hj : j < 32
      · revert j
        decide
      · rw [BitVec.getLsbD_of_ge _ _ (by omega), decide_eq_false (by omega)]
    have hpage : ∀ i, (pgidx ea >>> 10).getLsbD i = (ea.getLsbD (22 + i) && decide (i < 6)) := by
      intro i
      rw [BitVec.getLsbD_ushiftRight, pgidx, BitVec.getLsbD_and, BitVec.getLsbD_ushiftRight, hp,
        show 12 + (10 + i) = 22 + i by omega]
      congr 1
      simp only [decide_eq_decide]
      omega
    rw [Bool.eq_iff_iff, beq_iff_eq, beq_iff_eq, and_eq_iff]
    constructor
    · intro hb
      apply BitVec.eq_of_getLsbD_eq
      intro i hi
      have := hb i (by omega)
      rw [hk i (by omega), hpage] at this
      simp only [hi, decide_true, Bool.and_true] at this
      simp [hi, pageIndex, this, show 10 + i < 16 by omega, show 12 + (10 + i) = 22 + i by omega]
    · intro hb i hi
      rw [hk i hi, hpage]
      by_cases h6 : i < 6
      · have := congrArg (·.getLsbD i) hb
        simp [h6, pageIndex, show 10 + i < 16 by omega,
          show 12 + (10 + i) = 22 + i by omega] at this
        simp [h6, this]
      · simp [h6]
  rw [pteMatches, hv, hh, hid, ha, entryMatches]

/-- The code finds the architecture's entry. -/
theorem pteFor_eq (word : PA → BitVec 32) : m.pteFor word ea = entry r word ea := by
  rw [pteFor, pteSlots_eq hm ea, entry]
  generalize entries r ea = l
  induction l with
  | nil => rfl
  | cons e l ih =>
    rw [List.map_cons, List.findSome?_cons, List.find?_cons]
    simp only [pteMatches_eq hm ea]
    cases entryMatches r ea e.2 (word e.1) with
    | true => rfl
    | false => exact ih

/-- The rights of a page are the architecture's. -/
theorem pageRights_eq (priv : Bool) (word : BitVec 32) :
    (m.segOf ea).pageRights priv (word &&& 3#32) =
      Reference.pageRights
        (if priv then (segment r ea).getLsbD 30 else (segment r ea).getLsbD 29)
        (word.toNat % 4) := by
  rw [segOf_eq hm ea]
  have hpp : word &&& 3#32 = BitVec.ofNat 32 (word.toNat % 4) := by
    apply BitVec.eq_of_toNat_eq
    rw [toNat_and_three, BitVec.toNat_ofNat]
    omega
  rw [hpp]
  have hlt : word.toNat % 4 < 4 := Nat.mod_lt _ (by omega)
  generalize word.toNat % 4 = n at hlt
  obtain rfl | rfl | rfl | rfl : n = 0 ∨ n = 1 ∨ n = 2 ∨ n = 3 := by omega
  all_goals
    simp only [Seg.pageRights]
    cases priv <;> cases (segment r ea).getLsbD 30 <;> cases (segment r ea).getLsbD 29 <;> rfl

end Pages

/-! ### The three mechanisms -/

section Mechanisms

variable {c : Config} {r : Registers} {m : Mmu} (hm : Programmed r m) (mem : HostMem) (ea : VA)
  (inD rnW priv : Bool)
include hm

/-- The first BAT that hits is the architecture's. -/
theorem matchBAT_eq :
    match (List.finRange 4).find? fun i =>
      blockApplies ((if inD then r.ibatu else r.dbatu) i) priv ea with
    | some i => match blockMapping ((if inD then r.ibatu else r.dbatu) i)
        ((if inD then r.ibatl else r.dbatl) i) ea with
      | .error f => f = .perms ∧ ∃ pa, m.matchBAT ea inD priv = some (pa, ⟨false, false, false⟩)
      | .ok mp => m.matchBAT ea inD priv = some (mp.pa, ⟨mp.read, mp.write, false⟩) ∧
          mp.read = true ∧ mp.changed = true
    | none => m.matchBAT ea inD priv = none := by
  have hb : ∀ i, ∃ b : Bat, m.bats inD i =
      (b.setUpper ((if inD then r.ibatu else r.dbatu) i)).setLower
        ((if inD then r.ibatl else r.dbatl) i) := by
    intro i
    cases inD
    · exact hm.dbat i
    · exact hm.ibat i
  have hfind : ∀ l : List (Fin 4), (l.map (m.bats inD)).find? (·.hits ea priv) =
      (l.find? fun i => blockApplies ((if inD then r.ibatu else r.dbatu) i) priv ea).map
        (m.bats inD) := by
    intro l
    induction l with
    | nil => rfl
    | cons i l ih =>
      obtain ⟨b, hbi⟩ := hb i
      have hhit := hits_eq b ((if inD then r.ibatu else r.dbatu) i)
        ((if inD then r.ibatl else r.dbatl) i) ea priv
      rw [← hbi] at hhit
      rw [List.map_cons, List.find?_cons, List.find?_cons, hhit]
      cases blockApplies ((if inD then r.ibatu else r.dbatu) i) priv ea with
      | true => rfl
      | false => exact ih
  rw [matchBAT, hfind]
  cases (List.finRange 4).find? fun i =>
      blockApplies ((if inD then r.ibatu else r.dbatu) i) priv ea with
  | none => rfl
  | some i =>
    obtain ⟨b, hbi⟩ := hb i
    have hg := gives_eq b ((if inD then r.ibatu else r.dbatu) i)
      ((if inD then r.ibatl else r.dbatl) i) ea
    rw [← hbi] at hg
    simp only [Option.map_some]
    cases hmap : blockMapping ((if inD then r.ibatu else r.dbatu) i)
        ((if inD then r.ibatl else r.dbatl) i) ea with
    | error f =>
      rw [hmap] at hg
      exact ⟨hg.1, _, by rw [← hg.2]⟩
    | ok mp =>
      rw [hmap] at hg
      exact ⟨by rw [hg.1], hg.2⟩

/-- **A walk computes the architected translation.** -/
theorem resolve_reference :
    match mapping r (c.map.word mem) ea inD priv with
    | .error f => resolve c m mem ea inD rnW priv = .error f
    | .ok mp => ∃ perms mem', resolve c m mem ea inD rnW priv = .ok ⟨mp.pa, perms, mem'⟩ ∧
        checkPerms c.build perms rnW inD = mp.grantsIn c.build (!inD && !rnW) := by
  have hbat := matchBAT_eq hm ea inD priv
  unfold mapping resolve route
  rw [hm.enabled inD]
  by_cases hen : (if inD then r.ir else r.dr) = true
  case neg =>
    have hen' : (if inD then r.ir else r.dr) = false := by simpa using hen
    simp only [hen', Bool.not_false, if_true]
    refine ⟨_, _, rfl, ?_⟩
    cases inD <;> cases rnW <;>
      simp [checkPerms, MmuPerms.any, Mapping.grantsIn, Mapping.grants]
  simp only [hen, Bool.not_true, Bool.false_eq_true, if_false]
  cases hfind : (List.finRange 4).find? fun i =>
      blockApplies ((if inD then r.ibatu else r.dbatu) i) priv ea with
  | some i =>
    simp only [hfind] at hbat ⊢
    cases hmap : blockMapping ((if inD then r.ibatu else r.dbatu) i)
        ((if inD then r.ibatl else r.dbatl) i) ea with
    | error f =>
      rw [hmap] at hbat
      obtain ⟨rfl, pa, hb⟩ := hbat
      simp [hb]
    | ok mp =>
      rw [hmap] at hbat
      obtain ⟨hb, hread, hchanged⟩ := hbat
      simp only [hb, hread, Bool.not_true, Bool.false_and, Bool.false_eq_true, if_false]
      refine ⟨_, _, rfl, ?_⟩
      cases inD <;> cases rnW <;>
        simp [checkPerms, Mapping.grantsIn, Mapping.grants, hread, hchanged]
  | none =>
    simp only [hfind] at hbat ⊢
    have hn : (m.segOf ea).n = (segment r ea).getLsbD 28 := by rw [segOf_eq hm ea]
    simp only [hbat, hn]
    by_cases hnx : (inD && (segment r ea).getLsbD 28) = true
    · simp only [hnx, if_true]
    · simp only [hnx, Bool.false_eq_true, if_false, pteFor_eq hm ea]
      cases entry r (c.map.word mem) ea with
      | none => simp only
      | some pte =>
        simp only
        generalize c.map.word mem (pte + 4) = w
        have hpa : (pteUse c.build (m.segOf ea) ea rnW priv w).addr =
            (pageMapping r priv ea w).pa := by
          rw [pteUse_addr, pageMapping]
          apply BitVec.eq_of_getLsbD_eq
          intro i hi
          rw [BitVec.getLsbD_or, Block.getLsbD_base, Block.getLsbD_offset, BitVec.getLsbD_append]
          by_cases h12 : i < 12
          · simp [h12, Nat.not_le.mpr h12]
          · simp [h12, Nat.le_of_not_lt h12, show i - 12 < 20 by omega,
              show 12 + (i - 12) = i by omega]
        refine ⟨_, _, by rw [← hpa], ?_⟩
        have hC : pteC w = (pageMapping r priv ea w).changed :=
          and_twoPow_ne_zero w 7 (by omega)
        have hrights := pageRights_eq hm ea priv w
        have hread : (pageMapping r priv ea w).read =
            ((m.segOf ea).pageRights priv (w &&& 3#32)).1 := by rw [hrights]; rfl
        have hwrite : (pageMapping r priv ea w).write =
            ((m.segOf ea).pageRights priv (w &&& 3#32)).2 := by rw [hrights]; rfl
        rw [pteUse_perms, Mapping.grantsIn, Mapping.grants, hread, hwrite, ← hC]
        generalize ((m.segOf ea).pageRights priv (w &&& 3#32)).1 = rd
        generalize ((m.segOf ea).pageRights priv (w &&& 3#32)).2 = wr
        generalize pteC w = ch
        simp only [checkPerms]
        cases inD <;> cases rnW <;> cases rd <;> cases wr <;> cases ch <;>
          cases c.build.updateRC <;> rfl

end Mechanisms

/-- **Address translation meets the reference.** On an empty uTLB, with
the registers written and the table in RAM where it is reached,
`translateAddr` returns the architecture's fault; where there is a mapping
it returns its physical address, as the host or the bus is to access it,
if the mapping grants the access, and else a protection fault. In a build
that does not update C, a store also needs C to be set. Where no device
answers the mapping's address the process ends. -/
theorem translateAddr_reference (c : Config) (r : Registers) (m₀ : Mmu) (sys : Sys) (ea : VA)
    (inD rnW priv : Bool) (hw : WalkInRam c.map (m₀.program r) ea inD priv) :
    match mapping r (c.map.word sys.mem) ea inD priv with
    | .error f => ∃ t, translateAddr c ea inD rnW priv ⟨m₀.program r, sys⟩ = .ok (.error f) t
    | .ok mp =>
      (c.map.deviceAt mp.pa = none ∧
        ∃ t, translateAddr c ea inD rnW priv ⟨m₀.program r, sys⟩ = .abort (.busMiss mp.pa) t) ∨
      ∃ h t, c.map.target mp.pa = some h ∧
        translateAddr c ea inD rnW priv ⟨m₀.program r, sys⟩ =
          .ok (if mp.grantsIn c.build (!inD && !rnW) then .ok h else .error .perms) t := by
  have hm := programmed_program m₀ r
  have hres := resolve_reference (c := c) hm sys.mem ea inD rnW priv
  rw [translateAddr_of_empty hm.empty]
  have hdo := doLookup_eq (c := c) (s := ⟨m₀.program r, sys⟩) rnW hw 1
  cases hmap : mapping r (c.map.word sys.mem) ea inD priv with
  | error f =>
    rw [hmap] at hres
    rcases hdo with ⟨f', i, hr, hd⟩ | ⟨r', t, hr, -, -⟩ | ⟨r', h, i, hr, -, -⟩
    · rw [hres] at hr
      cases hr
      exact ⟨_, hd⟩
    · rw [hres] at hr; cases hr
    · rw [hres] at hr; cases hr
  | ok mp =>
    rw [hmap] at hres
    obtain ⟨perms, mem', hres, hgrant⟩ := hres
    rcases hdo with ⟨f', i, hr, -⟩ | ⟨r', t, hr, ht, hd⟩ | ⟨r', h, i, hr, ht, hd⟩
    · rw [hres] at hr; cases hr
    · rw [hres] at hr
      cases hr
      exact .inl ⟨by simpa [PagedBus.target] using ht, t, hd⟩
    · rw [hres] at hr
      cases hr
      rw [hgrant] at hd
      exact .inr ⟨h, _, ht, hd⟩

/-- The architecture grants every access where translation is off: where
no device answers the address, the process ends. It grants a store to a
writable page whatever C is: a build that does not update C denies it
where C is clear. -/
theorem translateAddr_not_reference :
    (mapping .clear ((Config.quiet .default).map.word Sys.fresh.mem) 0x40000000 false true =
        .ok ⟨0x40000000, true, true, true⟩ ∧
      ∀ h t, translateAddr (.quiet .default) 0x40000000 false true true
        ⟨zero.program .clear, .fresh⟩ ≠ .ok (.ok h) t) ∧
    (mapping .onePage ((Config.quiet ⟨false, .within64⟩).map.word Sys.onePage.mem) 0x1000 false
        true = .ok ⟨0x2000, true, true, false⟩ ∧
      ∀ h t, translateAddr (.quiet ⟨false, .within64⟩) 0x1000 false false true
        ⟨zero.program .onePage, .onePage⟩ ≠ .ok (.ok h) t) := by
  refine ⟨⟨rfl, fun h t heq => ?_⟩, by decide +kernel, fun h t heq => ?_⟩
  · have key : ((translateAddr (.quiet .default) 0x40000000 false true true
        ⟨zero.program .clear, .fresh⟩).test fun _ _ => true) = false := by decide +kernel
    rw [heq] at key
    cases key
  · have key : ((translateAddr (.quiet ⟨false, .within64⟩) 0x1000 false false true
        ⟨zero.program .onePage, .onePage⟩).test fun res _ => res.toBool) = false := by
      decide +kernel
    rw [heq] at key
    cases key

/-- A store that the sample table maps. -/
theorem translateAddr_reference_paged :
    ∃ t, translateAddr (.quiet .default) 0x1000 false false true
      ⟨zero.program .onePage, .onePage⟩ = .ok (.ok 0x10002000) t := by
  have h := translateAddr_reference (.quiet .default) .onePage zero .onePage 0x1000 false false true
    fun _ _ _ => by decide +kernel
  have hmap : mapping .onePage ((Config.quiet .default).map.word Sys.onePage.mem) 0x1000 false true =
      .ok ⟨0x2000, true, true, false⟩ := by decide +kernel
  have hram : (Config.quiet .default).map.target 0x2000 = some 0x10002000 := by decide +kernel
  rw [hmap] at h
  rcases h with ⟨hnone, -⟩ | ⟨h, t, ht, hrun⟩
  · rw [PagedBus.target, hnone] at hram
    cases hram
  · rw [hram] at ht
    cases ht
    exact ⟨t, hrun⟩

end Mmu

end MrIss
