import MrIss.Mmu.Reference
import MrIss.Mmu.Uncached
import MrIss.State.Exact
/-!
# Translation registers reloaded

The MMU unpacks what is written to its registers, and a checkpoint holds
what the getters pack again. Not every bit comes back: a block length
comes back as ones up to its highest. Writing a register with what is read
from it still leaves it as it was, and so an MMU whose registers are
reloaded translates as the one that was saved.
-/

namespace MrIss

open EarlyReturn Run

/-! ## A register written, read and written again -/

namespace Bat

open Mmu

variable (b : Bat) (v : BitVec 32)

/-- Writing the upper register with what it reads as would change nothing. -/
def UpperSettled : Prop := b.setUpper b.getUpper = b

/-- And the lower. -/
def LowerSettled : Prop := b.setLower b.getLower = b

/-- The block length's bits fit in eleven. -/
theorem blShift_setUpper_le : (b.setUpper v).blShift.toNat ≤ 11 := by
  have hbl : ((v >>> 2) &&& 0x7ff#32).toNat < 2 ^ 11 := by
    rw [show ((v >>> 2) &&& 0x7ff#32).toNat = (v >>> 2).toNat % 2 ^ 11 from Block.toNat_offset 11 _]
    exact Nat.mod_lt _ (by decide)
  rw [show (b.setUpper v).blShift = mFls ((v >>> 2) &&& 0x7ff#32) from rfl, toNat_mFls]
  exact Nat.size_le.mpr hbl

/-- Ones below a bit. -/
theorem toNat_ones {k : ℕ} (hk : k < 32) : ((1#32 <<< k) - 1).toNat = 2 ^ k - 1 := by
  have hpow : 2 ^ k < 2 ^ 32 := Nat.pow_lt_pow_right (by decide) hk
  have hpos : 0 < 2 ^ k := Nat.two_pow_pos k
  have hshift : (1#32 <<< k).toNat = 2 ^ k := by
    rw [BitVec.toNat_shiftLeft, Nat.shiftLeft_eq]
    show 1 * 2 ^ k % 2 ^ 32 = _
    omega
  rw [BitVec.toNat_sub, hshift]
  show (2 ^ 32 - 1 + 2 ^ k) % 2 ^ 32 = _
  omega

theorem getLsbD_ones {k i : ℕ} (hk : k < 32) :
    ((1#32 <<< k) - 1).getLsbD i = decide (i < k) := by
  rw [BitVec.getLsbD, toNat_ones hk, Nat.testBit_two_pow_sub_one]

/-- A flag in its place. -/
theorem getLsbD_flag (f : Bool) (j i : ℕ) (hj : j < 32) :
    (if f then BitVec.twoPow 32 j else 0#32).getLsbD i = (f && decide (j = i)) := by
  cases f with
  | false => simp
  | true =>
    rw [if_pos rfl, BitVec.getLsbD_twoPow]
    simp [hj]

/-- **What an upper register reads as:** the block length comes back as
ones up to its highest. -/
theorem getLsbD_getUpper {i : ℕ} (hi : i < 32) : (b.setUpper v).getUpper.getLsbD i =
    if 2 ≤ i ∧ i < 17 then decide (i < 2 + (b.setUpper v).blShift.toNat) else v.getLsbD i := by
  have hk := blShift_setUpper_le b v
  have hbepi : (b.setUpper v).bepi.getLsbD i = (v.getLsbD i && decide (17 ≤ i)) :=
    Block.getLsbD_base 17 v i
  have hvs : (b.setUpper v).vs = v.getLsbD 1 := and_twoPow_ne_zero v 1 (by omega)
  have hvp : (b.setUpper v).vp = v.getLsbD 0 := and_twoPow_ne_zero v 0 (by omega)
  have hflag (f : Bool) : (if f then (2 : BitVec 32) else 0).getLsbD i = (f && decide (1 = i)) :=
    getLsbD_flag f 1 i (by omega)
  have hflag' (f : Bool) : (if f then (1 : BitVec 32) else 0).getLsbD i = (f && decide (0 = i)) :=
    getLsbD_flag f 0 i (by omega)
  rw [getUpper, BitVec.getLsbD_or, BitVec.getLsbD_or, BitVec.getLsbD_or, hbepi, hflag, hflag', hvs,
    hvp, BitVec.getLsbD_shiftLeft, getLsbD_ones (by omega)]
  generalize (b.setUpper v).blShift.toNat = k at hk
  by_cases h2 : i < 2
  · obtain rfl | rfl : i = 0 ∨ i = 1 := by omega
    · simp
    · simp
  · have h0 : ¬ 0 = i := by omega
    have h1 : ¬ 1 = i := by omega
    by_cases h17 : i < 17
    · have hlt : i - 2 < k ↔ i < 2 + k := by omega
      simp [h0, h1, h2, h17, hi, hlt, show 2 ≤ i by omega, show ¬ 17 ≤ i by omega]
    · simp [h0, h1, h17, show ¬ i - 2 < k by omega, show 17 ≤ i by omega]

/-- The length of a block is that of its ones. -/
theorem mFls_getUpper : mFls (((b.setUpper v).getUpper >>> 2) &&& 0x7ff#32) =
    (b.setUpper v).blShift := by
  have hk := blShift_setUpper_le b v
  have hones : ((b.setUpper v).getUpper >>> 2) &&& 0x7ff#32 =
      (1#32 <<< (b.setUpper v).blShift.toNat) - 1 := by
    apply BitVec.eq_of_getLsbD_eq
    intro i hi
    have hoff := Block.getLsbD_offset 11 ((b.setUpper v).getUpper >>> 2) i
    rw [show ((b.setUpper v).getUpper >>> 2) &&& 0x7ff#32 =
      Block.offset 11 ((b.setUpper v).getUpper >>> 2) from rfl, hoff, BitVec.getLsbD_ushiftRight,
      getLsbD_ones (by omega)]
    by_cases h11 : i < 11
    · have hlt : 2 + i < 2 + (b.setUpper v).blShift.toNat ↔ i < (b.setUpper v).blShift.toNat := by
        omega
      rw [getLsbD_getUpper b v (by omega), if_pos ⟨by omega, by omega⟩]
      simp [h11, hlt]
    · simp [h11, show ¬ i < (b.setUpper v).blShift.toNat by omega]
  apply BitVec.eq_of_toNat_eq
  rw [toNat_mFls, hones, toNat_ones (by omega)]
  generalize (b.setUpper v).blShift.toNat = k
  have hpos : 0 < 2 ^ k := Nat.two_pow_pos k
  apply Nat.le_antisymm
  · exact Nat.size_le.mpr (by omega)
  · rcases Nat.eq_zero_or_pos k with rfl | hk
    · exact Nat.zero_le _
    · have hhalf : 2 ^ k = 2 ^ (k - 1) * 2 := by
        rw [← Nat.pow_succ, Nat.succ_eq_add_one, Nat.sub_add_cancel hk]
      have hlow : 0 < 2 ^ (k - 1) := Nat.two_pow_pos _
      have hsize : k - 1 < Nat.size (2 ^ k - 1) := Nat.lt_size.mpr (by omega)
      omega

/-- **An upper register that has been written is settled.** -/
theorem setUpper_getUpper : (b.setUpper v).UpperSettled := by
  have hbepi : (b.setUpper v).getUpper &&& 0xfffe0000#32 = v &&& 0xfffe0000#32 := by
    apply BitVec.eq_of_getLsbD_eq
    intro i hi
    have hbase (x : BitVec 32) := Block.getLsbD_base 17 x i
    refine (hbase _).trans (Eq.trans ?_ (hbase v).symm)
    rw [getLsbD_getUpper b v hi]
    by_cases h17 : 17 ≤ i
    · rw [if_neg (by omega)]
    · simp [h17]
  have hvs : ((b.setUpper v).getUpper &&& 2#32 != 0#32) = (v &&& 2#32 != 0#32) := by
    refine (and_twoPow_ne_zero _ 1 (by omega)).trans
      (Eq.trans ?_ (and_twoPow_ne_zero v 1 (by omega)).symm)
    rw [getLsbD_getUpper b v (by omega), if_neg (by omega)]
  have hvp : ((b.setUpper v).getUpper &&& 1#32 != 0#32) = (v &&& 1#32 != 0#32) := by
    refine (and_twoPow_ne_zero _ 0 (by omega)).trans
      (Eq.trans ?_ (and_twoPow_ne_zero v 0 (by omega)).symm)
    rw [getLsbD_getUpper b v (by omega), if_neg (by omega)]
  have hbl := mFls_getUpper b v
  rw [UpperSettled]
  generalize (b.setUpper v).getUpper = u at *
  rw [setUpper, hbepi, hbl, hvs, hvp]
  rfl

/-- **A lower register that has been written is settled.** -/
theorem setLower_getLower : (b.setLower v).LowerSettled := by
  have hread : (b.setLower v).getLower =
      (v &&& 0xfffe0000#32) ||| (v &&& 0x78#32) ||| (v &&& 3#32) := rfl
  have hmask (x y z w : BitVec 32) : (v &&& x ||| v &&& y ||| v &&& z) &&& w =
      v &&& ((x ||| y ||| z) &&& w) := by
    rw [← BitVec.and_or_distrib_left, ← BitVec.and_or_distrib_left, BitVec.and_assoc]
  have hbrpn : (b.setLower v).getLower &&& 0xfffe0000#32 = v &&& 0xfffe0000#32 := by
    rw [hread, hmask]
    rfl
  have hwimg : (b.setLower v).getLower &&& 0x78#32 = v &&& 0x78#32 := by
    rw [hread, hmask]
    rfl
  have hpp : (b.setLower v).getLower &&& 3#32 = v &&& 3#32 := by
    rw [hread, hmask]
    rfl
  rw [LowerSettled]
  generalize (b.setLower v).getLower = u at *
  simp only [setLower, hbrpn, hwimg, hpp]

end Bat

namespace Seg

/-- What writing a segment register sets. -/
def unpack (v : BitVec 32) : Seg :=
  ⟨v &&& 0x00ffffff#32, v.getLsbD 30, v.getLsbD 29, v.getLsbD 28⟩

/-- **A segment register reads as the bits that it holds.** -/
theorem getLsbD_get (v : BitVec 32) (i : ℕ) : (unpack v).get.getLsbD i =
    (v.getLsbD i && decide (i < 24 ∨ 28 ≤ i ∧ i < 31)) := by
  have hvsid : (v &&& 0x00ffffff#32).getLsbD i = (v.getLsbD i && decide (i < 24)) :=
    Block.getLsbD_offset 24 v i
  have hflag (f : Bool) (j : ℕ) (hj : j < 32) :
      (if f then 1#32 <<< j else 0).getLsbD i = (f && decide (j = i)) := Bat.getLsbD_flag f j i hj
  rw [unpack, Seg.get, BitVec.getLsbD_or, BitVec.getLsbD_or, BitVec.getLsbD_or, hvsid,
    hflag _ 30 (by omega), hflag _ 29 (by omega), hflag _ 28 (by omega)]
  by_cases h24 : i < 24
  · simp [h24, show ¬ 30 = i by omega, show ¬ 29 = i by omega, show ¬ 28 = i by omega]
  · by_cases hkeys : 28 ≤ i ∧ i < 31
    · obtain rfl | rfl | rfl : i = 28 ∨ i = 29 ∨ i = 30 := by omega
      · simp
      · simp
      · simp
    · simp [h24, hkeys, show ¬ 30 = i by omega, show ¬ 29 = i by omega, show ¬ 28 = i by omega]

/-- **A segment register, written with what it reads as.** -/
theorem unpack_get (v : BitVec 32) : unpack (unpack v).get = unpack v := by
  have hvsid : (unpack v).get &&& 0x00ffffff#32 = v &&& 0x00ffffff#32 := by
    apply BitVec.eq_of_getLsbD_eq
    intro i _
    refine (Block.getLsbD_offset 24 _ i).trans (Eq.trans ?_ (Block.getLsbD_offset 24 v i).symm)
    rw [getLsbD_get]
    by_cases h24 : i < 24
    · simp [h24]
    · simp [h24]
  have hkey {i : ℕ} (hi : 28 ≤ i ∧ i < 31) : (unpack v).get.getLsbD i = v.getLsbD i := by
    rw [getLsbD_get, decide_eq_true (.inr hi), Bool.and_true]
  generalize (unpack v).get = u at *
  rw [unpack, hvsid, hkey ⟨by omega, by omega⟩, hkey ⟨by omega, by omega⟩,
    hkey ⟨by omega, by omega⟩]
  rfl

end Seg

namespace Mmu

/-- The registers that the MMU unpacks. -/
inductive TransReg where
  | ibatu (i : Fin 4)
  | ibatl (i : Fin 4)
  | dbatu (i : Fin 4)
  | dbatl (i : Fin 4)
  | sr (i : Fin 16)
  deriving DecidableEq, Repr

namespace TransReg

/-- Its setter. -/
def write (v : BitVec 32) : TransReg → MapOp
  | ibatu i => .setIBATupper i v
  | ibatl i => .setIBATlower i v
  | dbatu i => .setDBATupper i v
  | dbatl i => .setDBATlower i v
  | sr i => .setSegmentReg i v

/-- Its getter. -/
def read (m : Mmu) : TransReg → BitVec 32
  | ibatu i => m.getIBATupper i
  | ibatl i => m.getIBATlower i
  | dbatu i => m.getDBATupper i
  | dbatl i => m.getDBATlower i
  | sr i => m.getSegmentReg i

end TransReg

/-- Two MMUs that have the same registers, unpacked. -/
structure Alike (m m' : Mmu) : Prop where
  ibat : m'.ibat = m.ibat
  dbat : m'.dbat = m.dbat
  segreg : m'.segreg = m.segreg
  htabPhys : m'.htabPhys = m.htabPhys
  htabMask : m'.htabMask = m.htabMask
  enabled : ∀ inD, m'.enabled inD = m.enabled inD

/-- Writing a register with what it reads as would leave it as it is. -/
def TransReg.Settled (m : Mmu) (q : TransReg) : Prop :=
  Alike m ((q.write (q.read m)).apply m)

variable {m m' : Mmu}

/-- What that says of what the MMU holds. -/
theorem settled_iff (q : TransReg) : q.Settled m ↔ match q with
    | .ibatu i => (m.ibat i).UpperSettled
    | .ibatl i => (m.ibat i).LowerSettled
    | .dbatu i => (m.dbat i).UpperSettled
    | .dbatl i => (m.dbat i).LowerSettled
    | .sr i => Seg.unpack (m.segreg i).get = m.segreg i := by
  have hupdate {α : Type} {n : ℕ} {f : Fin n → α} {i : Fin n} {b : α} :
      Function.update f i b = f ↔ b = f i :=
    Function.update_eq_self_iff
  cases q with
  | ibatu i => exact ⟨fun h => hupdate.mp h.ibat,
      fun h => ⟨hupdate.mpr h, rfl, rfl, rfl, rfl, fun _ => rfl⟩⟩
  | ibatl i => exact ⟨fun h => hupdate.mp h.ibat,
      fun h => ⟨hupdate.mpr h, rfl, rfl, rfl, rfl, fun _ => rfl⟩⟩
  | dbatu i => exact ⟨fun h => hupdate.mp h.dbat,
      fun h => ⟨rfl, hupdate.mpr h, rfl, rfl, rfl, fun _ => rfl⟩⟩
  | dbatl i => exact ⟨fun h => hupdate.mp h.dbat,
      fun h => ⟨rfl, hupdate.mpr h, rfl, rfl, rfl, fun _ => rfl⟩⟩
  | sr i => exact ⟨fun h => hupdate.mp h.segreg,
      fun h => ⟨rfl, rfl, hupdate.mpr h, rfl, rfl, fun _ => rfl⟩⟩

/-- A place of an array that is written. -/
theorem of_update {α : Type} {n : ℕ} {P : α → Prop} {f : Fin n → α} {i j : Fin n} {b : α}
    (h : P (f i)) (hb : i = j → P b) : P (Function.update f j b i) := by
  by_cases hij : i = j
  · subst hij
    rw [Function.update_self]
    exact hb rfl
  · rwa [Function.update_of_ne hij]

/-- **Set, get and set is set.** -/
theorem settled_write (q : TransReg) (v : BitVec 32) (m : Mmu) :
    q.Settled ((q.write v).apply m) := by
  have hself {α : Type} {n : ℕ} (P : α → Prop) (f : Fin n → α) (i : Fin n) {b : α} (h : P b) :
      P (Function.update f i b i) := by rwa [Function.update_self]
  rw [settled_iff]
  cases q with
  | ibatu i =>
    exact hself Bat.UpperSettled m.ibat i (Bat.setUpper_getUpper ..)
  | ibatl i =>
    exact hself Bat.LowerSettled m.ibat i (Bat.setLower_getLower ..)
  | dbatu i =>
    exact hself Bat.UpperSettled m.dbat i (Bat.setUpper_getUpper ..)
  | dbatl i =>
    exact hself Bat.LowerSettled m.dbat i (Bat.setLower_getLower ..)
  | sr i =>
    exact hself (fun s : Seg => Seg.unpack s.get = s) m.segreg i (Seg.unpack_get v)

/-- A register that is settled stays so, whatever is written. -/
theorem settled_apply {q : TransReg} (h : q.Settled m) (op : MapOp) :
    q.Settled (op.apply m) := by
  rw [settled_iff] at h ⊢
  cases q with
  | ibatu i =>
    cases op with
    | setIBATupper j v => exact of_update (P := Bat.UpperSettled) h fun _ => Bat.setUpper_getUpper ..
    | setIBATlower j v =>
      refine of_update (P := Bat.UpperSettled) h fun hij => ?_
      subst hij
      exact congrArg (Bat.setLower · v) h
    | _ => exact h
  | ibatl i =>
    cases op with
    | setIBATlower j v => exact of_update (P := Bat.LowerSettled) h fun _ => Bat.setLower_getLower ..
    | setIBATupper j v =>
      refine of_update (P := Bat.LowerSettled) h fun hij => ?_
      subst hij
      exact congrArg (Bat.setUpper · v) h
    | _ => exact h
  | dbatu i =>
    cases op with
    | setDBATupper j v => exact of_update (P := Bat.UpperSettled) h fun _ => Bat.setUpper_getUpper ..
    | setDBATlower j v =>
      refine of_update (P := Bat.UpperSettled) h fun hij => ?_
      subst hij
      exact congrArg (Bat.setLower · v) h
    | _ => exact h
  | dbatl i =>
    cases op with
    | setDBATlower j v => exact of_update (P := Bat.LowerSettled) h fun _ => Bat.setLower_getLower ..
    | setDBATupper j v =>
      refine of_update (P := Bat.LowerSettled) h fun hij => ?_
      subst hij
      exact congrArg (Bat.setUpper · v) h
    | _ => exact h
  | sr i =>
    cases op with
    | setSegmentReg j v =>
      exact of_update (P := fun s : Seg => Seg.unpack s.get = s) h fun _ => Seg.unpack_get v
    | _ => exact h

/-! ## Runs -/

section

variable {c : Config} {q : TransReg}

theorem settled_of_registers (h : q.Settled m) (hr : m'.registers = m.registers) :
    q.Settled m' := by
  have hibat : m'.ibat = m.ibat := by
    change m'.registers.ibat = m.registers.ibat
    rw [hr]
  have hdbat : m'.dbat = m.dbat := by
    change m'.registers.dbat = m.registers.dbat
    rw [hr]
  have hsegreg : m'.segreg = m.segreg := by
    change m'.registers.segreg = m.registers.segreg
    rw [hr]
  rw [settled_iff] at h ⊢
  rw [hibat, hdbat, hsegreg]
  exact h

/-- A step keeps a register settled, and the one that writes it settles it. -/
theorem settled_step {s t : RunState} {e : Event} (hstep : Step c s e t)
    (h : q.Settled s.mem.mmu ∨ ∃ v, e = .map (q.write v)) : q.Settled t.mem.mmu := by
  cases hstep with
  | translate hstale hw ht =>
    rcases h with h | ⟨v, he⟩
    · exact settled_of_registers h (keeps_translateAddr.of_ok ht).registers
    · cases he
  | map op =>
    rcases h with h | ⟨v, he⟩
    · exact settled_apply h op
    · cases he
      exact settled_write q v _
  | outside hsame =>
    rcases h with h | ⟨v, he⟩
    · exact h
    · cases he
  | table sys =>
    rcases h with h | ⟨v, he⟩
    · exact h
    · cases he

/-- **A register that a run has written is settled.** -/
theorem settled_of_run {s t : RunState} {es : List Event} (hrun : Steps (Step c) s es t)
    (h : q.Settled s.mem.mmu ∨ ∃ v, .map (q.write v) ∈ es) : q.Settled t.mem.mmu := by
  induction hrun with
  | nil =>
    rcases h with h | ⟨v, hv⟩
    · exact h
    · cases hv
  | snoc run last ih =>
    rcases h with h | ⟨v, hv⟩
    · exact settled_step last (.inl (ih (.inl h)))
    · rcases List.mem_append.mp hv with hv | hv
      · exact settled_step last (.inl (ih (.inr ⟨v, hv⟩)))
      · exact settled_step last (.inr ⟨v, (List.mem_singleton.mp hv).symm⟩)

end

/-! ## MMUs that are alike -/

namespace Alike

variable {c : Config} {mem : HostMem} {addr : VA} {inD rnW priv : Bool}

theorem side (h : Alike m m') (inD : Bool) : SameSide inD m m' where
  bats := by cases inD <;> [exact h.dbat; exact h.ibat]
  segreg := h.segreg
  htabPhys := h.htabPhys
  htabMask := h.htabMask

/-- They walk alike. -/
theorem resolve (h : Alike m m') :
    Mmu.resolve c m' mem addr inD rnW priv = Mmu.resolve c m mem addr inD rnW priv := by
  rw [Mmu.resolve, Mmu.resolve, h.enabled, (h.side inD).route, (h.side inD).segOf]

theorem walkInRam (h : Alike m m') (hw : WalkInRam c.map m addr inD priv) :
    WalkInRam c.map m' addr inD priv := by
  rw [WalkInRam, h.enabled, (h.side inD).matchBAT, (h.side inD).segOf, TableInRam,
    (h.side inD).pteSlots]
  exact hw

/-- They are to answer alike. -/
theorem answers (h : Alike m m') {o : Out Abort Mem (Except Fault HVA)}
    (ho : Answers c m' mem addr inD rnW priv (fun t : Mem => t.sys.mem) o) :
    Answers c m mem addr inD rnW priv (fun t : Mem => t.sys.mem) o := by
  simp only [Answers, uncached, Unanswered, h.resolve] at ho ⊢
  exact ho

end Alike

/-! ## Two calls compared -/

/-- Two calls return the same and leave the same memory, or both end the
simulator, for the same reason. -/
inductive SameAnswer :
    Out Abort Mem (Except Fault HVA) → Out Abort Mem (Except Fault HVA) → Prop where
  | ok {res : Except Fault HVA} {t u : Mem} (hmem : u.sys.mem = t.sys.mem) :
      SameAnswer (.ok res t) (.ok res u)
  | abort {e : Abort} {t u : Mem} : SameAnswer (.abort e t) (.abort e u)

section

variable {c : Config} {mem : HostMem} {addr : VA} {inD rnW priv : Bool}

/-- What answers as a walk does, answers the same. -/
theorem Answers.same {o o' : Out Abort Mem (Except Fault HVA)}
    (h : Answers c m mem addr inD rnW priv (fun t : Mem => t.sys.mem) o)
    (h' : Answers c m mem addr inD rnW priv (fun t : Mem => t.sys.mem) o') :
    SameAnswer o o' ∨ ∃ pa, Unanswered c m mem addr inD rnW priv pa := by
  rcases h with ⟨t, rfl, hmem⟩ | ⟨pa, t, hun, -⟩
  · rcases h' with ⟨u, rfl, hmem'⟩ | ⟨pa, u, hun, -⟩
    · exact .inl (.ok (hmem'.trans hmem.symm))
    · exact .inr ⟨pa, hun⟩
  · exact .inr ⟨pa, hun⟩

/-- **MMUs that are alike, with nothing in their uTLBs,** answer the same. -/
theorem Alike.sameAnswer {sys : Sys} (h : Alike m m') (hm : ∀ a idx, m.utlb a idx = ⟨0, 0⟩)
    (hm' : ∀ a idx, m'.utlb a idx = ⟨0, 0⟩) (hw : WalkInRam c.map m addr inD priv) :
    SameAnswer (translateAddr c addr inD rnW priv ⟨m, sys⟩)
      (translateAddr c addr inD rnW priv ⟨m', sys⟩) := by
  have hdo := doLookup_eq (c := c) (s := ⟨m, sys⟩) rnW hw 1
  have hdo' := doLookup_eq (c := c) (s := ⟨m', sys⟩) rnW (h.walkInRam hw) 1
  rw [translateAddr_of_empty (s := ⟨m, sys⟩) hm, translateAddr_of_empty (s := ⟨m', sys⟩) hm']
  simp only [h.resolve] at hdo'
  rcases hdo with ⟨f, i, hr, hd⟩ | ⟨r, t, hr, ht, hd⟩ | ⟨r, k, i, hr, ht, hd⟩
  · rcases hdo' with ⟨f', i', hr', hd'⟩ | ⟨r', t', hr', -⟩ | ⟨r', k', i', hr', -⟩
    · cases hr.symm.trans hr'
      rw [hd, hd']
      exact .ok rfl
    · cases hr.symm.trans hr'
    · cases hr.symm.trans hr'
  · rcases hdo' with ⟨f', i', hr', -⟩ | ⟨r', t', hr', -, hd'⟩ | ⟨r', k', i', hr', ht', -⟩
    · cases hr.symm.trans hr'
    · cases hr.symm.trans hr'
      rw [hd, hd']
      exact .abort
    · cases hr.symm.trans hr'
      cases ht.symm.trans ht'
  · rcases hdo' with ⟨f', i', hr', -⟩ | ⟨r', t', hr', ht', -⟩ | ⟨r', k', i', hr', ht', hd'⟩
    · cases hr.symm.trans hr'
    · cases hr.symm.trans hr'
      cases ht.symm.trans ht'
    · cases hr.symm.trans hr'
      cases ht.symm.trans ht'
      rw [hd, hd']
      exact .ok rfl

end

end Mmu

/-! ## The checkpoint -/

namespace StateSave

open Mmu Reference

variable {pcs : CpuState} {m m₁ : Mmu}

/-- The value that a checkpoint holds under a name. -/
def savedValue (pcs : CpuState) (mmu : Mmu) (name : String) : BitVec 32 :=
  (((savedRegisters pcs mmu).lookup name).getD 0).setWidth 32

/-- The translation registers of a checkpoint. -/
def checkpoint (pcs : CpuState) (mmu : Mmu) : Registers where
  ibatu i := savedValue pcs mmu ("IBAT" ++ toString i.val ++ "U")
  ibatl i := savedValue pcs mmu ("IBAT" ++ toString i.val ++ "L")
  dbatu i := savedValue pcs mmu ("DBAT" ++ toString i.val ++ "U")
  dbatl i := savedValue pcs mmu ("DBAT" ++ toString i.val ++ "L")
  sr i := savedValue pcs mmu ("SR" ++ twoDigits i)
  sdr1 := savedValue pcs mmu "SDR1"
  ir := savedValue pcs mmu "MSR" &&& msrIR != 0
  dr := savedValue pcs mmu "MSR" &&& msrDR != 0

/-- A key of a list that has it once. -/
theorem lookup_of_mem {α : Type} {l : List (String × α)} {k : String} {v : α}
    (hl : (l.map Prod.fst).Nodup) (h : (k, v) ∈ l) : l.lookup k = some v := by
  induction l with
  | nil => cases h
  | cons p l ih =>
    rw [List.map_cons, List.nodup_cons] at hl
    rcases List.mem_cons.mp h with rfl | h
    · exact List.lookup_cons_self
    · have hne : k ≠ p.1 := by
        rintro rfl
        exact hl.1 (List.mem_map.mpr ⟨_, h, rfl⟩)
      rw [List.lookup_cons, beq_false_of_ne hne]
      exact ih hl.2 h

/-- **What is saved under a name is found there.** -/
theorem savedValue_of_mem {name : String} {v : BitVec 32}
    (h : (name, v.setWidth 64) ∈ savedRegisters pcs m) : savedValue pcs m name = v := by
  have hnames : ((savedRegisters pcs m).map Prod.fst).Nodup := by
    have hnodup := registerNames_nodup
    rw [List.nodup_cons, List.nodup_cons, ← map_savedRegisters pcs m] at hnodup
    exact List.Pairwise.of_map strncpy (fun _ _ hne heq => hne (congrArg _ heq)) hnodup.2.2
  rw [savedValue, lookup_of_mem hnames h]
  exact BitVec.setWidth_setWidth_of_le v (by decide)

/-- **A checkpoint holds the registers.** -/
theorem checkpoint_eq (pcs : CpuState) (m : Mmu) : checkpoint pcs m =
    ⟨m.getIBATupper, m.getIBATlower, m.getDBATupper, m.getDBATlower, m.getSegmentReg, pcs.os.sdr1,
      pcs.os.msr &&& msrIR != 0, pcs.os.msr &&& msrDR != 0⟩ := by
  have hbat (i : Fin 4) {p : String × BitVec 64}
      (hp : p ∈ [("IBAT" ++ toString i.val ++ "U", (m.getIBATupper i).setWidth 64),
        ("IBAT" ++ toString i.val ++ "L", (m.getIBATlower i).setWidth 64),
        ("DBAT" ++ toString i.val ++ "U", (m.getDBATupper i).setWidth 64),
        ("DBAT" ++ toString i.val ++ "L", (m.getDBATlower i).setWidth 64)]) :
      p ∈ savedRegisters pcs m :=
    List.mem_append_left _ (List.mem_append_right _
      (List.mem_flatMap.mpr ⟨i, List.mem_finRange i, hp⟩))
  have hsr (i : Fin 16) :
      ("SR" ++ twoDigits i, (m.getSegmentReg i).setWidth 64) ∈ savedRegisters pcs m :=
    List.mem_append_left _ (List.mem_append_left _ (List.mem_append_right _
      (List.mem_map.mpr ⟨i, List.mem_finRange i, rfl⟩)))
  have hmsr : ("MSR", pcs.os.msr.setWidth 64) ∈ savedRegisters pcs m := by
    simp [savedRegisters]
  have hsdr1 : ("SDR1", pcs.os.sdr1.setWidth 64) ∈ savedRegisters pcs m := by
    simp [savedRegisters]
  rw [checkpoint, savedValue_of_mem hmsr, savedValue_of_mem hsdr1]
  congr 1
  · exact funext fun i => savedValue_of_mem (hbat i (by simp))
  · exact funext fun i => savedValue_of_mem (hbat i (by simp))
  · exact funext fun i => savedValue_of_mem (hbat i (by simp))
  · exact funext fun i => savedValue_of_mem (hbat i (by simp))
  · exact funext fun i => savedValue_of_mem (hsr i)

/-- The MMU has SDR1, and translation switched, as the processor has them. -/
structure Serves (pcs : CpuState) (m : Mmu) : Prop where
  htabPhys : m.htabPhys = pcs.os.sdr1 &&& 0xffff0000#32
  htabMask : m.htabMask = pcs.os.sdr1 &&& 0x1ff#32
  enabledI : m.enabledI = (pcs.os.msr &&& msrIR != 0)
  enabledD : m.enabledD = (pcs.os.msr &&& msrDR != 0)

/-- **An MMU whose registers are reloaded is like the one saved.** -/
theorem alike_program (m₁ : Mmu) (hset : ∀ q : TransReg, q.Settled m) (hpcs : Serves pcs m) :
    Alike m (m₁.program (checkpoint pcs m)) := by
  have hprog := programmed_program m₁ (checkpoint pcs m)
  rw [checkpoint_eq] at hprog ⊢
  constructor
  · funext i
    obtain ⟨b, hb⟩ := hprog.ibat i
    have hupper : (m.ibat i).UpperSettled := (settled_iff (.ibatu i)).mp (hset _)
    have hlower : (m.ibat i).LowerSettled := (settled_iff (.ibatl i)).mp (hset _)
    rw [hb]
    -- the two writes together set every field
    exact (congrArg (Bat.setLower · (m.ibat i).getLower) hupper).trans hlower
  · funext i
    obtain ⟨b, hb⟩ := hprog.dbat i
    have hupper : (m.dbat i).UpperSettled := (settled_iff (.dbatu i)).mp (hset _)
    have hlower : (m.dbat i).LowerSettled := (settled_iff (.dbatl i)).mp (hset _)
    rw [hb]
    exact (congrArg (Bat.setLower · (m.dbat i).getLower) hupper).trans hlower
  · funext i
    rw [hprog.segreg i]
    exact (settled_iff (.sr i)).mp (hset _)
  · rw [hprog.htabPhys, hpcs.htabPhys]
  · rw [hprog.htabMask, hpcs.htabMask]
  · intro inD
    rw [hprog.enabled]
    cases inD with
    | false => exact hpcs.enabledD.symm
    | true => exact hpcs.enabledI.symm

/-- **Reloaded registers translate as those saved.** Writing back what is
read from a register that has been written changes nothing; so, after any
run that has written the BATs and segment registers, the MMU reloaded from
a checkpoint has the registers that it had, and gives every access the
answer that it would have given with its uTLB emptied, and the answer that
it gave, unless the hash table has been changed under the uTLB or no
device answers the translated address. -/
theorem reloaded_translates {c : Config} {m₀ : Mmu} {sys : Sys} {es : List Mmu.Event}
    {s : RunState} (hrun : Steps (Mmu.Step c) (.init m₀ sys) es s)
    (hwritten : ∀ q : TransReg, q.Settled m₀.construct ∨ ∃ v, .map (q.write v) ∈ es)
    (hpcs : Serves pcs s.mem.mmu) (m₁ : Mmu) :
    (∀ (q : TransReg) (v : BitVec 32) (m : Mmu), q.Settled ((q.write v).apply m)) ∧
    let reloaded := m₁.program (checkpoint pcs s.mem.mmu)
    Alike s.mem.mmu reloaded ∧
    ∀ addr inD rnW priv, WalkInRam c.map s.mem.mmu addr inD priv → (inD = true → rnW = true) →
      SameAnswer (translateAddr c addr inD rnW priv ⟨s.mem.mmu.tlbia, s.mem.sys⟩)
        (translateAddr c addr inD rnW priv ⟨reloaded, s.mem.sys⟩) ∧
      (s.stale = false →
        SameAnswer (translateAddr c addr inD rnW priv s.mem)
          (translateAddr c addr inD rnW priv ⟨reloaded, s.mem.sys⟩) ∨
        ∃ pa, Unanswered c s.mem.mmu s.mem.sys.mem addr inD rnW priv pa) := by
  have halike := alike_program m₁ (fun q => settled_of_run hrun (hwritten q)) hpcs
  have hempty := (programmed_program m₁ (checkpoint pcs s.mem.mmu)).empty
  refine ⟨fun q v m => settled_write q v m, halike, fun addr inD rnW priv hw hfetch => ⟨?_, ?_⟩⟩
  · have hflush : Alike s.mem.mmu.tlbia (m₁.program (checkpoint pcs s.mem.mmu)) :=
      ⟨halike.ibat, halike.dbat, halike.segreg, halike.htabPhys, halike.htabMask, halike.enabled⟩
    exact hflush.sameAnswer (fun a idx => by cases a <;> rfl) hempty hw
  · intro hstale
    have hreloaded : Coherent c ⟨m₁.program (checkpoint pcs s.mem.mmu), s.mem.sys⟩ :=
      coherent_of_empty hempty
    exact (translateAddr_answers (runInv_of_run hrun hstale) hw hfetch).same
      (halike.answers (translateAddr_answers hreloaded (halike.walkInRam hw) hfetch))

/-- A processor with the registers that lead to the sample table. -/
def pagedCpu : CpuState :=
  { CpuState.construct with os := { CpuState.construct.os with sdr1 := 0x10000, msr := msrDR } }

/-- What holds zeroes is settled. -/
theorem settled_zero (q : TransReg) : q.Settled zero.construct := by
  let b : Bat := ⟨0, 0, false, false, 0, 0, 0, rfl⟩
  have hupper : b.setUpper b.getUpper = b := by decide
  have hlower : b.setLower b.getLower = b := by decide
  have hseg : Seg.unpack (Seg.get ⟨0, false, false, false⟩) = ⟨0, false, false, false⟩ := by decide
  rw [settled_iff]
  cases q with
  | ibatu i => exact hupper
  | ibatl i => exact hlower
  | dbatu i => exact hupper
  | dbatl i => exact hlower
  | sr i => exact hseg

theorem serves_of_registers (h : Serves pcs m) {m' : Mmu} (hr : m'.registers = m.registers) :
    Serves pcs m' := by
  have hphys : m'.registers.htabPhys = pcs.os.sdr1 &&& 0xffff0000#32 := hr ▸ h.htabPhys
  have hmask : m'.registers.htabMask = pcs.os.sdr1 &&& 0x1ff#32 := hr ▸ h.htabMask
  exact ⟨hphys, hmask, (enabledI_of_registers hr).trans h.enabledI,
    (enabledD_of_registers hr).trans h.enabledD⟩

/-- A store to the page of a table, with the registers reloaded. -/
theorem reloaded_translates_paged :
    SameAnswer (translateAddr (.quiet .default) 0x1000 false false true ⟨paged.tlbia, .onePage⟩)
      (translateAddr (.quiet .default) 0x1000 false false true
        ⟨zero.program (checkpoint pagedCpu paged), .onePage⟩) :=
  ((reloaded_translates (steps_paged .default .onePage) (fun q => .inl (settled_zero q))
    ⟨rfl, rfl, rfl, rfl⟩ zero).2.2 0x1000 false false true (walkInRam_paged .default false true)
    fun h => by cases h).1

/-- **Where the answers differ.** An entry of the uTLB outlives what the
table said; and it serves the whole page of which a device answers the
first bytes. Neither is in a checkpoint. -/
theorem reloaded_answers_differ :
    (∃ s h t f u, Steps (Mmu.Step (.quiet .default)) (.init zero .onePage)
        [.map (.setSDR1 0x10000), .map (.setIRDR false true), .translate 0x1000 false true true,
          .outside] s ∧ Serves pagedCpu s.mem.mmu ∧
      translateAddr (.quiet .default) 0x1000 false true true s.mem = .ok (.ok h) t ∧
      translateAddr (.quiet .default) 0x1000 false true true
        ⟨zero.program (checkpoint pagedCpu s.mem.mmu), s.mem.sys⟩ = .ok (.error f) u) ∧
    ∃ s h t, Steps (Mmu.Step (.quiet .default)) (.init zero .fresh)
        [.translate 0x82000000 false true true] s ∧ Serves .construct s.mem.mmu ∧
      s.stale = false ∧
      translateAddr (.quiet .default) 0x82000800 false true true s.mem = .ok (.ok h) t ∧
      ∀ res u, translateAddr (.quiet .default) 0x82000800 false true true
        ⟨zero.program (checkpoint .construct s.mem.mmu), s.mem.sys⟩ ≠ .ok res u := by
  constructor
  · have key : (translateAddr (.quiet .default) 0x1000 false true true ⟨paged, .onePage⟩).test
        fun _ m => ((translateAddr (.quiet .default) 0x1000 false true true
            ⟨m.mmu, .fresh⟩).test fun res _ => res.toBool) &&
          (translateAddr (.quiet .default) 0x1000 false true true
            ⟨zero.program (checkpoint pagedCpu m.mmu), .fresh⟩).test fun res _ =>
              !res.toBool := by
      simp only [checkpoint_eq]
      decide +kernel
    obtain ⟨_, m, hm, h⟩ := Out.of_test key
    rw [Bool.and_eq_true] at h
    obtain ⟨res, t, ht, hres⟩ := Out.of_test h.1
    obtain ⟨res', u, hu, hres'⟩ := Out.of_test h.2
    cases res with
    | error f => cases hres
    | ok k =>
      cases res' with
      | ok k' => cases hres'
      | error f =>
        have hrun := ((steps_paged .default .onePage).snoc
          (.translate rfl (walkInRam_paged .default false true) hm)).snoc (.table .fresh)
        have hserves : Serves pagedCpu m.mmu :=
          serves_of_registers (m := paged) ⟨rfl, rfl, rfl, rfl⟩
            (keeps_translateAddr.of_ok hm).registers
        exact ⟨_, k, t, f, u, hrun, hserves, ht, hu⟩
  · have key : (translateAddr (.quiet .default) 0x82000000 false true true
        ⟨zero.construct, .fresh⟩).test fun _ m =>
          ((translateAddr (.quiet .default) 0x82000800 false true true m).test
            fun res _ => res.toBool) &&
          !(translateAddr (.quiet .default) 0x82000800 false true true
            ⟨zero.program (checkpoint .construct m.mmu), m.sys⟩).test fun _ _ => true := by
      simp only [checkpoint_eq]
      decide +kernel
    obtain ⟨_, m, hm, h⟩ := Out.of_test key
    rw [Bool.and_eq_true, Bool.not_eq_true'] at h
    obtain ⟨res, t, ht, hres⟩ := Out.of_test h.1
    cases res with
    | error f => cases hres
    | ok k =>
      have hserves : Serves .construct m.mmu :=
        serves_of_registers (m := zero.construct) ⟨rfl, rfl, rfl, rfl⟩
          (keeps_translateAddr.of_ok hm).registers
      refine ⟨⟨m, false⟩, k, t, .single (.translate rfl (walkInRam_of_off rfl) hm), hserves, rfl, ht,
        fun res u heq => ?_⟩
      have hno := h.2
      rw [heq] at hno
      cases hno

end StateSave

end MrIss
