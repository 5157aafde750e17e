import MrIss.Jit.Generate
/-!
# Allocation and the accounts of the buffer

What `allocBlock` writes, and how much room it promises: the generator may
write up to the grace and a call beyond it, and is still in the buffer.
-/

namespace MrIss

namespace Jit

open Arena (peek poke Within)

variable {buf : Buffer} {s : BlockStore} {m : Arena.Mem} {b : ℕ} {pc : VA} {pcPa : PA} {msr : Reg}

@[simp] theorem headerlen_eq : headerlen = 64 := rfl

theorem blockCodeptr_eq : blockCodeptr b = b + 64 := rfl

/-! ## Alignment -/

theorem le_alignTo (x : ℕ) : x ≤ alignTo x 64 := by
  unfold alignTo
  omega

/-- Aligning does not pass an aligned address. -/
theorem alignTo_le {x y : ℕ} (h : x ≤ y) (hy : 64 ∣ y) : alignTo x 64 ≤ y := by
  unfold alignTo
  omega

theorem Buffer.aligned_end (buf : Buffer) : 64 ∣ buf.base + bsCodeSize := by
  have h := buf.aligned
  unfold bsCodeSize
  omega

/-! ## Headers -/

theorem within_setNext (m : Arena.Mem) (b next : ℕ) : Within b (b + 8) m (setNext m b next) :=
  .poke (by omega) (by omega)

theorem within_setCodelen (m : Arena.Mem) (b codelen : ℕ) :
    Within (b + 20) (b + 24) m (setCodelen m b codelen) := .poke (by omega) (by omega)

/-- A header takes 24 bytes. -/
theorem within_setHeader : Within b (b + 24) m (setHeader m b pc pcPa msr) :=
  have hfield (m : Arena.Mem) (k n v : ℕ) (h : k + n ≤ 24) :
      Within b (b + 24) m (poke m (b + k) n v) := .poke (by omega) (by omega)
  ((((hfield _ 8 4 _ (by decide)).trans (hfield _ 12 4 _ (by decide))).trans
    (hfield _ 16 4 _ (by decide))).trans (hfield _ 20 4 _ (by decide))).trans
    (hfield _ 0 8 _ (by decide))

theorem getNext_setHeader : getNext (setHeader m b pc pcPa msr) b = 0 :=
  Arena.peek_poke (by decide)

/-- A field is as it was set, if it is not written again. -/
theorem word_poke (m : Arena.Mem) (a : ℕ) (v : BitVec 32) :
    BitVec.ofNat 32 (peek (poke m a 4 v.toNat) a 4) = v := by
  rw [Arena.peek_poke (show v.toNat < 256 ^ 4 from v.isLt), BitVec.ofNat_toNat, BitVec.setWidth_eq]

theorem getPc_setHeader : getPc (setHeader m b pc pcPa msr) b = pc := by
  simp (disch := omega) only [getPc, setHeader, setNext, setCodelen, setMsr, setPcPa, setPc,
    Arena.peek_poke_apart, word_poke]

theorem getPcPa_setHeader : getPcPa (setHeader m b pc pcPa msr) b = pcPa := by
  simp (disch := omega) only [getPcPa, setHeader, setNext, setCodelen, setMsr, setPcPa,
    Arena.peek_poke_apart, word_poke]

theorem getMsr_setHeader : getMsr (setHeader m b pc pcPa msr) b = msr := by
  simp (disch := omega) only [getMsr, setHeader, setNext, setCodelen, setMsr,
    Arena.peek_poke_apart, word_poke]

/-- The fields of a header that blocks are found by. -/
structure Header (m : Arena.Mem) (b : ℕ) (pc : VA) (pcPa : PA) (msr : Reg) : Prop where
  pc : getPc m b = pc
  pcPa : getPcPa m b = pcPa
  msr : getMsr m b = msr

/-- Writes that spare the fields keep them. -/
theorem Header.of_within {m' : Arena.Mem} {lo hi : ℕ} (h : Header m b pc pcPa msr)
    (hw : Within lo hi m m') (hn : b + 20 ≤ lo ∨ hi ≤ b + 8) : Header m' b pc pcPa msr where
  pc := by rw [getPc, hw.peek_eq (by omega)]; exact h.pc
  pcPa := by rw [getPcPa, hw.peek_eq (by omega)]; exact h.pcPa
  msr := by rw [getMsr, hw.peek_eq (by omega)]; exact h.msr

theorem header_setHeader : Header (setHeader m b pc pcPa msr) b pc pcPa msr :=
  ⟨getPc_setHeader, getPcPa_setHeader, getMsr_setHeader⟩

/-! ## `allocBlock` -/

/-- There is room for a block of some size. -/
theorem makeRoom_last (buf : Buffer) (s : BlockStore) :
    (makeRoom buf s).blockBufferLast - buf.base ≤ bsCodeSize - bsFumes := by
  unfold makeRoom
  split_ifs with h
  · simp [resetBlockstore]
  · exact Nat.le_of_not_lt h

/-- The store with the header of a block, before the block is generated. -/
def withHeader (s : BlockStore) (pc : VA) (pcPa : PA) (msr : Reg) : BlockStore :=
  let b := s.blockBufferLast
  bsHmInsert pcPa msr b { s with mem := setHeader s.mem b pc pcPa msr }

@[simp] theorem withHeader_last :
    (withHeader s pc pcPa msr).blockBufferLast = s.blockBufferLast := rfl

@[simp] theorem withHeader_trace : (withHeader s pc pcPa msr).trace = s.trace := rfl

@[simp] theorem withHeader_hashmap : (withHeader s pc pcPa msr).bsHashmap =
    Function.update s.bsHashmap (hashIdx pcPa msr) s.blockBufferLast := rfl

theorem withHeader_mem : (withHeader s pc pcPa msr).mem =
    if s.bsHashmap (hashIdx pcPa msr) ≠ 0 then
      setNext (setHeader s.mem s.blockBufferLast pc pcPa msr) s.blockBufferLast
        (s.bsHashmap (hashIdx pcPa msr))
    else setHeader s.mem s.blockBufferLast pc pcPa msr := rfl

theorem within_withHeader : Within s.blockBufferLast (s.blockBufferLast + 24) s.mem
    (withHeader s pc pcPa msr).mem := by
  rw [withHeader_mem]
  split
  · exact within_setHeader.trans ((within_setNext _ _ _).mono (by omega) (by omega))
  · exact within_setHeader

theorem header_withHeader :
    Header (withHeader s pc pcPa msr).mem s.blockBufferLast pc pcPa msr := by
  rw [withHeader_mem]
  split
  · exact header_setHeader.of_within (within_setNext _ _ _) (.inr (by omega))
  · exact header_setHeader

/-- The block is linked to the head of its chain. -/
theorem getNext_withHeader (h : s.bsHashmap (hashIdx pcPa msr) < 2 ^ 64) :
    getNext (withHeader s pc pcPa msr).mem s.blockBufferLast =
      s.bsHashmap (hashIdx pcPa msr) := by
  rw [withHeader_mem]
  split_ifs with hnull
  · exact Arena.peek_poke (show s.bsHashmap (hashIdx pcPa msr) < 256 ^ 8 by omega)
  · rw [ne_eq, Classical.not_not] at hnull
    rw [hnull, getNext_setHeader]

/-- **The room for code ends before the grace.** -/
theorem codeptr_add_bytesAvail (hle : buf.base ≤ s.blockBufferLast)
    (hroom : s.blockBufferLast - buf.base ≤ bsCodeSize - bsFumes) :
    blockCodeptr s.blockBufferLast + bytesAvail buf s = buf.base + (bsCodeSize - bsGrace) := by
  simp only [bytesAvail, blockCodeptr, headerlen_eq, bsCodeSize, bsFumes, bsGrace] at hroom ⊢
  omega

/-- There are bytes for a prologue, and for a call. -/
theorem le_bytesAvail (hle : buf.base ≤ s.blockBufferLast)
    (hroom : s.blockBufferLast - buf.base ≤ bsCodeSize - bsFumes) : 860 ≤ bytesAvail buf s := by
  have h := codeptr_add_bytesAvail hle hroom
  simp only [blockCodeptr_eq, bsCodeSize, bsFumes, bsGrace] at hroom h
  omega

end Jit

end MrIss
