import MrIss.Jit.Alloc
import MrIss.Lib.Run
/-!
# Blocks stay whole

The blocks created since the last reset lie in the buffer with all of their
code, below the place of the next block or in a buffer so full that the
next block is preceded by a reset; and the chains of the hash table run
through them from the newest to the oldest.
-/

namespace MrIss

namespace Jit

open EarlyReturn Run
open Arena (Within)

variable {buf : Buffer} {c : Config} {d : Decoder} {s t : BlockStore} {b : Made} {p : CpuState}

/-! ## What a block is to be -/

/-- The code that a block is to have. -/
def Made.code (d : Decoder) (b : Made) : ByteFile.Bytes :=
  prologue ++ d.calls (blockCodeptr b.ptr + prologue.length) (b.insts.map Prod.snd) ++
    epilogue b.insts.length

/-- Where a block ends. -/
def Made.stop (d : Decoder) (b : Made) : ℕ := blockCodeptr b.ptr + (b.code d).length

/-- A block has its header and all of its code. -/
structure Made.Intact (d : Decoder) (m : Arena.Mem) (b : Made) : Prop where
  header : Header m b.ptr b.pc b.pcPa b.msr
  code : Arena.read m (blockCodeptr b.ptr) (b.code d).length = b.code d

/-- A block lies in the buffer. -/
def Made.Inside (buf : Buffer) (d : Decoder) (b : Made) : Prop :=
  buf.base ≤ b.ptr ∧ b.stop d ≤ buf.base + bsCodeSize

/-- The blocks of a bucket, the newest first. -/
def bucket (i : BitVec 32) (evs : List Event) : List ℕ :=
  ((live evs).filter fun b => hashIdx b.pcPa b.msr == i).map Made.ptr

theorem ptr_lt_stop (d : Decoder) (b : Made) : b.ptr + 64 ≤ b.stop d := by
  rw [Made.stop, blockCodeptr_eq]
  omega

theorem mem_live_of_mem_bucket {i : BitVec 32} {evs : List Event} {q : ℕ}
    (h : q ∈ bucket i evs) : ∃ b ∈ live evs, b.ptr = q := by
  obtain ⟨b, hb, hq⟩ := List.mem_map.mp h
  exact ⟨b, (List.mem_filter.mp hb).1, hq⟩

/-- A block is whole where its bytes have not changed. -/
theorem Made.Intact.of_within {m m' : Arena.Mem} {lo hi : ℕ} (h : b.Intact d m)
    (hw : Within lo hi m m') (hlo : b.stop d ≤ lo) : b.Intact d m' where
  header := h.header.of_within hw (.inl (by have := ptr_lt_stop d b; omega))
  code := by rw [hw.read_eq (.inl hlo), h.code]

/-! ## The invariant -/

/-- What holds of the store between operations. -/
structure Inv (buf : Buffer) (d : Decoder) (s : BlockStore) : Prop where
  base_le : buf.base ≤ s.blockBufferLast
  last_le : s.blockBufferLast ≤ buf.base + bsCodeSize
  inside : ∀ b ∈ live s.trace, b.Inside buf d
  below : ∀ b ∈ live s.trace,
    b.stop d ≤ s.blockBufferLast ∨ bsCodeSize - bsFumes < s.blockBufferLast - buf.base
  intact : ∀ b ∈ live s.trace, b.Intact d s.mem
  straight : ∀ b ∈ live s.trace, Straight b.pc b.insts ∧ b.insts ≠ []
  chains : ∀ i, Chain.Links (getNext s.mem) (s.bsHashmap i) (bucket i s.trace)

/-- An empty store, whatever its memory holds. -/
theorem inv_of_empty (hlast : s.blockBufferLast = buf.base) (hmap : ∀ i, s.bsHashmap i = 0)
    (hlive : live s.trace = []) : Inv buf d s where
  base_le := by omega
  last_le := by omega
  inside := by simp [hlive]
  below := by simp [hlive]
  intact := by simp [hlive]
  straight := by simp [hlive]
  chains i := by
    rw [bucket, hlive, hmap]
    exact Chain.links_nil

theorem inv_resetBlockstore : Inv buf d (resetBlockstore buf s) :=
  inv_of_empty rfl (fun _ => rfl) rfl

theorem inv_makeRoom (h : Inv buf d s) : Inv buf d (makeRoom buf s) := by
  unfold makeRoom
  split_ifs
  · exact inv_resetBlockstore
  · exact h

namespace Inv

/-- Where a block can be allocated, it is above every other. -/
theorem stop_le (h : Inv buf d s)
    (hroom : s.blockBufferLast - buf.base ≤ bsCodeSize - bsFumes) (hb : b ∈ live s.trace) :
    b.stop d ≤ s.blockBufferLast := by
  rcases h.below b hb with hle | hlt
  · exact hle
  · omega

/-- The head of a chain is an address of 64 bits. -/
theorem head_lt (h : Inv buf d s) (i : BitVec 32) : s.bsHashmap i < 2 ^ 64 := by
  have hchain := h.chains i
  cases hl : bucket i s.trace with
  | nil =>
    rw [hl] at hchain
    have hzero : s.bsHashmap i = 0 := hchain
    omega
  | cons q l =>
    rw [hl] at hchain
    obtain ⟨hq, -⟩ := hchain
    obtain ⟨b, hb, rfl⟩ := mem_live_of_mem_bucket (hl ▸ List.mem_cons_self : q ∈ bucket i s.trace)
    have hstop := (h.inside b hb).2
    have hptr := ptr_lt_stop d b
    have hfits := buf.fits
    omega

end Inv

/-! ## Finishing a block -/

/-- A store in which a block is being generated: `s` is the store before its
header, `g` what the loop left. -/
structure Generated (buf : Buffer) (d : Decoder) (p : CpuState) (pcPa : PA) (s : BlockStore)
    (g : Gen) : Prop where
  inv : Inv buf d s
  room : s.blockBufferLast - buf.base ≤ bsCodeSize - bsFumes
  left : g.Left d (withHeader s p.user.pc pcPa p.os.msr).mem (blockCodeptr s.blockBufferLast)
    (buf.base + (bsCodeSize - bsGrace)) p.user.pc

section

variable {pcPa : PA} {g : Gen}

/-- The block that `finish` records. -/
def made (p : CpuState) (pcPa : PA) (s : BlockStore) (g : Gen) : Made :=
  ⟨s.blockBufferLast, p.user.pc, pcPa, p.os.msr, g.insts⟩

/-- Memory with the epilogue. -/
def finished (g : Gen) : Cursor := finaliseBlock g.insts.length g.cursor

theorem code_made : (made p pcPa s g).code d =
    (prologue ++ d.calls (blockCodeptr s.blockBufferLast + 10) (g.insts.map Prod.snd)) ++
      epilogue g.insts.length := rfl

/-- All of the code stands, even where the epilogue ran into the grace. -/
theorem Generated.read_finished (h : Generated buf d p pcPa s g)
    (hoom : g.cursor.oomAbort = false) :
    Arena.read (finished g).mem (blockCodeptr s.blockBufferLast) ((made p pcPa s g).code d).length =
      (made p pcPa s g).code d := by
  rw [code_made]
  exact Cursor.Built.read_plant (h.left.built hoom)

theorem Generated.within_finished (h : Generated buf d p pcPa s g)
    (hoom : g.cursor.oomAbort = false) :
    Within (blockCodeptr s.blockBufferLast) (buf.base + bsCodeSize)
      (withHeader s p.user.pc pcPa p.os.msr).mem (finished g).mem := by
  have hw := Cursor.Built.within_plant (h.left.built hoom)
    (show (epilogue g.insts.length).length ≤ maxCall by simp [maxCall])
  exact hw.mono le_rfl (by simp only [bsCodeSize, bsGrace, maxCall]; omega)

/-- The store with a finished block. -/
def completed (s : BlockStore) (p : CpuState) (pcPa : PA) (codelen : ℕ) (g : Gen) : BlockStore :=
  let t := withHeader s p.user.pc pcPa p.os.msr
  let u := amendBlockSize s.blockBufferLast (codelen - (finished g).codelen)
    { t with mem := (finished g).mem }
  { u with trace := .created (made p pcPa s g) :: u.trace }

theorem finish_of_oom (buf : Buffer) (p : CpuState) (pcPa : PA) (s : BlockStore) (codelen : ℕ)
    (h : g.cursor.oomAbort = true) : ∃ u, finish buf p pcPa s.blockBufferLast codelen (withHeader s p.user.pc pcPa p.os.msr) g =
      .retry { resetBlockstore buf u with trace := .retry :: .reset :: s.trace } := by
  refine ⟨{ withHeader s p.user.pc pcPa p.os.msr with mem := g.cursor.mem }, ?_⟩
  rw [finish, if_pos h]
  rfl

theorem finish_of_not_oom {codelen : ℕ} (h : g.cursor.oomAbort = false) :
    finish buf p pcPa s.blockBufferLast codelen (withHeader s p.user.pc pcPa p.os.msr) g =
      .done s.blockBufferLast (completed s p pcPa codelen g) := by
  rw [finish, if_neg (by rw [h]; exact Bool.false_ne_true)]
  rfl

/-- **Creating a block writes between its own header and the end of the
buffer.** -/
theorem Generated.within_completed (h : Generated buf d p pcPa s g)
    (hoom : g.cursor.oomAbort = false) (codelen : ℕ) :
    Within s.blockBufferLast (buf.base + bsCodeSize) s.mem
      (completed s p pcPa codelen g).mem := by
  have hroom := h.room
  have hle := h.inv.base_le
  simp only [bsCodeSize, bsFumes] at hroom
  have hheader : Within s.blockBufferLast (s.blockBufferLast + 24) s.mem
    (withHeader s p.user.pc pcPa p.os.msr).mem := within_withHeader
  have hheader := hheader.mono le_rfl
    (show s.blockBufferLast + 24 ≤ buf.base + bsCodeSize by unfold bsCodeSize; omega)
  have hcode := (h.within_finished hoom).mono
    (show s.blockBufferLast ≤ blockCodeptr s.blockBufferLast by rw [blockCodeptr_eq]; omega) le_rfl
  have hlen := (within_setCodelen (finished g).mem s.blockBufferLast
      (codelen - (finished g).codelen)).mono
    (show s.blockBufferLast ≤ s.blockBufferLast + 20 by omega)
    (show s.blockBufferLast + 24 ≤ buf.base + bsCodeSize by unfold bsCodeSize; omega)
  exact (hheader.trans hcode).trans hlen

/-! ## The finished block -/

@[simp] theorem completed_hashmap {codelen : ℕ} : (completed s p pcPa codelen g).bsHashmap =
    Function.update s.bsHashmap (hashIdx pcPa p.os.msr) s.blockBufferLast := rfl

@[simp] theorem live_completed {codelen : ℕ} : live (completed s p pcPa codelen g).trace =
    made p pcPa s g :: live s.trace := rfl

theorem completed_mem (s : BlockStore) (p : CpuState) (pcPa : PA) (codelen : ℕ) (g : Gen) :
    ∃ n, (completed s p pcPa codelen g).mem =
      setCodelen (finished g).mem s.blockBufferLast n := ⟨_, rfl⟩

/-- The header outlives the code that is written after it. -/
theorem Generated.header (h : Generated buf d p pcPa s g) (hoom : g.cursor.oomAbort = false)
    (codelen : ℕ) : Header (completed s p pcPa codelen g).mem s.blockBufferLast p.user.pc pcPa
      p.os.msr := by
  obtain ⟨n, hmem⟩ := completed_mem s p pcPa codelen g
  rw [hmem]
  have hcode := header_withHeader.of_within (h.within_finished hoom)
    (.inl (by rw [blockCodeptr_eq]; omega))
  exact hcode.of_within (within_setCodelen _ _ _) (.inl le_rfl)

/-- **A finished block is whole.** -/
theorem Generated.intact (h : Generated buf d p pcPa s g) (hoom : g.cursor.oomAbort = false)
    (codelen : ℕ) : (made p pcPa s g).Intact d (completed s p pcPa codelen g).mem where
  header := h.header hoom codelen
  code := by
    obtain ⟨n, hmem⟩ := completed_mem s p pcPa codelen g
    have hcodelen := within_setCodelen (finished g).mem s.blockBufferLast n
    rw [hmem, hcodelen.read_eq (.inr _)]
    · exact h.read_finished hoom
    · show s.blockBufferLast + 24 ≤ blockCodeptr s.blockBufferLast
      rw [blockCodeptr_eq]
      omega

/-- The code of a finished block ends within ten bytes of the room. -/
theorem Generated.stop_eq (h : Generated buf d p pcPa s g) (hoom : g.cursor.oomAbort = false) :
    (made p pcPa s g).stop d + g.cursor.codelen = buf.base + (bsCodeSize - bsGrace) + 10 := by
  have hbuilt := h.left.built hoom
  have hptr := hbuilt.codeptr
  have hroom := hbuilt.room
  have hlen : ((made p pcPa s g).code d).length = (prologue ++ d.calls
      (blockCodeptr s.blockBufferLast + 10) (g.insts.map Prod.snd)).length + 10 := by
    rw [code_made, List.length_append, length_epilogue]
  have hstop : (made p pcPa s g).stop d = blockCodeptr s.blockBufferLast +
    ((made p pcPa s g).code d).length := rfl
  omega

/-- What is accounted for: all of the code, or all but an epilogue that did
not fit. -/
theorem finished_codelen : (finished g).codelen =
    if g.cursor.codelen < 10 then g.cursor.codelen else g.cursor.codelen - 10 := by
  unfold finished finaliseBlock Cursor.plant
  rw [length_epilogue]
  split <;> rfl

/-- **The place of the next block** is above this one, or in a buffer so full
that a reset comes first. -/
theorem Generated.below (h : Generated buf d p pcPa s g) (hoom : g.cursor.oomAbort = false) :
    let u := completed s p pcPa (bytesAvail buf s) g
    ((made p pcPa s g).stop d ≤ u.blockBufferLast ∨
      bsCodeSize - bsFumes < u.blockBufferLast - buf.base) ∧
    s.blockBufferLast ≤ u.blockBufferLast ∧ u.blockBufferLast ≤ buf.base + bsCodeSize := by
  intro u
  have hstop := h.stop_eq hoom
  have havail := codeptr_add_bytesAvail h.inv.base_le h.room
  have hptr : blockCodeptr s.blockBufferLast ≤ g.cursor.codeptr := by
    rw [(h.left.built hoom).codeptr]
    omega
  have hroom := (h.left.built hoom).room
  have hlast : u.blockBufferLast = alignTo (s.blockBufferLast +
    (headerlen + (bytesAvail buf s - (finished g).codelen))) 64 := rfl
  rw [finished_codelen, headerlen_eq] at hlast
  rw [blockCodeptr_eq] at havail hptr
  simp only [bsCodeSize, bsGrace] at havail hstop hroom
  have hle := le_alignTo (s.blockBufferLast +
    (64 + (bytesAvail buf s - if g.cursor.codelen < 10 then g.cursor.codelen
      else g.cursor.codelen - 10)))
  rw [← hlast] at hle
  have hend : u.blockBufferLast ≤ buf.base + bsCodeSize := by
    rw [hlast]
    refine alignTo_le ?_ buf.aligned_end
    unfold bsCodeSize
    split <;> omega
  refine ⟨?_, by omega, hend⟩
  unfold bsCodeSize bsFumes
  split at hle
  · exact .inr (by omega)
  · exact .inl (by omega)

/-- The chain of the new block starts with it, and the others are as they
were. -/
theorem Generated.chains (h : Generated buf d p pcPa s g) (hoom : g.cursor.oomAbort = false)
    (codelen : ℕ) (i : BitVec 32) :
    Chain.Links (getNext (completed s p pcPa codelen g).mem)
      ((completed s p pcPa codelen g).bsHashmap i)
      (bucket i (completed s p pcPa codelen g).trace) := by
  have hw := h.within_completed hoom codelen
  have hold : Chain.Links (getNext (completed s p pcPa codelen g).mem) (s.bsHashmap i)
      (bucket i s.trace) := by
    refine (h.inv.chains i).congr fun q hq => ?_
    obtain ⟨b, hb, rfl⟩ := mem_live_of_mem_bucket hq
    have hstop := h.inv.stop_le h.room hb
    have hptr := ptr_lt_stop d b
    exact hw.peek_eq (.inl (by omega))
  rw [completed_hashmap, bucket, live_completed]
  by_cases hi : hashIdx pcPa p.os.msr = i
  · subst hi
    rw [Function.update_self, List.filter_cons_of_pos (by simp [made]), List.map_cons]
    refine hold.cons ?_ ?_
    · have hbase := h.inv.base_le
      have hpos := buf.pos
      show s.blockBufferLast ≠ 0
      omega
    · obtain ⟨n, hmem⟩ := completed_mem s p pcPa codelen g
      show getNext (completed s p pcPa codelen g).mem s.blockBufferLast = _
      rw [← getNext_withHeader (h.inv.head_lt (hashIdx pcPa p.os.msr)), hmem, getNext, getNext,
        (within_setCodelen _ _ _).peek_eq (.inl (by omega)),
        (h.within_finished hoom).peek_eq (.inl (by rw [blockCodeptr_eq]; omega))]
  · rw [Function.update_of_ne (Ne.symm hi), List.filter_cons_of_neg (by simpa [made] using hi)]
    exact hold

/-- **A finished block keeps the invariant.** -/
theorem Generated.inv_completed (h : Generated buf d p pcPa s g)
    (hoom : g.cursor.oomAbort = false) : Inv buf d (completed s p pcPa (bytesAvail buf s) g) := by
  obtain ⟨hbelow, hle, hend⟩ := h.below hoom
  have hstop := h.stop_eq hoom
  have hbase := h.inv.base_le
  have hold {b : Made} (hb : b ∈ live s.trace) := h.inv.stop_le h.room hb
  refine ⟨hbase.trans hle, hend, ?_, ?_, ?_, ?_, h.chains hoom _⟩ <;>
    rw [live_completed, List.forall_mem_cons]
  · refine ⟨⟨hbase, ?_⟩, h.inv.inside⟩
    simp only [bsCodeSize, bsGrace] at hstop ⊢
    omega
  · exact ⟨hbelow, fun b hb => .inl ((hold hb).trans hle)⟩
  · exact ⟨h.intact hoom _, fun b hb =>
      (h.inv.intact b hb).of_within (h.within_completed hoom _) (hold hb)⟩
  · exact ⟨⟨h.left.straight, h.left.ne⟩, h.inv.straight⟩

end

end Jit

end MrIss
