import MrIss.Jit.Intact
import MrIss.Machine.Run
import MrIss.Mmu.Run
/-!
# What `createBlock` does to the store

A pass of `createBlock` returns nothing, completes a block, or starts
again with an empty store; and with an empty store it does not start again.
-/

namespace MrIss

namespace Jit

open EarlyReturn Run
open Arena (Within)

variable {buf : Buffer} {c : Config} {d : Decoder} {s t : BlockStore} {p : CpuState}
variable {m m' : Mem} {pcPa : PA} {g : Gen} {fuel k : ℕ}

/-! ## A pass -/

/-- The cursor behind the prologue of a block. -/
def begun (buf : Buffer) (s : BlockStore) (p : CpuState) (pcPa : PA) : Cursor :=
  startBlock ⟨(withHeader s p.user.pc pcPa p.os.msr).mem, blockCodeptr s.blockBufferLast,
    bytesAvail buf s, false⟩

section

variable (hle : buf.base ≤ s.blockBufferLast)
  (hroom : s.blockBufferLast - buf.base ≤ bsCodeSize - bsFumes)
include hle hroom

/-- There is room for the prologue. -/
theorem begun_room : (begun buf s p pcPa).oomAbort = false ∧
    (begun buf s p pcPa).codelen = bytesAvail buf s - 10 := by
  have hbytes := le_bytesAvail hle hroom
  have hfit : prologue.length ≤ bytesAvail buf s := by
    rw [length_prologue]
    omega
  exact Cursor.plant_of_fit hfit

/-- A block starts with its prologue. -/
theorem built_begun : Gen.Built d (withHeader s p.user.pc pcPa p.os.msr).mem
    (blockCodeptr s.blockBufferLast) (buf.base + (bsCodeSize - bsGrace))
    ⟨begun buf s p pcPa, []⟩ := by
  have hbytes := le_bytesAvail hle hroom
  have hnil : Cursor.Built (withHeader s p.user.pc pcPa p.os.msr).mem
      (blockCodeptr s.blockBufferLast) (blockCodeptr s.blockBufferLast + bytesAvail buf s) []
      ⟨(withHeader s p.user.pc pcPa p.os.msr).mem, blockCodeptr s.blockBufferLast,
        bytesAvail buf s, false⟩ := .nil false
  rw [codeptr_add_bytesAvail hle hroom] at hnil
  have hfit : prologue.length ≤ bytesAvail buf s := by
    rw [length_prologue]
    omega
  exact hnil.plant (by decide : prologue.length ≤ maxCall) hfit

end

/-- The room in an empty buffer. -/
theorem room_of_empty (hempty : s.blockBufferLast = buf.base) :
    1000 * maxCall ≤ (begun buf s p pcPa).codelen := by
  have hroom : s.blockBufferLast - buf.base ≤ bsCodeSize - bsFumes := by omega
  have hbytes := codeptr_add_bytesAvail hempty.ge hroom
  rw [(begun_room hempty.ge hroom).2]
  rw [hempty, blockCodeptr_eq] at hbytes
  simp only [bsCodeSize, bsGrace, maxCall] at hbytes ⊢
  omega

/-- **How a pass ends.** -/
theorem attempt_cases {r : Attempt} (hinv : Inv buf d s)
    (h : attempt buf c d p s m = .ok r m') : r = .done 0 s ∨ ∃ pcPa g,
      Generated buf d p pcPa (makeRoom buf s) g ∧
      (s.blockBufferLast = buf.base → g.cursor.oomAbort = false) ∧
      r = finish buf p pcPa (makeRoom buf s).blockBufferLast (bytesAvail buf (makeRoom buf s))
        (withHeader (makeRoom buf s) p.user.pc pcPa p.os.msr) g := by
  obtain ⟨res, m₁, -, h⟩ := Prog.bind_eq_ok h
  cases res with
  | error f =>
    cases h
    exact .inl rfl
  | ok inst =>
    obtain ⟨res, m₂, -, h⟩ := Prog.bind_eq_ok h
    cases res with
    | error f =>
      cases h
      exact .inl rfl
    | ok pa =>
      obtain ⟨g, m₃, hgen, h⟩ := Prog.bind_eq_ok h
      cases h
      have hroom := makeRoom_last buf s
      have hinv' := inv_makeRoom hinv
      have hgen : generate c d p.isPrivileged 1000 p.user.pc inst
        ⟨begun buf (makeRoom buf s) p (pa.setWidth 32), []⟩ m₂ = .ok g m' := hgen
      refine .inr ⟨pa.setWidth 32, g, ⟨hinv', hroom, generate_left
        (built_begun hinv'.base_le hroom) (Follows.nil p.user.pc) hgen⟩, fun hempty => ?_, rfl⟩
      -- an empty buffer stays empty
      have hmake : makeRoom buf s = s := if_neg (by omega)
      have hlast : (makeRoom buf s).blockBufferLast = buf.base := by rw [hmake, hempty]
      exact generate_of_room (room_of_empty hlast) (begun_room hinv'.base_le hroom).1 hgen

/-! ## An operation -/

/-- What an operation does: it keeps the invariant, goes to `retry` at most
`k` times, and leaves the blocks alone unless it resets the store. -/
structure Moves (buf : Buffer) (d : Decoder) (k : ℕ) (s t : BlockStore) : Prop where
  inv : Inv buf d t
  trace : ∃ evs, t.trace = evs ++ s.trace ∧ evs.count .retry ≤ k ∧
    (.reset ∉ evs → ∀ b ∈ live s.trace, ∀ x, b.ptr ≤ x → x < b.stop d → t.mem x = s.mem x)

namespace Moves

/-- An operation that writes neither to the buffer nor to the trace. -/
theorem of_same (hinv : Inv buf d t) (hmem : t.mem = s.mem) (htrace : t.trace = s.trace) :
    Moves buf d k s t where
  inv := hinv
  trace := ⟨[], htrace, Nat.zero_le k, fun _ _ _ _ _ _ => by rw [hmem]⟩

/-- One that resets the store. -/
theorem of_reset (hinv : Inv buf d t) {evs : List Event} (htrace : t.trace = evs ++ s.trace)
    (hretry : evs.count .retry ≤ k) (hreset : .reset ∈ evs) : Moves buf d k s t where
  inv := hinv
  trace := ⟨evs, htrace, hretry, fun h => absurd hreset h⟩

end Moves

/-- A block completed where there is room. -/
theorem Generated.moves (h : Generated buf d p pcPa s g) (hoom : g.cursor.oomAbort = false) :
    Moves buf d 0 s (completed s p pcPa (bytesAvail buf s) g) where
  inv := h.inv_completed hoom
  trace := by
    refine ⟨[.created (made p pcPa s g)], rfl, by simp, fun _ b hb x _ hx => ?_⟩
    have hstop := h.inv.stop_le h.room hb
    exact h.within_completed hoom _ x (.inl (by omega))

/-- A block completed after room was made for it. -/
theorem Generated.moves_makeRoom (h : Generated buf d p pcPa (makeRoom buf s) g)
    (hoom : g.cursor.oomAbort = false) :
    Moves buf d 0 s (completed (makeRoom buf s) p pcPa (bytesAvail buf (makeRoom buf s)) g) := by
  by_cases hfull : bsCodeSize - bsFumes < s.blockBufferLast - buf.base
  · have htrace : (makeRoom buf s).trace = .reset :: s.trace := by
      rw [makeRoom, if_pos hfull]
      rfl
    have htrace' : (completed (makeRoom buf s) p pcPa (bytesAvail buf (makeRoom buf s)) g).trace =
        [.created (made p pcPa (makeRoom buf s) g), .reset] ++ s.trace := by
      change .created _ :: (makeRoom buf s).trace = _
      rw [htrace]
      rfl
    exact .of_reset (h.inv_completed hoom) htrace' (by simp) (by simp)
  · have hmake : makeRoom buf s = s := if_neg hfull
    rw [hmake] at h ⊢
    exact h.moves hoom

/-- The store after a reset that makes `createBlock` start again. -/
def retried (buf : Buffer) (evs : List Event) (u : BlockStore) : BlockStore :=
  { resetBlockstore buf u with trace := .retry :: .reset :: evs }

/-- **How a pass ends,** in terms of the store. -/
theorem attempt_moves {r : Attempt} (hinv : Inv buf d s)
    (h : attempt buf c d p s m = .ok r m') :
    (∃ b t, r = .done b t ∧ Moves buf d 0 s t) ∨
      s.blockBufferLast ≠ buf.base ∧
        ∃ u evs, r = .retry (retried buf (evs ++ s.trace) u) ∧ evs.count .retry = 0 := by
  rcases attempt_cases hinv h with rfl | ⟨pcPa, g, hgen, hroom, rfl⟩
  · exact .inl ⟨0, s, rfl, .of_same hinv rfl rfl⟩
  cases hoom : g.cursor.oomAbort with
  | false =>
    rw [finish_of_not_oom hoom]
    exact .inl ⟨_, _, rfl, hgen.moves_makeRoom hoom⟩
  | true =>
    obtain ⟨u, hu⟩ := finish_of_oom buf p pcPa (makeRoom buf s)
      (bytesAvail buf (makeRoom buf s)) hoom
    rw [hu]
    refine .inr ⟨fun hempty => ?_, u, ?_⟩
    · rw [hroom hempty] at hoom
      cases hoom
    · by_cases hfull : bsCodeSize - bsFumes < s.blockBufferLast - buf.base
      · refine ⟨[.reset], ?_, by decide⟩
        rw [retried, makeRoom, if_pos hfull]
        rfl
      · refine ⟨[], ?_, by decide⟩
        rw [retried, makeRoom, if_neg hfull]
        rfl

theorem inv_retried {evs : List Event} {u : BlockStore} : Inv buf d (retried buf evs u) :=
  inv_of_empty rfl (fun _ => rfl) rfl

/-- Nothing runs out twice. -/
theorem createBlock_retried {evs : List Event} {u : BlockStore} {r : Option (ℕ × BlockStore)}
    (h : createBlock buf c d p fuel (retried buf evs u) m = .ok r m') :
    ∃ b t, r = some (b, t) ∧ Moves buf d 0 (retried buf evs u) t := by
  rw [createBlock] at h
  obtain ⟨res, m₁, hres, h⟩ := Prog.bind_eq_ok h
  rcases attempt_moves inv_retried hres with ⟨b, t, rfl, hmoves⟩ | ⟨hne, -⟩
  · cases h
    exact ⟨b, t, rfl, hmoves⟩
  · exact absurd rfl hne

/-- **`createBlock` starts again at most once,** and keeps the store whole. -/
theorem createBlock_moves {r : Option (ℕ × BlockStore)} (hinv : Inv buf d s)
    (h : createBlock buf c d p fuel s m = .ok r m') :
    (1 ≤ fuel → r.isSome) ∧ ∀ b t, r = some (b, t) → Moves buf d 1 s t := by
  rw [createBlock] at h
  obtain ⟨res, m₁, hres, h⟩ := Prog.bind_eq_ok h
  rcases attempt_moves hinv hres with ⟨b, t, rfl, hmoves⟩ | ⟨-, u, evs, rfl, hcount⟩
  · cases h
    refine ⟨fun _ => rfl, fun b' t' ht => ?_⟩
    cases ht
    obtain ⟨evs, htrace, hcount, hkept⟩ := hmoves.trace
    exact ⟨hmoves.inv, evs, htrace, hcount.trans (by decide), hkept⟩
  cases fuel with
  | zero =>
    cases h
    exact ⟨fun hle => absurd hle (by decide), fun b' t' ht => absurd ht (by simp)⟩
  | succ fuel =>
    obtain ⟨b, t, rfl, hmoves⟩ := createBlock_retried h
    refine ⟨fun _ => rfl, fun b' t' ht => ?_⟩
    cases ht
    obtain ⟨evs', htrace, hcount', -⟩ := hmoves.trace
    have htrace' : t.trace = (evs' ++ .retry :: .reset :: evs) ++ s.trace := by
      rw [htrace, List.append_assoc]
      rfl
    refine .of_reset hmoves.inv htrace' ?_ (by simp)
    rw [List.count_append, List.count_cons_self, List.count_cons_of_ne (by decide)]
    omega

/-! ## Lookup -/

/-- The newest block of a key since the last reset, or zero. -/
def newest (pcPa : PA) (msr : Reg) (evs : List Event) : ℕ :=
  (((live evs).find? fun b => b.pcPa == pcPa && b.msr == msr).map Made.ptr).getD 0

/-- A search among the blocks of a bucket is one among all, for what lies in
the bucket. -/
theorem find_bucket {evs : List Event} {i : BitVec 32} {hit : ℕ → Bool} {key : Made → Bool}
    (hhit : ∀ b ∈ live evs, hit b.ptr = key b)
    (hkey : ∀ b : Made, key b = true → hashIdx b.pcPa b.msr = i) :
    (bucket i evs).find? hit = ((live evs).find? key).map Made.ptr := by
  unfold bucket
  generalize live evs = l at hhit
  induction l with
  | nil => rfl
  | cons b l ih =>
    rw [List.forall_mem_cons] at hhit
    by_cases hb : key b = true
    · have hbucket : (hashIdx b.pcPa b.msr == i) = true := beq_iff_eq.mpr (hkey b hb)
      rw [List.filter_cons, if_pos hbucket, List.map_cons,
        List.find?_cons_of_pos (hhit.1.trans hb), List.find?_cons_of_pos hb]
      rfl
    · rw [List.find?_cons_of_neg hb, ← ih hhit.2]
      by_cases hbucket : (hashIdx b.pcPa b.msr == i) = true
      · rw [List.filter_cons, if_pos hbucket, List.map_cons,
          List.find?_cons_of_neg (by rw [hhit.1]; exact hb)]
      · rw [List.filter_cons, if_neg hbucket]

/-- **The lookup ends,** and finds the newest block of the key. -/
theorem Inv.lookup (h : Inv buf d s) (pcPa : PA) (msr : Reg)
    (hfuel : (live s.trace).length < fuel) :
    bsHmLookup fuel pcPa msr s = some (newest pcPa msr s.trace,
      if newest pcPa msr s.trace = 0 then s
      else { s with lastBlock := newest pcPa msr s.trace }) := by
  have hlen : (bucket (hashIdx pcPa msr) s.trace).length < fuel := by
    have hle := List.length_filter_le (fun b : Made => hashIdx b.pcPa b.msr == hashIdx pcPa msr)
      (live s.trace)
    rw [bucket, List.length_map]
    omega
  have hfind : (bucket (hashIdx pcPa msr) s.trace).find?
      (fun b => getPcPa s.mem b == pcPa && getMsr s.mem b == msr) =
      ((live s.trace).find? fun b => b.pcPa == pcPa && b.msr == msr).map Made.ptr := by
    refine find_bucket (fun b hb => ?_) fun b hb => ?_
    · have hheader := (h.intact b hb).header
      rw [hheader.pcPa, hheader.msr]
    · simp only [Bool.and_eq_true, beq_iff_eq] at hb
      rw [hb.1, hb.2]
  rw [bsHmLookup, Chain.walk_of_links (h.chains _) hlen, hfind]
  rfl

/-- Whatever the lookup returns, it leaves blocks and trace alone. -/
theorem moves_of_lookup {pcPa : PA} {msr : Reg} {b : ℕ} (hinv : Inv buf d s)
    (h : bsHmLookup fuel pcPa msr s = some (b, t)) : Moves buf d 0 s t := by
  obtain ⟨q, -, hq⟩ := Option.bind_eq_some_iff.mp h
  cases hq
  split
  · exact .of_same hinv rfl rfl
  · exact .of_same ⟨hinv.base_le, hinv.last_le, hinv.inside, hinv.below, hinv.intact,
      hinv.straight, hinv.chains⟩ rfl rfl

/-! ## Runs -/

/-- **Every operation moves the store.** -/
theorem Step.moves {l : Label} (h : Step buf c d s l t) (hinv : Inv buf d s) :
    Moves buf d 1 s t := by
  cases h with
  | create p m m' h => exact (createBlock_moves hinv h).2 _ _ rfl
  | lookup h =>
    obtain ⟨evs, htrace, hcount, hkept⟩ := (moves_of_lookup hinv h).trace
    exact ⟨(moves_of_lookup hinv h).inv, evs, htrace, hcount.trans (by decide), hkept⟩
  | reset =>
    have htrace : (resetBlockstore buf s).trace = [.reset] ++ s.trace := rfl
    exact .of_reset inv_resetBlockstore htrace (by decide) (by decide)

/-- The invariant holds in every run. -/
theorem inv_of_run {ls : List Label} (hrun : Steps (Step buf c d) s ls t) (hinv : Inv buf d s) :
    Inv buf d t := hrun.invariant hinv fun _ _ _ hi hstep => (hstep.moves hi).inv

/-- A block outlives what does not reset. -/
theorem mem_live_append {b : Made} {evs evs' : List Event} (hb : b ∈ live evs)
    (h : .reset ∉ evs') : b ∈ live (evs' ++ evs) := by
  induction evs' with
  | nil => exact hb
  | cons e evs' ih =>
    rw [List.mem_cons, not_or] at h
    cases e with
    | reset => exact absurd rfl h.1
    | retry => exact ih h.2
    | created b' => exact List.mem_cons_of_mem _ (ih h.2)

/-- **No byte of a block is overwritten before the next reset.** -/
theorem kept_of_run {ls : List Label} (hrun : Steps (Step buf c d) s ls t) (hinv : Inv buf d s) :
    ∃ evs, t.trace = evs ++ s.trace ∧ (.reset ∉ evs →
      ∀ b ∈ live s.trace, ∀ x, b.ptr ≤ x → x < b.stop d → t.mem x = s.mem x) := by
  induction hrun with
  | nil => exact ⟨[], rfl, fun _ _ _ _ _ _ => rfl⟩
  | snoc hrun hlast ih =>
    obtain ⟨evs, htrace, hkept⟩ := ih
    obtain ⟨evs', htrace', -, hkept'⟩ := (hlast.moves (inv_of_run hrun hinv)).trace
    refine ⟨evs' ++ evs, by rw [htrace', htrace, List.append_assoc], fun hreset b hb x hx hx' => ?_⟩
    rw [List.mem_append, not_or] at hreset
    have hlive : b ∈ live _ := htrace ▸ mem_live_append hb hreset.2
    rw [hkept' hreset.1 b hlive x hx hx', hkept hreset.2 b hb x hx hx']

/-- **The block store keeps live blocks intact.** -/
theorem blocks_intact (m : Arena.Mem) {ls : List Label}
    (hrun : Steps (Step buf c d) (initBlockStore buf m) ls s) :
    (∀ i, ∃ l, Chain.Links (getNext s.mem) (s.bsHashmap i) l ∧ ∀ q ∈ l, ∃ b ∈ live s.trace,
      b.ptr = q ∧ b.Intact d s.mem ∧ b.Inside buf d ∧ b.insts ≠ [] ∧ Straight b.pc b.insts) ∧
    (∀ ls' t, Steps (Step buf c d) s ls' t → ∃ evs, t.trace = evs ++ s.trace ∧ (.reset ∉ evs →
      ∀ b ∈ live s.trace, ∀ x, b.ptr ≤ x → x < b.stop d → t.mem x = s.mem x)) ∧
    (∀ pcPa msr, ∃ n, ∀ fuel ≥ n, ∃ t,
      bsHmLookup fuel pcPa msr s = some (newest pcPa msr s.trace, t)) ∧
    (∀ p fuel r m m', createBlock buf c d p fuel s m = .ok r m' → (1 ≤ fuel → r.isSome) ∧
      ∀ b t, r = some (b, t) → ∃ evs, t.trace = evs ++ s.trace ∧ evs.count .retry ≤ 1) := by
  have hinv : Inv buf d s := inv_of_run hrun inv_resetBlockstore
  refine ⟨fun i => ⟨_, hinv.chains i, fun q hq => ?_⟩, fun ls' t h => kept_of_run h hinv,
    fun pcPa msr => ⟨(live s.trace).length + 1, fun fuel hfuel => ⟨_, hinv.lookup pcPa msr hfuel⟩⟩,
    fun p fuel r m m' h => ?_⟩
  · obtain ⟨b, hb, hptr⟩ := mem_live_of_mem_bucket hq
    obtain ⟨hstraight, hne⟩ := hinv.straight b hb
    exact ⟨b, hb, hptr, hinv.intact b hb, hinv.inside b hb, hne, hstraight⟩
  · obtain ⟨hsome, hmoves⟩ := createBlock_moves hinv h
    refine ⟨hsome, fun b t ht => ?_⟩
    obtain ⟨evs, htrace, hcount, -⟩ := (hmoves b t ht).trace
    exact ⟨evs, htrace, hcount⟩

/-- A decoder that decodes nothing. -/
def Decoder.none : Decoder := ⟨fun _ => .none, 0x400000⟩

/-- A buffer at 4096. -/
def Buffer.low : Buffer := ⟨4096, by decide, by decide, by decide⟩

/-- A block of one instruction that is not decoded: it is found again. -/
theorem blocks_intact_unknown : ∃ s, Steps (Step .low (.quiet .default) .none)
    (initBlockStore .low fun _ => 0) [.create 4096] s ∧
    (∃ n, ∀ fuel ≥ n, ∃ t, bsHmLookup fuel 0x10000100 0 s = some (4096, t)) := by
  let p : CpuState := (Machine.boot 0x100 0 .zero .zero .fresh).cpu
  have hcreated : (createBlock .low (.quiet .default) .none p 1 (initBlockStore .low fun _ => 0)
      ⟨.zero, .fresh⟩).test (fun r _ => match r with
        | some (b, t) => b == 4096 && newest 0x10000100 0 t.trace == 4096
        | .none => false) = true := by
    decide +kernel
  obtain ⟨r, m', hrun, hr⟩ := Out.of_test hcreated
  match r, hrun, hr with
  | some (b, s), hrun, hr =>
    rw [Bool.and_eq_true, beq_iff_eq, beq_iff_eq] at hr
    obtain ⟨rfl, hnewest⟩ := hr
    have hsteps := Steps.single (Step.create p _ m' hrun)
    refine ⟨s, hsteps, ?_⟩
    obtain ⟨-, -, hlookup, -⟩ := blocks_intact (fun _ => 0) hsteps
    rw [← hnewest]
    exact hlookup 0x10000100 0

end Jit

end MrIss
