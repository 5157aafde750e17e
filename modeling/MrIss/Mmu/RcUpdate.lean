import MrIss.Mmu.Lookup
/-!
# R and C in memory

A walk writes memory in one place, the second word of the entry it
found, and only to set R, or R and C, there. Nothing a walk reads other
than these two bits changes by it.
-/

namespace MrIss

open EarlyReturn

namespace Mmu

/-- The R bit of an entry's second word. -/
def pteR (w : BitVec 32) : Bool := w &&& 0x100#32 != 0#32

/-- The C bit of an entry's second word. -/
def pteC (w : BitVec 32) : Bool := w &&& 0x80#32 != 0#32

/-- What setting R, or R and C, does to a word. -/
def RcWord (w w' : BitVec 32) : Prop :=
  w' = w ||| 0x100#32 ∨ w' = w ||| 0x180#32

/-- **What a walk does to memory.** Nothing, or R is set, or R and C, in
the second word of an entry in RAM. -/
def RcUpdate (B : PagedBus) (mem mem' : HostMem) : Prop :=
  mem' = mem ∨ ∃ q w', q.toNat % 8 = 4 ∧ (B.ramAt q).isSome ∧ RcWord (B.word mem q) w' ∧
    mem' = B.putWord mem q w'

theorem pteR_eq (w : BitVec 32) : pteR w = w.getLsbD 8 := by
  rw [pteR, show (0x100#32 : BitVec 32) = BitVec.twoPow 32 8 from rfl, BitVec.and_twoPow]
  cases w.getLsbD 8 <;> rfl

theorem pteC_eq (w : BitVec 32) : pteC w = w.getLsbD 7 := by
  rw [pteC, show (0x80#32 : BitVec 32) = BitVec.twoPow 32 7 from rfl, BitVec.and_twoPow]
  cases w.getLsbD 7 <;> rfl

theorem pteR_or (w m : BitVec 32) : pteR (w ||| m) = (pteR w || pteR m) := by
  rw [pteR_eq, pteR_eq, pteR_eq, BitVec.getLsbD_or]

theorem pteC_or (w m : BitVec 32) : pteC (w ||| m) = (pteC w || pteC m) := by
  rw [pteC_eq, pteC_eq, pteC_eq, BitVec.getLsbD_or]

namespace RcWord

variable {w w' : BitVec 32}

theorem r (h : RcWord w w') : pteR w' = true := by
  rcases h with rfl | rfl
  · rw [pteR_or, show pteR 0x100#32 = true from rfl, Bool.or_true]
  · rw [pteR_or, show pteR 0x180#32 = true from rfl, Bool.or_true]

theorem c_mono (h : RcWord w w') (hc : pteC w = true) : pteC w' = true := by
  rcases h with rfl | rfl
  · rw [pteC_or, hc, Bool.true_or]
  · rw [pteC_or, hc, Bool.true_or]

/-- The page number and the protection stay. -/
theorem keeps (h : RcWord w w') :
    w' &&& 0xfffff000#32 = w &&& 0xfffff000#32 ∧ w' &&& 3#32 = w &&& 3#32 := by
  have key : ∀ m k : BitVec 32, m &&& k = 0#32 → (w ||| m) &&& k = w &&& k := by
    intro m k hm
    rw [BitVec.and_comm, BitVec.and_or_distrib_left, BitVec.and_comm k m, hm, BitVec.or_zero,
      BitVec.and_comm]
  rcases h with rfl | rfl
  · exact ⟨key _ _ (by decide), key _ _ (by decide)⟩
  · exact ⟨key _ _ (by decide), key _ _ (by decide)⟩

end RcWord

namespace RcUpdate

variable {B : PagedBus} {mem mem' : HostMem}

/-- The first words of entries stay. -/
theorem word_first (h : RcUpdate B mem mem') {q : PA} (hq : q.toNat % 8 = 0) :
    B.word mem' q = B.word mem q := by
  rcases h with rfl | ⟨p, w', hp, hram, -, rfl⟩
  · rfl
  · rw [PagedBus.word_putWord (by omega) (by omega) hram, if_neg]
    rintro rfl
    omega

/-- The second words of entries stay, but for R and C. -/
theorem word_second (h : RcUpdate B mem mem') {q : PA} (hq : q.toNat % 8 = 4) :
    B.word mem' q = B.word mem q ∨ RcWord (B.word mem q) (B.word mem' q) := by
  rcases h with rfl | ⟨p, w', hp, hram, hw, rfl⟩
  · exact .inl rfl
  · rw [PagedBus.word_putWord (by omega) (by omega) hram]
    split_ifs with heq
    · subst heq
      exact .inr hw
    · exact .inl rfl

end RcUpdate

/-! ## Walks do no more -/

variable {c : Config} {m : Mmu} {mem : HostMem} {addr : VA} {inD rnW priv : Bool}

/-- What an entry gives, in the words of its R and C bits. -/
theorem pteUse_perms (b : Build) (sr : Seg) (w : BitVec 32) :
    (pteUse b sr addr rnW priv w).perms =
      ⟨(sr.pageRights priv (w &&& 3#32)).1,
       (sr.pageRights priv (w &&& 3#32)).2 && (b.updateRC || pteC w),
       b.updateRC && !(pteC w ||
        (b.updateRC && !rnW && (sr.pageRights priv (w &&& 3#32)).2 && !pteC w))⟩ := rfl

/-- When a walk sets C: in a build that updates it, for a store that the
page allows. -/
def setsC (b : Build) (sr : Seg) (rnW priv : Bool) (w : BitVec 32) : Bool :=
  b.updateRC && !rnW && (sr.pageRights priv (w &&& 3#32)).2 && !pteC w

theorem pteUse_update (b : Build) (sr : Seg) (w : BitVec 32) :
    (pteUse b sr addr rnW priv w).update =
      if (b.updateRC && (!pteR w || setsC b sr rnW priv w)) = true then
        some (w ||| if setsC b sr rnW priv w then 0x180#32 else 0x100#32)
      else none := rfl

/-- The word that a walk leaves in an entry. -/
def pteAfter (b : Build) (sr : Seg) (rnW priv : Bool) (w : BitVec 32) : BitVec 32 :=
  if b.updateRC && (!pteR w || setsC b sr rnW priv w) then
    w ||| if setsC b sr rnW priv w then 0x180#32 else 0x100#32
  else w

theorem pteAfter_cases (b : Build) (sr : Seg) (rnW priv : Bool) (w : BitVec 32) :
    pteAfter b sr rnW priv w = w ∨ RcWord w (pteAfter b sr rnW priv w) := by
  unfold pteAfter
  split_ifs
  · exact .inr (.inr rfl)
  · exact .inr (.inl rfl)
  · exact .inl rfl

/-- In a build that updates R and C, a walk leaves R set. -/
theorem pteAfter_r {b : Build} (hb : b.updateRC = true) (sr : Seg) (w : BitVec 32) :
    pteR (pteAfter b sr rnW priv w) = true := by
  rcases pteAfter_cases b sr rnW priv w with h | h
  · rw [h]
    unfold pteAfter at h
    by_contra hr
    have hr' : pteR w = false := by simpa using hr
    simp only [hb, hr', Bool.not_false, Bool.true_or, Bool.and_self, if_true] at h
    have := congrArg pteR h
    rw [pteR_or, hr'] at this
    split_ifs at this <;> exact absurd this (by decide)
  · exact h.r

/-- C is what it was, or has been set. -/
theorem pteAfter_c (b : Build) (sr : Seg) (w : BitVec 32) :
    pteC (pteAfter b sr rnW priv w) = (pteC w || setsC b sr rnW priv w) := by
  unfold pteAfter
  by_cases hs : setsC b sr rnW priv w = true
  · have hb : b.updateRC = true := by
      simp only [setsC, Bool.and_eq_true] at hs
      exact hs.1.1.1
    simp only [hs, hb, Bool.or_true, Bool.and_self, if_true]
    rw [pteC_or, show pteC 0x180#32 = true from rfl, Bool.or_true]
  · have hs' : setsC b sr rnW priv w = false := by simpa using hs
    simp only [hs', Bool.or_false, Bool.false_eq_true, if_false]
    split_ifs
    · rw [pteC_or, show pteC 0x100#32 = false from rfl, Bool.or_false]
    · rfl

/-- **Where a walk by the hash table leaves memory:** only the second
word of its entry is written. -/
theorem resolve_page {pte : PA} {r : Fresh}
    (hroute : m.route (c.map.word mem) (m.enabled inD) addr inD priv = .page pte)
    (h : resolve c m mem addr inD rnW priv = .ok r) (ht : TableInRam c.map m addr) :
    r.pa = Block.base 12 (c.map.word mem (pte + 4)) ||| Block.offset 12 addr ∧
    r.perms = (pteUse c.build (m.segOf addr) addr rnW priv (c.map.word mem (pte + 4))).perms ∧
    RcUpdate c.map mem r.mem ∧
    ∀ q : PA, q.toNat % 4 = 0 → c.map.word r.mem q =
      if q = pte + 4 then
        pteAfter c.build (m.segOf addr) rnW priv (c.map.word mem (pte + 4))
      else c.map.word mem q := by
  obtain ⟨-, hram, h4⟩ := pteFor_ram ht (route_page_entry hroute).2.2.2
  simp only [resolve, hroute] at h
  generalize hw : c.map.word mem (pte + 4) = w at h ⊢
  rw [pteUse_update] at h
  by_cases hu : (c.build.updateRC && (!pteR w || setsC c.build (m.segOf addr) rnW priv w)) = true
  · simp only [hu, if_true] at h
    cases h
    refine ⟨rfl, rfl, .inr ⟨pte + 4, _, h4, hram, ?_, rfl⟩, fun q hq => ?_⟩
    · rw [hw]
      split_ifs
      · exact .inr rfl
      · exact .inl rfl
    · rw [PagedBus.word_putWord (by omega) hq hram]
      simp only [pteAfter, hu, if_true]
  · simp only [hu, Bool.false_eq_true, if_false] at h
    cases h
    refine ⟨rfl, rfl, .inl rfl, fun q hq => ?_⟩
    simp only [pteAfter, hu, Bool.false_eq_true, if_false]
    split_ifs with heq
    · rw [heq, hw]
    · rfl

/-- Other walks leave memory alone. -/
theorem resolve_mem_of_not_page {r : Fresh}
    (hroute : ∀ pte, m.route (c.map.word mem) (m.enabled inD) addr inD priv ≠ .page pte)
    (h : resolve c m mem addr inD rnW priv = .ok r) : r.mem = mem := by
  unfold resolve at h
  cases hr : m.route (c.map.word mem) (m.enabled inD) addr inD priv with
  | page pte => exact absurd hr (hroute pte)
  | off => rw [hr] at h; cases h; rfl
  | block pa p => rw [hr] at h; cases h; rfl
  | denied => rw [hr] at h; cases h
  | noExecute => rw [hr] at h; cases h
  | noPage => rw [hr] at h; cases h

/-- A walk that reaches the hash table reads it in RAM. -/
theorem WalkInRam.table (hw : WalkInRam c.map m addr inD priv) {word : PA → BitVec 32} {pte : PA}
    (hroute : m.route word (m.enabled inD) addr inD priv = .page pte) :
    TableInRam c.map m addr := by
  obtain ⟨htr, hb, hn, -⟩ := route_page_entry hroute
  exact hw htr hb hn

/-- **A walk changes R and C only.** -/
theorem resolve_rcUpdate {r : Fresh} (hw : WalkInRam c.map m addr inD priv)
    (h : resolve c m mem addr inD rnW priv = .ok r) : RcUpdate c.map mem r.mem := by
  by_cases hp : ∃ pte, m.route (c.map.word mem) (m.enabled inD) addr inD priv = .page pte
  · obtain ⟨pte, hroute⟩ := hp
    exact (resolve_page hroute h (hw.table hroute)).2.2.1
  · exact .inl (resolve_mem_of_not_page (fun pte he => hp ⟨pte, he⟩) h)

end Mmu

end MrIss
