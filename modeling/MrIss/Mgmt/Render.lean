import MrIss.Lib.Cells
import MrIss.Machine.Run
import MrIss.Mgmt.Input
/-!
# What the management socket is sent

`stats_send` and `PPCCPUState::render_mr` print one text after the other
into a buffer, each with the space that is left, and end with a newline.
The space left is unsigned, and goes down by what a text would have needed:
once the texts need more than there is, it is beyond all bounds, and so is
what is written next.
-/

namespace MrIss

namespace Mgmt

/-! ## Printing -/

def ascii (s : String) : List Byte := s.toList.map fun c => BitVec.ofNat 8 c.toNat

/-- A digit, in lower case. -/
def digit (d : ℕ) : Byte := if d < 10 then 0x30 + BitVec.ofNat 8 d else 0x57 + BitVec.ofNat 8 d

/-- `%016llx` and `%08x` of a value of as many digits. -/
def hex {w : ℕ} (n : ℕ) (v : BitVec w) : List Byte :=
  (List.range n).reverse.map fun i => digit (v.toNat / 16 ^ i % 16)

/-- `%02d` of a number of at most two digits. -/
def twoDigits (i : ℕ) : List Byte := [digit (i / 10 % 10), digit (i % 10)]

/-- A number in decimal. -/
def decimal (n : ℕ) : List Byte := (Nat.toDigits 10 n).map fun c => BitVec.ofNat 8 c.toNat

/-- `%lld`. -/
def lld (v : BitVec 64) : List Byte :=
  (if v.toInt < 0 then ascii "-" else []) ++ decimal v.toInt.natAbs

/-- `snprintf` of a text with room for `s` bytes: as much of the text as
there is room for before a NUL. -/
def snprintf (p : ℕ) (s : BitVec 64) (text : List Byte) (out : Cells Byte) : Cells Byte :=
  if s = 0 then out else out.write p (text.take (s.toNat - 1) ++ [0])

/-- The variables of the two loops, `p` counted from the buffer's start. -/
structure Pen where
  s : BitVec 64
  p : ℕ
  out : Cells Byte

/-- `r = snprintf(p, s, ..)`, `s -= r` and `p += r`, where `r` is the length
of the whole text. It is never negative. -/
def Pen.print (w : Pen) (text : List Byte) : Pen :=
  { s := w.s - BitVec.ofNat 64 text.length
    p := w.p + text.length
    out := snprintf w.p w.s text w.out }

/-- The end of the two functions: "Force a newline at the end". -/
def Pen.finish (w : Pen) (len : BitVec 64) : Cells Byte :=
  w.out.write (if w.s ≤ 1 then (len - 2).toNat else w.p) [newline, 0]

/-- What the two functions do with a buffer of `len` bytes. -/
def render (len : BitVec 64) (texts : List (List Byte)) (m : ℕ → Byte) : Cells Byte :=
  (texts.foldl Pen.print ⟨len, 0, ⟨m, []⟩⟩).finish len

/-- `"%s %lld, "`. -/
def statsText (name : List Byte) (counter : BitVec 64) : List Byte :=
  cString name ++ ascii " " ++ lld counter ++ ascii ", "

/-- `stats_send`, with the counters' names and values, up to
`write_response`. -/
def statsSend (counters : List (List Byte × BitVec 64)) (m : ℕ → Byte) : Cells Byte :=
  render (BitVec.ofNat 64 bufSz) (counters.map fun c => statsText c.1 c.2) m

/-- A register, its name and `", "`. -/
def field (name : String) (v : Reg) : List Byte := ascii name ++ hex 8 v ++ ascii ", "

/-- The first text of `render_mr`. -/
def headText (s : CpuState) : List Byte :=
  ascii "ICOUNT " ++ hex 16 s.cpuInstCount ++ ascii ", " ++ field "PC " s.user.pc ++
    field "LR " s.user.lr ++ field "CTR " s.user.ctr ++ field "CR " s.user.cr ++
    field "XER " s.user.xer ++ field "MSR " s.os.msr ++ field "DEC " s.os.dec

/-- `"r%02d " FMT_REG ", "`. -/
def gprText (s : CpuState) (i : Fin 32) : List Byte :=
  ascii "r" ++ twoDigits i ++ field " " (s.user.gprs i)

/-- `PPCCPUState::render_mr`. -/
def renderMr (s : CpuState) (len : BitVec 64) (m : ℕ → Byte) : Cells Byte :=
  render len (headText s :: (List.finRange 32).map (gprText s)) m

/-- The buffer of `size` bytes has a string that ends in a newline. -/
def Terminated (size : ℕ) (c : Cells Byte) : Prop :=
  ∃ e, e + 1 < size ∧ (∀ i < e, c.val i ≠ 0) ∧ c.val e = newline ∧ c.val (e + 1) = 0

/-- Nothing is written outside the buffer, and it ends in a newline. -/
def Rendered (size : ℕ) (c : Cells Byte) : Prop := c.Below size ∧ Terminated size c

/-! ## The texts -/

/-- The space the texts need, but for the NUL. -/
def needed (texts : List (List Byte)) : ℕ := (texts.map List.length).sum

/-- A text without a NUL whose length is an `int`. -/
structure Printable (text : List Byte) : Prop where
  nonzero : ∀ b ∈ text, b ≠ 0
  int : text.length < 2 ^ 31

theorem digit_ne_zero {d : ℕ} (h : d < 16) : digit d ≠ 0 := by
  have hall : ∀ d : Fin 16, digit d ≠ 0 := by decide
  exact hall ⟨d, h⟩

theorem hex_nonzero {w n : ℕ} {v : BitVec w} : ∀ b ∈ hex n v, b ≠ 0 := by
  intro b hb
  obtain ⟨i, -, rfl⟩ := List.mem_map.mp hb
  exact digit_ne_zero (Nat.mod_lt _ (by decide))

@[simp] theorem length_hex {w n : ℕ} {v : BitVec w} : (hex n v).length = n := by
  rw [hex, List.length_map, List.length_reverse, List.length_range]

theorem decimal_nonzero {n : ℕ} : ∀ b ∈ decimal n, b ≠ 0 := by
  intro b hb
  obtain ⟨c, hc, rfl⟩ := List.mem_map.mp hb
  have hdigit := Nat.isDigit_of_mem_toDigits (by decide) (by decide) hc
  simp only [Char.isDigit, ge_iff_le, Bool.and_eq_true, decide_eq_true_eq] at hdigit
  have hlo : 48 ≤ c.toNat := hdigit.1
  have hhi : c.toNat ≤ 57 := hdigit.2
  intro h
  have hmod : c.toNat % 2 ^ 8 = 0 := congrArg BitVec.toNat h
  omega

theorem lld_nonzero {v : BitVec 64} : ∀ b ∈ lld v, b ≠ 0 := by
  intro b hb
  rw [lld, List.mem_append] at hb
  rcases hb with hb | hb
  · split_ifs at hb
    · exact (show ∀ b ∈ ascii "-", b ≠ 0 by decide) b hb
    · cases hb
  · exact decimal_nonzero b hb

theorem cString_nonzero {name : List Byte} : ∀ b ∈ cString name, b ≠ 0 := by
  intro b hb
  simpa using List.all_eq_true.mp List.all_takeWhile b hb

theorem field_nonzero {name : String} (hname : ∀ b ∈ ascii name, b ≠ 0) {v : Reg} :
    ∀ b ∈ field name v, b ≠ 0 := by
  intro b hb
  have hsep : ∀ b ∈ ascii ", ", b ≠ 0 := by decide
  rw [field, List.mem_append, List.mem_append] at hb
  rcases hb with (hb | hb) | hb
  · exact hname b hb
  · exact hex_nonzero b hb
  · exact hsep b hb

/-- A counter's text is one if it is not too long. -/
theorem printable_statsText {name : List Byte} {counter : BitVec 64}
    (h : (statsText name counter).length < 2 ^ 31) : Printable (statsText name counter) := by
  refine ⟨fun b hb => ?_, h⟩
  have hspace : ∀ b ∈ ascii " ", b ≠ 0 := by decide
  have hsep : ∀ b ∈ ascii ", ", b ≠ 0 := by decide
  simp only [statsText, List.mem_append] at hb
  rcases hb with ((hb | hb) | hb) | hb
  · exact cString_nonzero b hb
  · exact hspace b hb
  · exact lld_nonzero b hb
  · exact hsep b hb

@[simp] theorem length_field {name : String} {v : Reg} :
    (field name v).length = (ascii name).length + 10 := by
  rw [field, List.length_append, List.length_append, length_hex]
  rfl

/-- The first text is as long as its format says, whatever the registers. -/
theorem length_headText (s : CpuState) : (headText s).length = 120 := by
  simp only [headText, List.length_append, length_field, length_hex]
  rfl

theorem length_gprText (s : CpuState) (i : Fin 32) : (gprText s i).length = 14 := by
  simp only [gprText, List.length_append, length_field]
  rfl

theorem printable_headText (s : CpuState) : Printable (headText s) := by
  refine ⟨fun b hb => ?_, by rw [length_headText]; decide⟩
  have hicount : ∀ b ∈ ascii "ICOUNT ", b ≠ 0 := by decide
  have hsep : ∀ b ∈ ascii ", ", b ≠ 0 := by decide
  simp only [headText, List.mem_append] at hb
  rcases hb with ((((((((hb | hb) | hb) | hb) | hb) | hb) | hb) | hb) | hb) | hb
  · exact hicount b hb
  · exact hex_nonzero b hb
  · exact hsep b hb
  all_goals exact field_nonzero (by decide) b hb

theorem printable_gprText (s : CpuState) (i : Fin 32) : Printable (gprText s i) := by
  refine ⟨fun b hb => ?_, by rw [length_gprText]; decide⟩
  have hr : ∀ b ∈ ascii "r", b ≠ 0 := by decide
  simp only [gprText, List.mem_append] at hb
  rcases hb with (hb | hb) | hb
  · exact hr b hb
  · have hi : i.val / 10 % 10 < 16 ∧ i.val % 10 < 16 := by omega
    rw [twoDigits, List.mem_cons, List.mem_singleton] at hb
    rcases hb with rfl | rfl
    · exact digit_ne_zero hi.1
    · exact digit_ne_zero hi.2
  · exact field_nonzero (by decide) b hb

/-- The state needs 568 bytes. -/
theorem needed_renderMr (s : CpuState) :
    needed (headText s :: (List.finRange 32).map (gprText s)) = 568 := by
  have hgprs : ((List.finRange 32).map (gprText s)).map List.length = List.replicate 32 14 := by
    rw [List.map_map]
    exact List.map_eq_replicate_iff.mpr fun i _ => length_gprText s i
  rw [needed, List.map_cons, List.sum_cons, length_headText, hgprs]
  rfl

/-! ## While there is room -/

variable {texts : List (List Byte)} {text : List Byte} {w : Pen} {size : ℕ} {m : ℕ → Byte}

/-- The loop after texts that the buffer has room for. -/
structure Roomy (size : ℕ) (w : Pen) : Prop where
  fits : w.p ≤ size
  space : w.s.toNat = size - w.p
  below : w.out.Below size
  nonzero : ∀ i, i < w.p → i + 1 < size → w.out.val i ≠ 0

/-- A text that there is room for. -/
theorem Roomy.print (h : Roomy size w) (ht : Printable text) (hfit : w.p + text.length ≤ size) :
    Roomy size (w.print text) where
  fits := hfit
  space := by
    have hint := ht.int
    rw [show (w.print text).s = w.s - BitVec.ofNat 64 text.length from rfl,
      show (w.print text).p = w.p + text.length from rfl, BitVec.toNat_sub, BitVec.toNat_ofNat,
      h.space]
    have := w.s.isLt
    rw [h.space] at this
    omega
  below := by
    show (snprintf w.p w.s text w.out).Below size
    rw [snprintf]
    split_ifs with hs
    · exact h.below
    · refine h.below.write ?_
      have hpos : w.s.toNat ≠ 0 := fun h0 => hs (BitVec.eq_of_toNat_eq h0)
      rw [List.length_append, List.length_take, List.length_singleton]
      have := h.space
      omega
  nonzero := by
    intro i hi hsize
    show (snprintf w.p w.s text w.out).val i ≠ 0
    have hspace := h.space
    have hip : i < w.p + text.length := hi
    rw [snprintf]
    split_ifs with hs
    · have hzero : w.s.toNat = 0 := by rw [hs]; rfl
      exact h.nonzero i (by omega) hsize
    · rcases Nat.lt_or_ge i w.p with hlt | hge
      · rw [Cells.write_of_lt hlt]
        exact h.nonzero i hlt hsize
      · have hshown : i - w.p < (text.take (w.s.toNat - 1)).length := by
          rw [List.length_take]
          omega
        rw [Cells.write_of_mem hge (by rw [List.length_append]; omega), List.get_eq_getElem,
          List.getElem_append_left hshown]
        exact ht.nonzero _ (List.mem_of_mem_take (List.getElem_mem hshown))

/-- As long as the texts fit, there is room. -/
theorem Roomy.foldl (h : Roomy size w) (ht : ∀ text ∈ texts, Printable text)
    (hfit : w.p + needed texts ≤ size) : Roomy size (texts.foldl Pen.print w) := by
  induction texts generalizing w with
  | nil => exact h
  | cons text texts ih =>
    rw [needed, List.map_cons, List.sum_cons] at hfit
    have hp : (w.print text).p = w.p + text.length := rfl
    refine ih (h.print (ht text (by simp)) (by omega)) (fun t hm => ht t (by simp [hm])) ?_
    rw [hp, needed]
    omega

/-- What is printed with room for it ends as it should. -/
theorem Roomy.finish {len : BitVec 64} (h : Roomy len.toNat w) (hlen : 2 ≤ len.toNat) :
    Rendered len.toNat (w.finish len) := by
  have hspace := h.space
  have hfits := h.fits
  -- The newline goes behind the texts, or to the last place but one.
  obtain ⟨e, he, hle, hsize⟩ : ∃ e, w.finish len = w.out.write e [newline, 0] ∧ e ≤ w.p ∧
      e + 2 ≤ len.toNat := by
    refine ⟨_, rfl, ?_⟩
    split_ifs with hs
    · have hs' : w.s.toNat ≤ 1 := BitVec.le_def.mp hs
      rw [BitVec.toNat_sub_of_le (BitVec.le_def.mpr (show (2 : BitVec 64).toNat ≤ _ from hlen))]
      show len.toNat - 2 ≤ w.p ∧ len.toNat - 2 + 2 ≤ len.toNat
      omega
    · have hs' : ¬ w.s.toNat ≤ 1 := fun h => hs (BitVec.le_def.mpr h)
      omega
  rw [he]
  refine ⟨h.below.write hsize, e, by omega, fun i hi => ?_, ?_, ?_⟩
  · rw [Cells.write_of_lt hi]
    exact h.nonzero i (by omega) (by omega)
  · rw [Cells.write_of_mem le_rfl (by simp)]
    simp
  · rw [Cells.write_of_mem (by omega) (by simp)]
    simp

/-! ## When there is none -/

/-- Every later write keeps what has been written outside. -/
theorem below_of_print (h : (w.print text).out.Below size) : w.out.Below size := by
  have hout : (snprintf w.p w.s text w.out).Below size := h
  rw [snprintf] at hout
  split_ifs at hout with hs
  · exact hout
  · exact hout.of_write

theorem below_of_finish {len : BitVec 64} (h : ((texts.foldl Pen.print w).finish len).Below size) :
    w.out.Below size := by
  induction texts generalizing w with
  | nil => exact h.of_write
  | cons text texts ih => exact below_of_print (ih h)

/-- Beyond the buffer the space left is so large that something is written,
be it the next text or the newline. -/
theorem not_below_beyond {len : BitVec 64} (hp : size < w.p) (hs : 1 < w.s.toNat) :
    ¬ ((texts.foldl Pen.print w).finish len).Below size := by
  intro h
  cases texts with
  | nil =>
    have hfin : (w.out.write (if w.s ≤ 1 then (len - 2).toNat else w.p) [newline, 0]).Below size := h
    have hs' : ¬ w.s ≤ 1 := fun hle => Nat.not_le.mpr hs (BitVec.le_def.mp hle)
    rw [if_neg hs'] at hfin
    exact Cells.not_below_write (by simp) hp.le hfin
  | cons text texts =>
    have hout : (w.print text).out.Below size := below_of_finish h
    have hs' : ¬ w.s = 0 := fun h0 => by
      rw [h0] at hs
      exact absurd hs (by decide)
    rw [Pen.print, snprintf, if_neg hs'] at hout
    exact Cells.not_below_write (by simp) hp.le hout

/-- **Texts that do not fit are written outside the buffer.** The first text
too many takes the space left below zero. -/
theorem Roomy.escapes {len : BitVec 64} (h : Roomy size w)
    (ht : ∀ text ∈ texts, Printable text) (hover : size < w.p + needed texts) :
    ¬ ((texts.foldl Pen.print w).finish len).Below size := by
  induction texts generalizing w with
  | nil => exact absurd h.fits (by simpa [needed] using hover)
  | cons text texts ih =>
    rw [needed, List.map_cons, List.sum_cons] at hover
    have hp : (w.print text).p = w.p + text.length := rfl
    have htext := ht text (by simp)
    rcases Nat.lt_or_ge size (w.p + text.length) with hlt | hge
    · refine not_below_beyond (w := w.print text) (hp ▸ hlt) ?_
      have hint := htext.int
      have hspace := h.space
      have hfits := h.fits
      have hmod : text.length % 2 ^ 64 = text.length := Nat.mod_eq_of_lt (by omega)
      rw [show (w.print text).s = w.s - BitVec.ofNat 64 text.length from rfl, BitVec.toNat_sub,
        BitVec.toNat_ofNat, hmod]
      omega
    · refine ih (h.print htext hge) (fun t hm => ht t (by simp [hm])) ?_
      rw [hp, needed]
      omega

/-! ## The two functions -/

/-- The loop's variables at its start. -/
theorem roomy_start {len : BitVec 64} : Roomy len.toNat ⟨len, 0, ⟨m, []⟩⟩ where
  fits := Nat.zero_le _
  space := rfl
  below := Cells.below_nil m
  nonzero i hi := absurd hi (Nat.not_lt_zero i)

/-- Texts that need more than the buffer has are not kept in it. -/
theorem not_below_render {len : BitVec 64} (ht : ∀ text ∈ texts, Printable text)
    (hover : len.toNat < needed texts) : ¬ (render len texts m).Below len.toNat :=
  roomy_start.escapes ht (by rwa [Nat.zero_add])

/-- Texts printed into a buffer stay in it exactly if they need no more than
it has. -/
theorem render_iff {len : BitVec 64} (hlen : 2 ≤ len.toNat)
    (ht : ∀ text ∈ texts, Printable text) :
    Rendered len.toNat (render len texts m) ↔ needed texts ≤ len.toNat := by
  constructor
  · intro h
    by_contra hover
    exact not_below_render ht (Nat.not_le.mp hover) h.1
  · intro hfit
    exact (roomy_start.foldl ht (by rwa [Nat.zero_add])).finish hlen

theorem printable_renderMr (s : CpuState) :
    ∀ text ∈ headText s :: (List.finRange 32).map (gprText s), Printable text := by
  intro text htext
  rcases List.mem_cons.mp htext with rfl | htext
  · exact printable_headText s
  · obtain ⟨i, -, rfl⟩ := List.mem_map.mp htext
    exact printable_gprText s i

/-- The space that `stats_send` needs. -/
def statsNeeded (counters : List (List Byte × BitVec 64)) : ℕ :=
  needed (counters.map fun c => statsText c.1 c.2)

/-- **When the replies stay inside their buffers.** `stats_send` writes only
inside the output buffer, and leaves it terminated, exactly if the counters
need no more than the buffer has; `render_mr` exactly if the buffer has the
568 bytes that every state needs. -/
theorem rendered_iff (m : ℕ → Byte) :
    (∀ counters : List (List Byte × BitVec 64),
      (∀ c ∈ counters, (statsText c.1 c.2).length < 2 ^ 31) →
        (Rendered bufSz (statsSend counters m) ↔ statsNeeded counters ≤ bufSz)) ∧
      ∀ (s : CpuState) (len : BitVec 64), 2 ≤ len.toNat →
        (Rendered len.toNat (renderMr s len m) ↔ 568 ≤ len.toNat) := by
  constructor
  · intro counters hint
    have hbuf : 2 ≤ (BitVec.ofNat 64 bufSz).toNat := by decide
    refine render_iff hbuf fun text htext => ?_
    obtain ⟨c, hc, rfl⟩ := List.mem_map.mp htext
    exact printable_statsText (hint c hc)
  · intro s len hlen
    rw [← needed_renderMr s]
    exact render_iff hlen (printable_renderMr s)

/-- A counter that has not been counted. -/
def fewCounters : List (List Byte × BitVec 64) := [(ascii "CTR_INST", 0)]

/-- Both at inputs that fit. -/
theorem rendered_iff_small :
    Rendered bufSz (statsSend fewCounters fun _ => 0) ∧
      Rendered 4096 (renderMr .construct 4096 fun _ => 0) :=
  ⟨((rendered_iff fun _ => 0).1 fewCounters (by decide)).mpr (by decide),
    ((rendered_iff fun _ => 0).2 .construct 4096 (by decide)).mpr (by decide)⟩

/-- Two hundred counters that have grown large. -/
def largeCounters : List (List Byte × BitVec 64) :=
  List.replicate 200 (ascii "CTR_INST", BitVec.ofNat 64 (2 ^ 62))

/-- **The space left wraps.** With counters that have grown large
`stats_send` writes behind its buffer, and so does `render_mr` in a buffer
of 512 bytes. -/
theorem written_outside :
    ¬ (statsSend largeCounters fun _ => 0).Below bufSz ∧
      ¬ (renderMr .construct 512 fun _ => 0).Below 512 := by
  have hlength : (statsText (ascii "CTR_INST") (BitVec.ofNat 64 (2 ^ 62))).length = 30 := by
    decide +kernel
  have htexts : largeCounters.map (fun c => statsText c.1 c.2) =
      List.replicate 200 (statsText (ascii "CTR_INST") (BitVec.ofNat 64 (2 ^ 62))) :=
    List.map_replicate
  constructor
  · have hneeded : needed (largeCounters.map fun c => statsText c.1 c.2) = 6000 := by
      rw [htexts, needed, List.map_replicate, hlength, List.sum_replicate_nat]
    refine not_below_render (fun text htext => ?_) (by rw [hneeded]; decide)
    rw [htexts] at htext
    rw [List.eq_of_mem_replicate htext]
    exact printable_statsText (by rw [hlength]; decide)
  · exact not_below_render (printable_renderMr _) (by rw [needed_renderMr]; decide)

end Mgmt

end MrIss
