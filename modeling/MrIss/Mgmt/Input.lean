import MrIss.Lib.Lines
import MrIss.Lib.Run
/-!
# The management socket's input

`get_input` reads what has arrived behind what it has kept, terminates and
passes on every line in the buffer, and shuffles the rest down for the next
read. TCP decides where one read ends and the next begins.
-/

namespace MrIss

open Run Lines

namespace Mgmt

abbrev Byte : Type := BitVec 8

/-- `BUF_SZ`. -/
def bufSz : ℕ := 4096

/-- `'\n'`. -/
def newline : Byte := 0x0a

/-- What a pointer to bytes is as a string. -/
def cString (p : List Byte) : List Byte := p.takeWhile (· != 0)

/-! ## A line -/

/-- `tolower` in the C locale. -/
def toLower (b : Byte) : Byte := if 0x41#8 ≤ b ∧ b ≤ 0x5a#8 then b + 0x20 else b

/-- `"setlog"`. -/
def setlog : List Byte := [0x73, 0x65, 0x74, 0x6c, 0x6f, 0x67]

def findWhitespace (buf : List Byte) (p : ℕ) : ℕ :=
  p + ((buf.drop p).takeWhile fun b => b != 0x20 && b != 0).length

def skipWhitespace (buf : List Byte) (p : ℕ) : ℕ :=
  p + ((buf.drop p).takeWhile (· == 0x20)).length

/-- What `process_line` does to the buffer: the flag of a `SETLOG` is
terminated where it stands. No other command begins like it. -/
def processLine (buf : List Byte) (line : ℕ) : List Byte :=
  if ((buf.drop line).take 6).map toLower = setlog then
    let flag := skipWhitespace buf (findWhitespace buf line)
    buf.set (findWhitespace buf flag) 0
  else buf

/-! ## The buffer -/

/-- What `get_input` keeps: the first `current_input_pos` bytes of the
buffer, and the strings it has passed to `process_line`, first one first,
which nothing reads. -/
structure Input where
  buffer : List Byte
  passed : List (List Byte)
  deriving DecidableEq, Repr

/-- The variables of the search for newlines. -/
structure Search where
  buffer : List Byte
  startPt : ℕ
  passed : List (List Byte)

namespace Search

/-- One index of the search. -/
def look (s : Search) (i : ℕ) : Search :=
  if s.buffer[i]? = some newline then
    let buf := s.buffer.set i 0
    ⟨processLine buf s.startPt, i + 1, s.passed ++ [cString (buf.drop s.startPt)]⟩
  else s

/-- The search of the first `n` bytes. -/
def upTo (buf : List Byte) (passed : List (List Byte)) (n : ℕ) : Search :=
  (List.range n).foldl Search.look ⟨buf, 0, passed⟩

end Search

/-- What `get_input` does with what a read has returned. -/
def Input.take (s : Input) (piece : List Byte) : Input :=
  let buffer := s.buffer ++ piece
  let found := Search.upTo buffer s.passed buffer.length
  if found.startPt < buffer.length - 1 then
    ⟨found.buffer.drop found.startPt, found.passed⟩
  else
    -- "Newline was at end of buffer; nothing to save for the next read."
    ⟨[], found.passed⟩

/-- A read that returns something: the loop asks for as much as there is
space for, while there is any. -/
def Step (s : Input) (piece : List Byte) (t : Input) : Prop :=
  s.buffer.length < bufSz - 1 ∧ piece ≠ [] ∧ piece.length ≤ bufSz - s.buffer.length - 1 ∧
    t = s.take piece

def Input.init : Input := ⟨[], []⟩

/-! ## The search -/

variable {buf : List Byte} {passed : List (List Byte)} {n line i : ℕ} {s t : Input}

theorem length_takeWhile_le {α : Type} {p : α → Bool} {l : List α} {a : α} {i : ℕ}
    (h : l[i]? = some a) (ha : p a = false) : (l.takeWhile p).length ≤ i := by
  induction l generalizing i with
  | nil => simp at h
  | cons x l ih =>
    cases i with
    | zero =>
      obtain rfl : x = a := by simpa using h
      simp [ha]
    | succ i =>
      have := ih (i := i) (by simpa using h)
      rw [List.takeWhile_cons]
      split
      · simpa using this
      · simp

/-- A scan from the line on stops at its terminator. -/
theorem add_takeWhile_le {p : Byte → Bool} (hp : p 0 = false) (hz : buf[i]? = some 0)
    (h : line ≤ i) : line + ((buf.drop line).takeWhile p).length ≤ i := by
  have hget : (buf.drop line)[i - line]? = some 0 := by
    rw [List.getElem?_drop, Nat.add_sub_cancel' h]
    exact hz
  have := length_takeWhile_le hget hp
  omega

@[simp] theorem length_processLine : (processLine buf line).length = buf.length := by
  unfold processLine
  split <;> simp

/-- What follows the terminator of the line stays. -/
theorem drop_processLine (hz : buf[i]? = some 0) (h : line ≤ i) :
    (processLine buf line).drop (i + 1) = buf.drop (i + 1) := by
  unfold processLine
  split
  · have hflag : skipWhitespace buf (findWhitespace buf line) ≤ i :=
      add_takeWhile_le rfl hz (add_takeWhile_le rfl hz h)
    have hend := add_takeWhile_le (p := fun b => b != 0x20 && b != 0) rfl hz hflag
    exact List.drop_set_of_lt (Nat.lt_succ_of_le hend)
  · rfl

/-- What the search has come to after `n` bytes: what is behind the last
line is untouched, and the lines before it have been passed on. -/
structure Searched (buf : List Byte) (passed : List (List Byte)) (n : ℕ) (s : Search) : Prop where
  length : s.buffer.length = buf.length
  start : s.startPt ≤ n
  drop : s.buffer.drop s.startPt = buf.drop s.startPt
  begun : rest newline (buf.take n) = (buf.take n).drop s.startPt
  passed : s.passed = passed ++ (complete newline (buf.take n)).map cString

theorem cString_append_zero (p q : List Byte) : cString (p ++ 0 :: q) = cString p := by
  unfold cString
  induction p with
  | nil => simp
  | cons b p ih =>
    rw [List.cons_append, List.takeWhile_cons, List.takeWhile_cons, ih]

/-- The string that is passed on is the line before its terminator. -/
theorem cString_set {s : Search} (h : Searched buf passed n s) (hn : n < buf.length) :
    cString ((s.buffer.set n 0).drop s.startPt) = cString ((buf.take n).drop s.startPt) := by
  have hle : s.startPt ≤ (buf.take n).length := by
    rw [List.length_take]
    have := h.start
    omega
  have hset : (s.buffer.set n 0).drop s.startPt = (buf.set n 0).drop s.startPt := by
    rw [List.drop_set, List.drop_set, h.drop]
  rw [hset, List.set_eq_take_append_cons_drop, if_pos hn, List.drop_append_of_le_length hle,
    cString_append_zero]

theorem searched_look {s : Search} (h : Searched buf passed n s) (hn : n < buf.length) :
    Searched buf passed (n + 1) (s.look n) := by
  have hstart := h.start
  have htake : buf.take (n + 1) = buf.take n ++ [buf[n]] := by simp
  have hget : s.buffer[n]? = some buf[n] := by
    have := congrArg (·[n - s.startPt]?) h.drop
    simp only [List.getElem?_drop, Nat.add_sub_cancel' hstart] at this
    rw [this]
    simp
  unfold Search.look
  rw [hget]
  by_cases hnl : buf[n] = newline
  · rw [if_pos (by rw [hnl])]
    have hz : (s.buffer.set n 0)[n]? = some 0 := by
      have : n < s.buffer.length := h.length ▸ hn
      simp [this]
    refine ⟨?_, Nat.le_refl _, ?_, ?_, ?_⟩
    · simpa using h.length
    · dsimp only
      rw [drop_processLine hz hstart, List.drop_set_of_lt (by omega)]
      have := congrArg (List.drop (n + 1 - s.startPt)) h.drop
      rwa [List.drop_drop, List.drop_drop, show s.startPt + (n + 1 - s.startPt) = n + 1 by omega]
        at this
    · rw [htake, hnl, rest_append_singleton]
      simp only [List.drop_eq_nil_of_le, List.length_append, List.length_take,
        List.length_singleton, Nat.min_le_left, Nat.add_le_add_right]
    · dsimp only
      rw [cString_set h hn, htake, hnl, complete_append_singleton, h.passed, h.begun]
      simp
  · rw [if_neg (by simpa using hnl)]
    refine ⟨h.length, Nat.le_succ_of_le hstart, h.drop, ?_, ?_⟩
    · rw [htake, rest_append_of_ne hnl, h.begun, List.drop_append_of_le_length]
      rw [List.length_take]
      omega
    · rw [htake, complete_append_of_ne hnl]
      exact h.passed

/-- **What the search finds.** -/
theorem searched_upTo : ∀ n ≤ buf.length, Searched buf passed n (Search.upTo buf passed n) := by
  intro n
  induction n with
  | zero => intro _; exact ⟨rfl, Nat.le_refl _, rfl, by simp, by simp [Search.upTo]⟩
  | succ n ih =>
    intro hn
    rw [Search.upTo, List.range_succ, List.foldl_append]
    exact searched_look (ih (by omega)) hn

/-- **What a read leaves:** its lines have been passed on, and what is
behind them is kept if it is more than one byte. -/
theorem take_eq (s : Input) (piece : List Byte) : s.take piece =
    ⟨if (rest newline (s.buffer ++ piece)).length = 1 then []
        else rest newline (s.buffer ++ piece),
      s.passed ++ (complete newline (s.buffer ++ piece)).map cString⟩ := by
  have h : Searched (s.buffer ++ piece) s.passed (s.buffer ++ piece).length
      (Search.upTo (s.buffer ++ piece) s.passed (s.buffer ++ piece).length) :=
    searched_upTo _ (Nat.le_refl _)
  have hbegun := h.begun
  have hpassed := h.passed
  rw [List.take_length] at hbegun hpassed
  have hlen : (rest newline (s.buffer ++ piece)).length =
      (s.buffer ++ piece).length - (Search.upTo (s.buffer ++ piece) s.passed
        (s.buffer ++ piece).length).startPt := by
    rw [hbegun, List.length_drop]
  have hstart := h.start
  have hdrop := h.drop
  simp only [Input.take, hpassed]
  split
  case isTrue hlt => rw [if_neg (by omega), hdrop, hbegun]
  case isFalse hge =>
    by_cases hone : (rest newline (s.buffer ++ piece)).length = 1
    · rw [if_pos hone]
    · rw [if_neg hone, List.length_eq_zero_iff.mp (show (rest newline _).length = 0 by omega)]

/-! ## Runs -/

/-- **The condition** on how a stream is cut: no line has a NUL in it, and
no read ends one byte into a line that a later read completes. -/
def Kept (pieces : List (List Byte)) : Prop :=
  (∀ l ∈ complete newline pieces.flatten, 0 ∉ l) ∧
    ∀ pre post, pieces = pre ++ post → (rest newline pre.flatten).length = 1 →
      newline ∉ post.flatten

/-- Every line, its newline included, fits the buffer, and so does the one
that the stream ends in. -/
def Short (stream : List Byte) : Prop :=
  (∀ l ∈ complete newline stream, l.length + 1 ≤ bufSz - 1) ∧
    (rest newline stream).length + 1 ≤ bufSz - 1

variable {pieces post : List (List Byte)} {stream : List Byte}

/-- The number of bytes of some lines. -/
def total (ls : List (List Byte)) : ℕ := (ls.map List.length).sum

theorem total_cString_le (ls : List (List Byte)) : total (ls.map cString) ≤ total ls := by
  induction ls with
  | nil => exact Nat.le_refl _
  | cons l ls ih =>
    have : (cString l).length ≤ l.length := (List.takeWhile_sublist _).length_le
    simp only [total, List.map_cons, List.sum_cons] at ih ⊢
    omega

@[simp] theorem total_append (ls ls' : List (List Byte)) :
    total (ls ++ ls') = total ls + total ls' := by
  simp [total]

/-- What a line begun has lost, the lines that a piece completes lack. -/
theorem total_complete {b r : List Byte} (h : b <:+ r) (hr : newline ∉ r) (piece : List Byte) :
    total (complete newline (b ++ piece)) +
      (if newline ∈ piece then r.length - b.length else 0) =
        total (complete newline (r ++ piece)) := by
  have hb : newline ∉ b := fun hmem => hr (h.subset hmem)
  have hle := h.length_le
  by_cases hp : newline ∈ piece
  · obtain ⟨l, p, rfl, hl⟩ := List.eq_append_cons_of_mem hp
    rw [if_pos hp, ← List.append_assoc, ← List.append_assoc, complete_line (by simp [hb, hl]),
      complete_line (by simp [hr, hl])]
    simp only [total, List.map_cons, List.sum_cons, List.length_append]
    omega
  · rw [if_neg hp, complete_of_not_mem (by simp [hb, hp]), complete_of_not_mem (by simp [hr, hp]),
      Nat.add_zero]

/-- No more is passed on than has come. -/
structure Behind (stream : List Byte) (s : Input) : Prop where
  buffer : s.buffer <:+ rest newline stream
  passed : total s.passed ≤ total (complete newline stream)

theorem behind_step {piece : List Byte} (h : Behind stream s) (hstep : Step s piece t) :
    Behind (stream ++ piece) t := by
  obtain ⟨-, -, -, rfl⟩ := hstep
  rw [take_eq]
  constructor
  · dsimp only
    rw [rest_append stream]
    split
    · exact List.nil_suffix
    · exact rest_suffix h.buffer (not_mem_rest stream) piece
  · have hcut := total_cString_le (complete newline (s.buffer ++ piece))
    have hline := total_complete h.buffer (not_mem_rest stream) piece
    have hpassed := h.passed
    rw [complete_append stream, total_append, total_append]
    omega

theorem behind_of_run (hrun : Steps Step .init pieces s) : Behind pieces.flatten s := by
  induction hrun with
  | nil => exact ⟨List.nil_suffix, Nat.le_refl _⟩
  | snoc _ last ih =>
    rw [List.flatten_append, List.flatten_singleton]
    exact behind_step ih last

/-- A byte that is lost is missing for good once its line is complete. -/
theorem missing_of_run (h : Behind stream s) (hlost : s.buffer.length < (rest newline stream).length)
    (hrun : Steps Step s post t) :
    Behind (stream ++ post.flatten) t ∧
      (total t.passed < total (complete newline (stream ++ post.flatten)) ∨
        newline ∉ post.flatten ∧
          t.buffer.length < (rest newline (stream ++ post.flatten)).length) := by
  induction hrun with
  | nil => exact ⟨by simpa using h, .inr ⟨by simp, by simpa using hlost⟩⟩
  | @snoc ps u v p _ last ih =>
    obtain ⟨hu, hmiss⟩ := ih
    have hflat : stream ++ (ps ++ [p]).flatten = (stream ++ ps.flatten) ++ p := by simp
    rw [hflat]
    refine ⟨behind_step hu last, ?_⟩
    obtain ⟨-, -, -, rfl⟩ := last
    have hcut := total_cString_le (complete newline (u.buffer ++ p))
    have hline := total_complete hu.buffer (not_mem_rest _) p
    have hpassed := hu.passed
    rw [take_eq, complete_append (stream ++ ps.flatten), total_append, total_append]
    rcases hmiss with hlt | ⟨hno, hlt⟩
    · exact .inl (by omega)
    · by_cases hp : newline ∈ p
      · rw [if_pos hp] at hline
        exact .inl (by omega)
      · refine .inr ⟨by simp [hno, hp], ?_⟩
        have hb : newline ∉ u.buffer := fun hmem => not_mem_rest _ (hu.buffer.subset hmem)
        rw [rest_append (stream ++ ps.flatten), rest_of_not_mem (by simp [hb, hp]),
          rest_of_not_mem (by simp [not_mem_rest, hp])]
        dsimp only
        split
        · simp only [List.length_nil, List.length_append]
          omega
        · simp only [List.length_append]
          omega

/-- The strings that are passed on have no NUL. -/
theorem not_mem_passed (hrun : Steps Step .init pieces s) : ∀ l ∈ s.passed, 0 ∉ l := by
  refine hrun.invariant (I := fun s => ∀ l ∈ s.passed, (0 : Byte) ∉ l) (by simp [Input.init]) ?_
  rintro t p u h ⟨-, -, -, rfl⟩ l hl
  rw [take_eq, List.mem_append, List.mem_map] at hl
  rcases hl with hl | ⟨l, -, rfl⟩
  · exact h l hl
  · intro hz
    simpa using List.all_eq_true.mp List.all_takeWhile _ hz

/-- The buffer never holds one byte alone. -/
theorem buffer_ne_one (hrun : Steps Step .init pieces s) : s.buffer.length ≠ 1 := by
  refine hrun.invariant (I := fun s => s.buffer.length ≠ 1) (by simp [Input.init]) ?_
  rintro t p u h ⟨-, -, -, rfl⟩
  rw [take_eq]
  dsimp only
  split
  · simp
  · assumption

/-- **What is passed on as it stands was kept.** -/
theorem kept_of_passed (hrun : Steps Step .init pieces s)
    (h : s.passed = complete newline pieces.flatten) : Kept pieces := by
  refine ⟨h ▸ not_mem_passed hrun, ?_⟩
  rintro pre post rfl hone hnl
  obtain ⟨u, hpre, hpost⟩ := hrun.split
  have hu := behind_of_run hpre
  have hlost : u.buffer.length < (rest newline pre.flatten).length := by
    have := hu.buffer.length_le
    have := buffer_ne_one hpre
    omega
  rcases (missing_of_run hu hlost hpost).2 with hlt | ⟨hno, -⟩
  · rw [h, List.flatten_append] at hlt
    omega
  · exact hno hnl

theorem cString_of_not_mem {l : List Byte} (h : 0 ∉ l) : cString l = l := by
  have hall : ∀ b ∈ l, (b != 0) = true := fun b hb =>
    bne_iff_ne.mpr fun hz => h (hz ▸ hb)
  have htake : (l ++ []).takeWhile (· != 0) = l ++ [].takeWhile (· != 0) :=
    List.takeWhile_append_of_pos hall
  rw [List.append_nil, List.takeWhile_nil, List.append_nil] at htake
  exact htake

/-- **What was kept is passed on as it stands.** -/
theorem passed_of_kept (hkept : Kept pieces) {pre : List (List Byte)}
    (hrun : Steps Step .init pre s) : ∀ post, pieces = pre ++ post →
      s.passed = complete newline pre.flatten ∧
        (s.buffer = rest newline pre.flatten ∨ newline ∉ post.flatten) := by
  induction hrun with
  | nil => exact fun post _ => ⟨rfl, .inl rfl⟩
  | @snoc ps u v p hrun last ih =>
    intro post hpieces
    obtain ⟨hpassed, hbuf⟩ := ih (p :: post) (by simpa using hpieces)
    have hu := behind_of_run hrun
    obtain ⟨-, -, -, rfl⟩ := last
    have hflat : (ps ++ [p]).flatten = ps.flatten ++ p := by simp
    rw [take_eq, hflat, complete_append ps.flatten, rest_append ps.flatten, hpassed]
    rcases hbuf with hbuf | hno
    · rw [hbuf]
      constructor
      · -- A line of this read is a line of the stream.
        have hall : pieces.flatten = (ps.flatten ++ p) ++ post.flatten := by
          rw [hpieces, List.flatten_append, hflat]
        have hlines := hkept.1
        rw [hall, complete_append (ps.flatten ++ p), complete_append ps.flatten] at hlines
        refine congrArg (complete newline ps.flatten ++ ·) ?_
        refine (List.map_congr_left fun l hl => ?_).trans (List.map_id _)
        exact cString_of_not_mem (hlines l (by simp [hl]))
      · dsimp only
        split
        case isTrue hone =>
          refine .inr (hkept.2 (ps ++ [p]) post hpieces ?_)
          rw [hflat, rest_append, hone]
        case isFalse => exact .inl rfl
    · -- No line is completed any more.
      have hp : newline ∉ p := fun h => hno (by simp [h])
      have hb : newline ∉ u.buffer := fun h => not_mem_rest _ (hu.buffer.subset h)
      have hpost : newline ∉ post.flatten := fun h => hno (by simp [h])
      have hnone : complete newline (u.buffer ++ p) = [] :=
        complete_of_not_mem (by simp [hb, hp])
      have hnone' : complete newline (rest newline ps.flatten ++ p) = [] :=
        complete_of_not_mem fun hmem =>
          (List.mem_append.mp hmem).elim (not_mem_rest ps.flatten) hp
      rw [hnone, hnone']
      exact ⟨rfl, .inr hpost⟩

/-- **Commands and how TCP splits them.** However a stream is cut, the
strings that `get_input` passes on are the lines of the stream, in order,
if and only if the cut keeps them; and while the lines are short, it has
space to read on. -/
theorem passed_lines_iff (hrun : Steps Step .init pieces s) (hshort : Short pieces.flatten) :
    (s.passed = complete newline pieces.flatten ↔ Kept pieces) ∧
      s.buffer.length < bufSz - 1 := by
  refine ⟨⟨kept_of_passed hrun, fun h => ?_⟩, ?_⟩
  · exact (passed_of_kept h hrun [] (by simp)).1
  · have := (behind_of_run hrun).buffer.length_le
    have := hshort.2
    omega

/-- A line of which the first read brings two bytes. -/
theorem passed_lines_two : ∃ s, Steps Step .init [[0x41, 0x42], [newline]] s ∧
    s.passed = complete newline [0x41, 0x42, newline] := by
  have hfirst : Step .init [0x41, 0x42] ⟨[0x41, 0x42], []⟩ :=
    ⟨by decide, by decide, by decide, by decide⟩
  have hsecond : Step ⟨[0x41, 0x42], []⟩ [newline] ⟨[], [[0x41, 0x42]]⟩ :=
    ⟨by decide, by decide, by decide, by decide⟩
  have hrun := (Steps.single hfirst).snoc hsecond
  have hkept : Kept [[0x41, 0x42], [newline]] := by
    refine ⟨by decide, fun pre post h hone => ?_⟩
    rcases pre with _ | ⟨a, _ | ⟨b, pre⟩⟩
    · cases hone
    · cases h
      cases hone
    · obtain ⟨rfl, rfl⟩ : pre = [] ∧ post = [] := by simpa using congrArg List.length h
      simp
  have hshort : Short [0x41, 0x42, newline] := ⟨by decide, by decide⟩
  exact ⟨_, hrun, (passed_lines_iff hrun hshort).1.mpr hkept⟩

/-- A line of which the first read brings one byte is passed on without it. -/
theorem passed_lines_one : ∃ s, Steps Step .init [[0x41], [0x42, newline]] s ∧
    Short [0x41, 0x42, newline] ∧ complete newline [0x41, 0x42, newline] = [[0x41, 0x42]] ∧
    s.passed = [[0x42]] := by
  have hfirst : Step .init [0x41] ⟨[], []⟩ := ⟨by decide, by decide, by decide, by decide⟩
  have hsecond : Step ⟨[], []⟩ [0x42, newline] ⟨[], [[0x42]]⟩ :=
    ⟨by decide, by decide, by decide, by decide⟩
  exact ⟨_, (Steps.single hfirst).snoc hsecond, ⟨by decide, by decide⟩, by decide, rfl⟩

end Mgmt

end MrIss
