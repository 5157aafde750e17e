import MrIss.Dev.SdCard
/-!
# Transfers and the commands they belong to

A session is any sequence of commands, reads and writes on a card with an
image, with a log of what was asked and what came back. From the log alone
one sees to which command a transfer belongs, and whether it was one of the
application; the card's variables agree with it.
-/

namespace MrIss

namespace Sd

open ByteFile DevSDCard

/-! ## Sessions -/

/-- A call of the card. -/
inductive Call where
  | command (cmd arg : BitVec 32)
  | read (size : BitVec 32)
  | write (data : ℕ → Byte) (size : BitVec 32)

/-- A command that was issued, and whether it was accepted. -/
structure Issued where
  cmd : BitVec 32
  arg : BitVec 32
  accepted : Bool
  deriving DecidableEq

/-- A call with what came back. -/
inductive Event where
  | command (i : Issued)
  | transfer (reply : Reply)

/-- The card, its image and the log. -/
structure Session where
  card : DevSDCard
  image : Bytes
  log : List Event

namespace Session

/-- A card is given an image. -/
def start (c : DevSDCard) (image : Bytes) : Session := ⟨c.init image.length, image, []⟩

def step (s : Session) : Call → Session
  | .command cmd arg =>
    let r := s.card.command cmd arg
    { s with card := r.2.2, log := s.log ++ [.command ⟨cmd, arg, r.1⟩] }
  | .read size =>
    let r := s.card.read s.image size
    { s with card := r.2.2, log := s.log ++ [.transfer r.1] }
  | .write data size =>
    let r := s.card.write s.image data size
    { card := r.2.2, image := r.2.1, log := s.log ++ [.transfer r.1] }

def run (s : Session) (calls : List Call) : Session := calls.foldl step s

end Session

/-! ## What the log says -/

/-- The commands of a log. -/
def commands (log : List Event) : List Issued :=
  log.filterMap fun
    | .command i => some i
    | .transfer _ => none

/-- The replies of the transfers since the last command. -/
def since (log : List Event) : List Reply :=
  log.foldl (fun rs e =>
    match e with
    | .command _ => []
    | .transfer r => rs ++ [r]) []

/-- A command that follows these is one of the application: the last of them
is an accepted CMD55. -/
def AfterApp (cs : List Issued) : Prop := ∃ arg, cs.getLast? = some ⟨55, arg, true⟩

variable {log : List Event} {i : Issued} {r : Reply} {cs : List Issued}

@[simp] theorem commands_command : commands (log ++ [.command i]) = commands log ++ [i] := by
  simp [commands]

@[simp] theorem commands_transfer : commands (log ++ [.transfer r]) = commands log := by
  simp [commands]

@[simp] theorem since_command : since (log ++ [.command i]) = [] := by
  simp [since]

@[simp] theorem since_transfer : since (log ++ [.transfer r]) = since log ++ [r] := by
  simp [since]

@[simp] theorem afterApp_append : AfterApp (cs ++ [i]) ↔ i.cmd = 55 ∧ i.accepted = true := by
  obtain ⟨cmd, arg, accepted⟩ := i
  simp [AfterApp]

/-! ## What a transfer leaves -/

namespace DevSDCard

variable {c : DevSDCard} {image : Bytes} {data : ℕ → Byte} {size cmd arg : BitVec 32}

theorem readImage_card (c : DevSDCard) (image : Bytes) (n : ℕ) :
    (c.readImage image n).1 ≠ .idle ∧ (c.readImage image n).2.2 = c.toTran := by
  unfold readImage
  dsimp only
  split <;> exact ⟨by simp, rfl⟩

/-- A read out of state does nothing. -/
theorem read_of_ne (h : c.state ≠ .DATA) : c.read image size = (.idle, [], c) := by
  rw [read, if_pos h]

/-- A read in state is over, with or without the data. -/
theorem read_card (h : c.state = .DATA) :
    (c.read image size).1 ≠ .idle ∧ (c.read image size).2.2 = c.toTran := by
  rw [read, if_neg (not_not.2 h)]
  split
  · exact ⟨by simp, rfl⟩
  split
  · exact ⟨by simp, rfl⟩
  split
  · exact ⟨by simp, rfl⟩
  split
  · exact readImage_card c image 512
  split
  · exact readImage_card c image size.toNat
  · exact ⟨by simp, rfl⟩

theorem write_of_ne (h : c.state ≠ .DATA) : c.write image data size = (.idle, image, c) := by
  rw [write, if_pos h]

theorem write_card (h : c.state = .DATA) :
    (c.write image data size).1 ≠ .idle ∧ (c.write image data size).2.2 = c.toTran := by
  rw [write, if_neg (not_not.2 h)]
  split
  · exact ⟨by simp, rfl⟩
  split
  · exact ⟨by simp, rfl⟩
  · exact ⟨by simp, rfl⟩

/-- Of the commands only CMD55 waits for another. -/
theorem run_pending (c : DevSDCard) (arg : BitVec 32) (n : ℕ) :
    (c.run arg n).acmdPending = if n = 55 then true else c.acmdPending := by
  unfold run
  split
  case h_13 h =>
    rw [if_neg (by assumption)]
  all_goals rfl

/-- A command waits for one of the application exactly if it is a CMD55 that
is accepted. -/
theorem after_pending (hfd : c.fd = true) :
    (c.after cmd arg).acmdPending = true ↔ cmd = 55 ∧ (c.command cmd arg).1 = true := by
  rw [command_ok]
  unfold after answer
  cases hpend : c.acmdPending with
  | true =>
    rw [if_pos rfl, if_pos rfl]
    constructor
    · intro h
      cases h
    · rintro ⟨rfl, -, h, -⟩
      exact absurd rfl h
  | false =>
    rw [if_neg (by simp), if_neg (by simp), run_pending]
    constructor
    · intro h
      have hcmd : cmd.toNat = 55 := by
        by_contra hne
        rw [if_neg hne] at h
        cases h
      obtain rfl : cmd = 55 := BitVec.eq_of_toNat_eq hcmd
      exact ⟨rfl, hfd, by decide, by decide⟩
    · rintro ⟨rfl, -⟩
      rfl

/-- The commands of a transfer leave the offset of their block. -/
theorem after_offset (hpend : c.acmdPending = false)
    (hcmd : cmd = 17 ∨ cmd = 18 ∨ cmd = 24 ∨ cmd = 25) :
    (c.after cmd arg).offset = arg * 512 := by
  rw [after_transfer hpend arg hcmd]

end DevSDCard

/-! ## The card agrees with the log -/

/-- What the card remembers is the last command of the log: its words, whether
it was one of the application, whether it was accepted and, in the state for
a transfer, that none was made since. -/
structure Remembers (c : DevSDCard) (log : List Event) (before : List Issued) (last : Issued) :
    Prop where
  commands : commands log = before ++ [last]
  lastCmd : c.lastCmd = last.cmd
  lastAcmd : c.lastAcmd = true ↔ AfterApp before
  accepted : last.accepted = true ↔
    (if c.lastAcmd then aType last.cmd.toNat else rType last.cmd.toNat) ≠ .unknown ∧
      (if c.lastAcmd then aType last.cmd.toNat else rType last.cmd.toNat) ≠ .R0
  offset : c.lastAcmd = false →
    (last.cmd = 17 ∨ last.cmd = 18 ∨ last.cmd = 24 ∨ last.cmd = 25) → c.offset = last.arg * 512

/-- What holds between the calls of a session. -/
structure Session.Inv (s : Session) : Prop where
  fd : s.card.fd = true
  pending : s.card.acmdPending = true ↔ AfterApp (commands s.log)
  /-- In the state for a transfer no transfer was made since the last command. -/
  data : s.card.state = .DATA →
    (∃ before last, Remembers s.card s.log before last) ∧ ∀ r ∈ since s.log, r = .idle
  /-- One transfer since the last command has succeeded, at most. -/
  one : (since s.log).count .done ≤ 1

namespace Session

variable {s : Session}

theorem inv_start (c : DevSDCard) (image : Bytes) : (start c image).Inv where
  fd := rfl
  pending := ⟨nofun, fun ⟨_, h⟩ => by cases h⟩
  data := nofun
  one := Nat.zero_le 1

/-- A command is what the card then remembers. -/
theorem inv_command (h : s.Inv) (cmd arg : BitVec 32) : (s.step (.command cmd arg)).Inv := by
  obtain ⟨hlast, -, hacmd, hfd, -⟩ := after_last s.card cmd arg
  have hcard : (s.card.command cmd arg).2.2 = s.card.after cmd arg := command_card h.fd
  constructor
  · simp only [step, hcard, hfd]
    exact h.fd
  · simp only [step, hcard, commands_command, afterApp_append]
    exact DevSDCard.after_pending h.fd
  · intro _
    refine ⟨⟨commands s.log, ⟨cmd, arg, (s.card.command cmd arg).1⟩, ?_⟩, ?_⟩
    · simp only [step, hcard]
      refine ⟨commands_command, hlast, ?_, ?_, ?_⟩
      · rw [hacmd]
        exact h.pending
      · rw [hacmd, command_ok]
        exact and_iff_right h.fd
      · rw [hacmd]
        exact DevSDCard.after_offset
    · simp [step]
  · simp [step]

/-- A transfer ends the state it is made in. -/
theorem inv_transfer (h : s.Inv) {r : Reply} {c' : DevSDCard} (image' : Bytes)
    (hstep : (s.card.state = .DATA ∧ c' = s.card.toTran) ∨ (r = .idle ∧ c' = s.card)) :
    Inv ⟨c', image', s.log ++ [.transfer r]⟩ := by
  rcases hstep with ⟨hdata, rfl⟩ | ⟨rfl, rfl⟩
  · refine ⟨h.fd, ?_, nofun, ?_⟩
    · rw [commands_transfer]
      exact h.pending
    · have hnone : (since s.log).count .done = 0 := by
        refine List.count_eq_zero.2 fun hin => ?_
        cases (h.data hdata).2 _ hin
      rw [since_transfer, List.count_append, hnone, Nat.zero_add]
      exact List.count_le_length
  · refine ⟨h.fd, ?_, fun hdata => ?_, ?_⟩
    · rw [commands_transfer]
      exact h.pending
    · obtain ⟨⟨before, last, hl⟩, hidle⟩ := h.data hdata
      refine ⟨⟨before, last, ?_, hl.lastCmd, hl.lastAcmd, hl.accepted, hl.offset⟩, ?_⟩
      · rw [commands_transfer]
        exact hl.commands
      · rw [since_transfer]
        exact List.forall_mem_append.2 ⟨hidle, by simp⟩
    · rw [since_transfer, List.count_append]
      exact h.one

/-- **The invariant of a session.** -/
theorem inv_step (h : s.Inv) (call : Call) : (s.step call).Inv := by
  cases call with
  | command cmd arg => exact inv_command h cmd arg
  | read size =>
    refine inv_transfer h s.image ?_
    by_cases hdata : s.card.state = .DATA
    · exact .inl ⟨hdata, (DevSDCard.read_card hdata).2⟩
    · rw [DevSDCard.read_of_ne hdata]
      exact .inr ⟨rfl, rfl⟩
  | write data size =>
    refine inv_transfer h _ ?_
    by_cases hdata : s.card.state = .DATA
    · exact .inl ⟨hdata, (DevSDCard.write_card hdata).2⟩
    · rw [DevSDCard.write_of_ne hdata]
      exact .inr ⟨rfl, rfl⟩

theorem inv_run (calls : List Call) (h : s.Inv) : (s.run calls).Inv := by
  induction calls generalizing s with
  | nil => exact h
  | cons call calls ih => exact ih (inv_step h call)

end Session

/-! ## Transfers belong to the last command -/

/-- The bytes of the image at a block, in 32 bits. -/
def blockOffset (arg : BitVec 32) : ℕ := 512 * arg.toNat % 2 ^ 32

theorem blockOffset_eq (arg : BitVec 32) : (arg * 512).toNat = blockOffset arg := by
  have h512 : (512 : BitVec 32).toNat = 512 := rfl
  rw [BitVec.toNat_mul, h512, blockOffset, Nat.mul_comm]

/-- What a read delivers for a command, `app` if it was one of the
application. -/
inductive Delivers (s : Session) (size : BitVec 32) (app : Prop) (i : Issued) (bs : Bytes) : Prop
  | switch (happ : ¬ app) (hcmd : i.cmd = 6) (hbs : bs = writeSwitchStatus)
  | block (happ : ¬ app) (hcmd : i.cmd = 17) (hlen : bs.length = 512)
      (hbs : bs = pread s.image (blockOffset i.arg) 512)
  | blocks (happ : ¬ app) (hcmd : i.cmd = 18) (hlen : bs.length = size.toNat)
      (hbs : bs = pread s.image (blockOffset i.arg) size.toNat)
  | status (happ : app) (hcmd : i.cmd = 13) (hbs : bs = writeStatus s.card.width)
  | scr (happ : app) (hcmd : i.cmd = 51) (hbs : bs = writeSCR)

/-- What a write takes for a command. -/
inductive Takes (s : Session) (data : ℕ → Byte) (size : BitVec 32) (app : Prop) (i : Issued)
    (image' : Bytes) : Prop
  | block (happ : ¬ app) (hcmd : i.cmd = 24)
      (himage : image' = pwrite s.image (blockOffset i.arg) (taken data 512))
  | blocks (happ : ¬ app) (hcmd : i.cmd = 25)
      (himage : image' = pwrite s.image (blockOffset i.arg) (taken data size.toNat))

/-- An image that is read completely. -/
theorem readImage_done {c : DevSDCard} {image : Bytes} {n : ℕ}
    (h : (c.readImage image n).1 = .done) :
    (c.readImage image n).2.1 = pread image c.offset.toNat n ∧
      (pread image c.offset.toNat n).length = n := by
  unfold readImage at h ⊢
  dsimp only at h ⊢
  by_cases hlen : (pread image c.offset.toNat n).length ≠ n
  · rw [if_pos hlen] at h
    cases h
  · rw [if_neg hlen]
    exact ⟨rfl, not_not.1 hlen⟩

/-- The commands of a transfer are accepted. -/
theorem Remembers.accepted_of {c : DevSDCard} {log : List Event} {before : List Issued}
    {last : Issued} (h : Remembers c log before last)
    (hcmd : (c.lastAcmd = false ∧ (last.cmd = 6 ∨ last.cmd = 17 ∨ last.cmd = 18 ∨ last.cmd = 24 ∨
      last.cmd = 25)) ∨ (c.lastAcmd = true ∧ (last.cmd = 13 ∨ last.cmd = 51))) :
    last.accepted = true := by
  refine h.accepted.2 ?_
  rcases hcmd with ⟨happ, hcmd⟩ | ⟨happ, hcmd⟩
  · rw [happ, if_neg (by simp)]
    rcases hcmd with hcmd | hcmd | hcmd | hcmd | hcmd <;> rw [hcmd] <;> decide
  · rw [happ, if_pos rfl]
    rcases hcmd with hcmd | hcmd <;> rw [hcmd] <;> decide

/-- A read that succeeds delivers what the remembered command asked for. -/
theorem Remembers.delivers {s : Session} {before : List Issued} {last : Issued}
    (h : Remembers s.card s.log before last) (hdata : s.card.state = .DATA) {size : BitVec 32}
    (hdone : (s.card.read s.image size).1 = .done) :
    last.accepted = true ∧
      Delivers s size (AfterApp before) last (s.card.read s.image size).2.1 := by
  have hnot : s.card.lastAcmd = false → ¬ AfterApp before := fun hf ha => by
    rw [h.lastAcmd.2 ha] at hf
    cases hf
  unfold DevSDCard.read at hdone ⊢
  rw [if_neg (not_not.2 hdata)] at hdone ⊢
  rw [h.lastCmd] at hdone ⊢
  split
  · next hc => exact ⟨h.accepted_of (.inr ⟨hc.1, .inr hc.2⟩), .scr (h.lastAcmd.1 hc.1) hc.2 rfl⟩
  next h51 =>
  rw [if_neg h51] at hdone
  split
  · next hc => exact ⟨h.accepted_of (.inr ⟨hc.1, .inl hc.2⟩), .status (h.lastAcmd.1 hc.1) hc.2 rfl⟩
  next h13 =>
  rw [if_neg h13] at hdone
  split
  · next hc => exact ⟨h.accepted_of (.inl ⟨hc.1, .inl hc.2⟩), .switch (hnot hc.1) hc.2 rfl⟩
  next h6 =>
  rw [if_neg h6] at hdone
  split
  · next hc =>
    rw [if_pos hc] at hdone
    obtain ⟨hbs, hlen⟩ := readImage_done hdone
    rw [h.offset hc.1 (.inl hc.2), blockOffset_eq] at hbs hlen
    rw [hbs]
    exact ⟨h.accepted_of (.inl ⟨hc.1, .inr (.inl hc.2)⟩), .block (hnot hc.1) hc.2 hlen rfl⟩
  next h17 =>
  rw [if_neg h17] at hdone
  split
  · next hc =>
    rw [if_pos hc] at hdone
    obtain ⟨hbs, hlen⟩ := readImage_done hdone
    rw [h.offset hc.1 (.inr (.inl hc.2)), blockOffset_eq] at hbs hlen
    rw [hbs]
    exact ⟨h.accepted_of (.inl ⟨hc.1, .inr (.inr (.inl hc.2))⟩),
      .blocks (hnot hc.1) hc.2 hlen rfl⟩
  next h18 =>
  rw [if_neg h18] at hdone
  cases hdone

/-- A write that succeeds takes what the remembered command asked for. -/
theorem Remembers.takes {s : Session} {before : List Issued} {last : Issued}
    (h : Remembers s.card s.log before last) (hdata : s.card.state = .DATA) {data : ℕ → Byte}
    {size : BitVec 32} (hdone : (s.card.write s.image data size).1 = .done) :
    last.accepted = true ∧
      Takes s data size (AfterApp before) last (s.card.write s.image data size).2.1 := by
  have hnot : s.card.lastAcmd = false → ¬ AfterApp before := fun hf ha => by
    rw [h.lastAcmd.2 ha] at hf
    cases hf
  unfold DevSDCard.write at hdone ⊢
  rw [if_neg (not_not.2 hdata)] at hdone ⊢
  rw [h.lastCmd] at hdone ⊢
  split
  · next hc =>
    refine ⟨h.accepted_of (.inl ⟨hc.1, .inr (.inr (.inr (.inl hc.2)))⟩), ?_⟩
    refine .block (hnot hc.1) hc.2 ?_
    rw [h.offset hc.1 (.inr (.inr (.inl hc.2))), blockOffset_eq]
  next h24 =>
  rw [if_neg h24] at hdone
  split
  · next hc =>
    refine ⟨h.accepted_of (.inl ⟨hc.1, .inr (.inr (.inr (.inr hc.2)))⟩), ?_⟩
    refine .blocks (hnot hc.1) hc.2 ?_
    rw [h.offset hc.1 (.inr (.inr (.inr hc.2))), blockOffset_eq]
  next h25 =>
  rw [if_neg h25] at hdone
  cases hdone

/-- **Data belongs to the last command.** After any sequence of commands,
reads and writes on a card that was given an image: a read that succeeds
delivers what the last command asked for, which was accepted and since which
no transfer was made, and a write that succeeds takes it; whether that was a
command of the application is what the commands before it say; and of the
transfers since the last command one has succeeded at most. -/
theorem belongs (c : DevSDCard) (image : Bytes) (calls : List Call) :
    let s := (Session.start c image).run calls
    (∀ size, (s.card.read s.image size).1 = .done →
      ∃ before last, commands s.log = before ++ [last] ∧ last.accepted = true ∧
        (∀ r ∈ since s.log, r = .idle) ∧
          Delivers s size (AfterApp before) last (s.card.read s.image size).2.1) ∧
    (∀ data size, (s.card.write s.image data size).1 = .done →
      ∃ before last, commands s.log = before ++ [last] ∧ last.accepted = true ∧
        (∀ r ∈ since s.log, r = .idle) ∧
          Takes s data size (AfterApp before) last (s.card.write s.image data size).2.1) ∧
    (since s.log).count .done ≤ 1 := by
  dsimp only
  have h := Session.inv_run calls (Session.inv_start c image)
  generalize (Session.start c image).run calls = s at h ⊢
  refine ⟨fun size hdone => ?_, fun data size hdone => ?_, h.one⟩
  · have hdata : s.card.state = .DATA := by
      by_contra hne
      rw [DevSDCard.read_of_ne hne] at hdone
      cases hdone
    obtain ⟨⟨before, last, hl⟩, hidle⟩ := h.data hdata
    obtain ⟨hacc, hdel⟩ := hl.delivers hdata hdone
    exact ⟨before, last, hl.commands, hacc, hidle, hdel⟩
  · have hdata : s.card.state = .DATA := by
      by_contra hne
      rw [DevSDCard.write_of_ne hne] at hdone
      cases hdone
    obtain ⟨⟨before, last, hl⟩, hidle⟩ := h.data hdata
    obtain ⟨hacc, htake⟩ := hl.takes hdata hdone
    exact ⟨before, last, hl.commands, hacc, hidle, htake⟩

end Sd

end MrIss
