import MrIss.Bus.Platform
import MrIss.Dev.SdHost
/-!
# How much is received

The controller computes how much it receives, and the card decides by
itself how much it writes. What they do stays within the length that was
programmed, and within RAM, only where they agree and RAM is long enough.
-/

namespace MrIss

namespace Sd

open ByteFile DevSDCard

/-! ## What the card writes to memory -/

/-- How many bytes a read writes: those of the last command, or what is left
of the image. -/
def dataLen (c : DevSDCard) (length : ℕ) (size : BitVec 32) : ℕ :=
  if c.state ≠ .DATA then 0
  else if c.lastAcmd ∧ c.lastCmd = 51 then 8
  else if c.lastAcmd ∧ c.lastCmd = 13 then 64
  else if c.lastAcmd = false ∧ c.lastCmd = 6 then 64
  else if c.lastAcmd = false ∧ c.lastCmd = 17 then min 512 (length - c.offset.toNat)
  else if c.lastAcmd = false ∧ c.lastCmd = 18 then min size.toNat (length - c.offset.toNat)
  else 0

theorem length_readImage (c : DevSDCard) (image : Bytes) (n : ℕ) :
    (c.readImage image n).2.1.length = min n (image.length - c.offset.toNat) := by
  rw [← length_pread, readImage]
  split <;> rfl

theorem length_read (c : DevSDCard) (image : Bytes) (size : BitVec 32) :
    (c.read image size).2.1.length = dataLen c image.length size := by
  unfold DevSDCard.read dataLen
  split
  · rfl
  split
  · rfl
  split
  · rw [writeStatus, List.length_append, List.length_replicate]
    rfl
  split
  · rfl
  split
  · exact length_readImage c image 512
  split
  · exact length_readImage c image size.toNat
  · rfl

/-! ## Receiving -/

namespace Slot

variable {B : PagedBus} {t t' : Slot}

/-- The bytes that a receive writes. -/
def received (t : Slot) : Bytes :=
  (t.command.card.read t.host.image t.dev.rxLen).2.1

/-- Sending and the interrupt leave memory as it is. -/
theorem transmitWork_mem (h : transmitWork B.bus t = .ok () t') :
    t'.host.sys.mem = t.host.sys.mem := by
  rcases transmitWork_ok h with ⟨-, rfl⟩ | ⟨-, ha, k, i, -, rfl⟩
  · rfl
  · rfl

theorem trigger_mem (t : Slot) : t.trigger.host.sys.mem = t.host.sys.mem := by
  unfold trigger
  split <;> rfl

/-- **What a receive does to memory**: it writes the card's bytes at the DMA
address. -/
theorem checkForWork_mem (hcmd : t.dev.cmdPending = true) (hrx : t.dev.rxPending = true)
    (h : checkForWork B.bus t = .ok () t') :
    ∃ ha k, B.ramFrom t.dev.dmaAddr = some (ha, k) ∧
      t'.host.sys.mem = ByteMem.writeBytes t.host.sys.mem ha t.received := by
  have hrx' : t.command.dev.rxPending = true := by
    rw [DevSD.rxPending, command_rxReq, (command_others t).1]
    exact hrx
  obtain ⟨t₁, t₂, h₁, h₂, rfl⟩ := checkForWork_ok h
  rw [trigger_mem, transmitWork_mem h₂]
  rcases commandWork_ok h₁ with ⟨hno, -⟩ | ⟨-, h₁⟩
  · rw [hcmd] at hno
    cases hno
  rcases receiveWork_ok h₁ with ⟨hno, -⟩ | ⟨-, ha, k, i, hram, rfl⟩
  · rw [hrx'] at hno
    cases hno
  rw [command_dmaAddr] at hram
  refine ⟨ha, k, hram, ?_⟩
  rw [received, ← command_rxLen]
  rfl

/-- **A receive is bounded**: it changes bytes of memory only from the DMA
address on, as many as were programmed, and the RAM that the address is in
has as many. -/
def Bounded (B : PagedBus) (t : Slot) : Prop :=
  ∀ t', checkForWork B.bus t = .ok () t' → t.dev.cmdPending = true → t.dev.rxPending = true →
    ∃ ha k, B.ramFrom t.dev.dmaAddr = some (ha, k) ∧ t.dev.rxLen.toNat ≤ k ∧
      ∀ x : HVA, t.dev.rxLen.toNat ≤ (x - ha).toNat →
        t'.host.sys.mem x = t.host.sys.mem x

/-- **Where receiving is bounded.** For every state of the controller and of
the card: whatever memory and an image of a length contain, a receive is
bounded if and only if it is not made, or ends the process, or the card has
no more bytes for it than were programmed, and RAM is long enough. -/
theorem bounded_iff (B : PagedBus) (dev : DevSD) (card : DevSDCard) (log : List Work)
    (length : ℕ) :
    (∀ host : Host, host.image.length = length → Bounded B ⟨dev, card, host, log⟩) ↔
      (dev.cmdPending = true → dev.rxPending = true → ∀ ha k, B.ramFrom dev.dmaAddr = some (ha, k) →
        dataLen (card.command dev.cmd dev.arg).2.2 length dev.rxLen ≤ dev.rxLen.toNat ∧
          dev.rxLen.toNat ≤ k) := by
  constructor
  · intro h hcmd hrx ha k hram
    have hgo (host : Host) :
        ∃ t', checkForWork B.bus ⟨dev, card, host, log⟩ = .ok () t' :=
      checkForWork_total (t := ⟨dev, card, host, log⟩) (by rw [hram]; nofun)
    have hfits : dev.rxLen.toNat ≤ k := by
      obtain ⟨t', ht'⟩ := hgo ⟨List.replicate length 0, ⟨fun _ => 0, [], 0⟩⟩
      obtain ⟨ha', k', hram', hle, -⟩ := h _ List.length_replicate t' ht' hcmd hrx
      rw [hram] at hram'
      cases hram'
      exact hle
    refine ⟨?_, hfits⟩
    by_contra hlong
    -- memory that differs from the first byte that is too much
    set bs : Bytes := ((card.command dev.cmd dev.arg).2.2.read (List.replicate length 0)
      dev.rxLen).2.1 with hbs
    have hlen : bs.length = dataLen (card.command dev.cmd dev.arg).2.2 length dev.rxLen := by
      rw [hbs, length_read, List.length_replicate]
    have hlt : dev.rxLen.toNat < bs.length := by omega
    obtain ⟨t', ht'⟩ := hgo ⟨List.replicate length 0, ⟨fun _ => bs[dev.rxLen.toNat] + 1, [], 0⟩⟩
    obtain ⟨ha', k', hram', hmem⟩ := checkForWork_mem hcmd hrx ht'
    obtain ⟨ha'', k'', hram'', -, hsame⟩ := h _ List.length_replicate t' ht' hcmd hrx
    rw [hram] at hram' hram''
    cases hram'
    cases hram''
    have h64 : dev.rxLen.toNat < 2 ^ 64 := by
      have := dev.rxLen.isLt
      omega
    have hoff : (ha + BitVec.ofNat 64 dev.rxLen.toNat - ha).toNat = dev.rxLen.toNat := by
      rw [BitVec.add_comm, BitVec.add_sub_cancel, BitVec.toNat_ofNat, Nat.mod_eq_of_lt h64]
    have hbyte := hsame (ha + BitVec.ofNat 64 dev.rxLen.toNat) hoff.ge
    rw [hmem] at hbyte
    have hput := ByteMem.writeBytes_add (m := fun _ => bs[dev.rxLen.toNat] + 1) (a := ha) h64
      (List.getElem?_eq_getElem hlt)
    have hself : bs[dev.rxLen.toNat] = bs[dev.rxLen.toNat] + 1 := hput.symm.trans hbyte
    exact absurd hself (by simp)
  · rintro hcond ⟨image, sys⟩ rfl t' ht' hcmd hrx
    obtain ⟨ha, k, hram, hmem⟩ := checkForWork_mem hcmd hrx ht'
    obtain ⟨hlen, hfits⟩ := hcond hcmd hrx ha k hram
    refine ⟨ha, k, hram, hfits, fun x hx => ?_⟩
    rw [hmem]
    refine ByteMem.writeBytes_of_le (Nat.le_trans ?_ hx)
    exact (length_read _ _ _).trans_le hlen

/-- The third platform's memory map. -/
def mr3 : PagedBus := Platform.mr3.map Platform.sampleMmap (Platform.sampleMmap_mapped _)

/-- CMD6 in the command registers, with requests of a command and of data, of
one word. -/
def switchRequest : DevSD :=
  { DevSD.init false with
    regs := fun r =>
      if r = SD_REG_CB1 then 0x600 else if r = SD_REG_CTRL then 0x11
      else if r = SD_REG_DATACFG then 1 else if r = SD_REG_DMA_ADDR then 0x1000 else 0 }

/-- **One word was asked for**, and 64 bytes are written. -/
theorem overrun :
    ¬ Bounded mr3 ⟨switchRequest, blank.init 512, ⟨List.replicate 512 0, ⟨fun _ => 0xff, [], 0⟩⟩,
      []⟩ := by
  intro h
  obtain ⟨t', ht'⟩ := checkForWork_total (B := mr3) (t := ⟨switchRequest, blank.init 512,
    ⟨List.replicate 512 0, ⟨fun _ => 0xff, [], 0⟩⟩, []⟩) (by decide +kernel)
  obtain ⟨ha, k, hram, hmem⟩ := checkForWork_mem (by decide) (by decide) ht'
  obtain ⟨ha', k', hram', -, hsame⟩ := h t' ht' (by decide) (by decide)
  rw [hram] at hram'
  cases hram'
  -- the fifth byte of the switch status, where memory had another
  have hbyte := hsame (ha + BitVec.ofNat 64 4) (by
    rw [BitVec.add_comm, BitVec.add_sub_cancel]
    decide)
  rw [hmem] at hbyte
  have hput := ByteMem.writeBytes_add (m := fun _ => 0xff) (a := ha) (j := 4) (by decide)
    (show writeSwitchStatus[4]? = some 0 by decide)
  have hbad : (0 : Byte) = 0xff := hput.symm.trans hbyte
  exact absurd hbad (by decide)

end Slot

end Sd

end MrIss
