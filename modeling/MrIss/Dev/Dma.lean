import MrIss.Bus
import MrIss.Lib.ByteFile
/-!
# Transfers between an image file and RAM

A block device has an image file open, and transfers bytes of it to or from
the place of a guest address in the host: `pread` and `pwrite`, which know
nothing of where RAM ends.
-/

namespace MrIss

open EarlyReturn ByteFile

/-- What a transfer can change: the image file, and the machine behind the
bus. -/
structure Host where
  image : Bytes
  sys : Sys

namespace Host

/-- `pread` to memory: how many bytes there were. -/
def pread (ha : HVA) (count off : ℕ) : Prog Abort Host ℕ := fun h =>
  let bs := ByteFile.pread h.image off count
  .ok bs.length { h with sys := { h.sys with mem := ByteMem.writeBytes h.sys.mem ha bs } }

/-- `pwrite` from memory. -/
def pwrite (ha : HVA) (count off : ℕ) : Prog Abort Host ℕ := fun h =>
  let bs := ByteMem.bytes h.sys.mem ha count
  .ok bs.length { h with image := ByteFile.pwrite h.image off bs }

/-- `getAddrDMA`: "Can't direct-map PA" ends the process. -/
def getAddrDMA (bus : Bus) (addr : PA) : Prog Abort Host HVA := do
  match ← Prog.zoom Host.sys (fun h s => { h with sys := s }) (bus.getDirectMap addr) with
  | some ha => pure ha
  | none => Prog.abort .device

/-- The machine after a lookup on the bus. -/
def found (h : Host) (i : ℕ) : Host := { h with sys := { h.sys with lastDev := i } }

end Host

namespace PagedBus

variable {B : PagedBus} {pa : PA}

/-- RAM at an address: its place in the host, and how many bytes of it there
are from there on. -/
def ramFrom (B : PagedBus) (pa : PA) : Option (HVA × ℕ) :=
  match B.deviceAt pa with
  | some ⟨addr, size, .ram r⟩ => some (r.hostAddr pa, addr.toNat + size.toNat - pa.toNat)
  | some ⟨_, _, .io⟩ | none => none

/-- **An address of RAM has a place for transfers,** any other ends the
process. -/
theorem getAddrDMA_eq (B : PagedBus) (pa : PA) (h : Host) :
    (∃ ha k i, B.ramFrom pa = some (ha, k) ∧ Host.getAddrDMA B.bus pa h = .ok ha (h.found i)) ∨
      (B.ramFrom pa = none ∧ ∃ e t, Host.getAddrDMA B.bus pa h = .abort e t) := by
  rcases B.getDev_eq pa h.sys with ⟨hnone, hget⟩ | ⟨d, i, hd, hget⟩
  · refine .inr ⟨by rw [ramFrom, hnone], .busMiss pa, h, ?_⟩
    have hmap : B.bus.getDirectMap pa h.sys = .abort (.busMiss pa) h.sys := Prog.bind_of_abort hget
    rw [Host.getAddrDMA]
    refine Prog.bind_of_abort ?_
    rw [Prog.zoom, hmap]
  · obtain ⟨addr, size, dev⟩ := d
    cases dev with
    | ram r =>
      refine .inl ⟨r.hostAddr pa, addr.toNat + size.toNat - pa.toNat, i, by rw [ramFrom, hd], ?_⟩
      have hmap : B.bus.getDirectMap pa h.sys =
          .ok (some (r.hostAddr pa)) { h.sys with lastDev := i } := Prog.bind_of_ok hget
      have hzoom : Prog.zoom Host.sys (fun h s => { h with sys := s }) (B.bus.getDirectMap pa) h =
          .ok (some (r.hostAddr pa)) (h.found i) := by
        rw [Prog.zoom, hmap]
        rfl
      exact Prog.bind_of_ok hzoom
    | io =>
      refine .inr ⟨by rw [ramFrom, hd], .device, h.found i, ?_⟩
      have hmap : B.bus.getDirectMap pa h.sys = .ok none { h.sys with lastDev := i } :=
        Prog.bind_of_ok hget
      have hzoom : Prog.zoom Host.sys (fun h s => { h with sys := s }) (B.bus.getDirectMap pa) h =
          .ok none (h.found i) := by
        rw [Prog.zoom, hmap]
        rfl
      exact Prog.bind_of_ok hzoom

end PagedBus

end MrIss
