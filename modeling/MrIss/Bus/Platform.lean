import MrIss.Bus
/-!
# The platforms' memory maps

What `platform_init` attaches, in its order, on each of the three
platforms. RAM lies where the host's `mmap` put it.
-/

namespace MrIss

/-- `PLATFORM`. -/
inductive Platform where
  | mr1
  | mr2
  | mr3
  deriving DecidableEq, Repr

/-- What is attached: a bank of RAM, or a device of another kind. -/
inductive DevKind where
  | ram (bank : Fin 2)
  | io
  deriving DecidableEq, Repr

namespace Platform

/-- The devices with their bases and sizes: the kinds of a platform are
RAM, then its UARTs, controllers and block devices. -/
def layout : Platform → List (DevKind × PA × PA)
  | .mr1 =>
    [(.ram 0, 0x00000000, 0x20000000), (.io, 0x80000000, 0x200), (.io, 0x80010000, 0x200),
      (.io, 0x80020000, 0x20), (.io, 0x80020100, 0x20), (.io, 0x80020200, 0x20),
      (.io, 0x80020300, 0x20)]
  | .mr2 =>
    [(.ram 0, 0x00000000, 0x80000), (.io, 0x80000000, 0x200), (.io, 0x80010000, 0x200)]
  | .mr3 =>
    -- RAM, boot RAM; console, keyboard and mouse UART, INTC, LCDC, GPIO, I2S, SD host
    [(.ram 0, 0x00000000, 0x2000000), (.ram 1, 0xfff00000, 0x10000), (.io, 0x82000000, 0x200),
      (.io, 0x82010000, 0x200), (.io, 0x82020000, 0x200), (.io, 0x82070000, 0x200),
      (.io, 0x82040000, 0x200), (.io, 0x82060000, 0x200), (.io, 0x820a0000, 0x200),
      (.io, 0x820b0000, 0x200),
      -- the block devices and the SPI controllers
      (.io, 0x820f0000, 0x20), (.io, 0x820f0100, 0x20), (.io, 0x820f0200, 0x20),
      (.io, 0x820f0300, 0x20), (.io, 0x82080000, 0x200), (.io, 0x82090000, 0x200)]

/-- The device of an entry, with RAM where it has been mapped. -/
def device (mmap : Fin 2 → HVA) : DevKind → Device
  | .ram bank => .ram ⟨false, mmap bank, 0⟩
  | .io => .io

/-- `platform_init`. -/
def init (p : Platform) (mmap : Fin 2 → HVA) : Option Bus :=
  p.layout.foldlM (fun (bus : Bus) d => bus.attach (device mmap d.1) d.2.1 d.2.2) []

/-- An entry of the bus. -/
def entry (mmap : Fin 2 → HVA) (d : DevKind × PA × PA) : BusDev :=
  ⟨d.2.1, d.2.2, match d.1 with
    | .ram bank => .ram ⟨false, mmap bank, d.2.1⟩
    | .io => .io⟩

theorem attach_eq {mmap : Fin 2 → HVA} {bus : Bus} (h : bus.length < 32)
    (d : DevKind × PA × PA) :
    bus.attach (device mmap d.1) d.2.1 d.2.2 = some (bus ++ [entry mmap d]) := by
  obtain ⟨kind, base, size⟩ := d
  simp only [Bus.attach, if_pos h]
  cases kind <;> rfl

theorem foldlM_attach {mmap : Fin 2 → HVA} (l : List (DevKind × PA × PA)) :
    ∀ bus : Bus, bus.length + l.length ≤ 32 →
      l.foldlM (fun (bus : Bus) d => bus.attach (device mmap d.1) d.2.1 d.2.2) bus =
        some (bus ++ l.map (entry mmap)) := by
  induction l with
  | nil => intro bus _; simp
  | cons d l ih =>
    intro bus h
    rw [List.length_cons] at h
    rw [List.foldlM_cons, attach_eq (by omega)]
    simp only [Option.bind_eq_bind, Option.bind_some]
    rw [ih _ (by rw [List.length_append, List.length_singleton]; omega)]
    simp

/-- Every device finds an entry. -/
theorem init_eq (p : Platform) (mmap : Fin 2 → HVA) :
    p.init mmap = some (p.layout.map (entry mmap)) := by
  rw [init, foldlM_attach p.layout [] (by cases p <;> decide), List.nil_append]

/-- What `mmap` promises of the banks it has mapped: they are whole pages
of user space that do not overlap. -/
structure Mapped (p : Platform) (mmap : Fin 2 → HVA) : Prop where
  aligned : ∀ bank, (mmap bank).toNat % 4096 = 0
  low : ∀ d ∈ p.layout, ∀ bank, d.1 = .ram bank →
    (mmap bank).toNat + d.2.2.toNat ≤ 2 ^ 63
  apart : p.layout.Pairwise fun d e => ∀ bank bank', d.1 = .ram bank → e.1 = .ram bank' →
    (mmap bank).toNat + d.2.2.toNat ≤ (mmap bank').toNat ∨
      (mmap bank').toNat + e.2.2.toNat ≤ (mmap bank).toNat

theorem entry_ram {mmap : Fin 2 → HVA} {d : DevKind × PA × PA} {r : DevRAM}
    (h : (entry mmap d).dev = .ram r) :
    ∃ bank, d.1 = .ram bank ∧ r = ⟨false, mmap bank, d.2.1⟩ := by
  obtain ⟨kind, base, size⟩ := d
  cases kind with
  | ram bank => exact ⟨bank, rfl, by simpa [entry] using h.symm⟩
  | io => cases h

/-- **The platforms' maps are paged.** -/
def map (p : Platform) (mmap : Fin 2 → HVA) (h : p.Mapped mmap) : PagedBus where
  bus := p.layout.map (entry mmap)
  entries := by cases p <;> simp [layout]
  noWrap := by
    have key : ∀ d ∈ p.layout, d.2.1.toNat + d.2.2.toNat < 2 ^ 32 := by cases p <;> decide
    rintro _ he
    obtain ⟨d, hd, rfl⟩ := List.mem_map.mp he
    exact key d hd
  apart := by
    have key : p.layout.Pairwise fun d e => d.2.1.toNat + d.2.2.toNat ≤ e.2.1.toNat ∨
        e.2.1.toNat + e.2.2.toNat ≤ d.2.1.toNat := by cases p <;> decide
    exact List.pairwise_map.mpr key
  ramPaged := by
    have key : ∀ d ∈ p.layout, ∀ bank, d.1 = .ram bank →
        d.2.1.toNat % 4096 = 0 ∧ d.2.2.toNat % 4096 = 0 := by cases p <;> decide
    rintro _ he r hr
    obtain ⟨d, hd, rfl⟩ := List.mem_map.mp he
    obtain ⟨bank, hk, rfl⟩ := entry_ram hr
    exact ⟨rfl, rfl, (key d hd bank hk).1, (key d hd bank hk).2, h.aligned bank,
      h.low d hd bank hk⟩
  ramApart := by
    refine List.pairwise_map.mpr (h.apart.imp ?_)
    intro d e hde r t hr ht
    obtain ⟨bank, hk, rfl⟩ := entry_ram hr
    obtain ⟨bank', hk', rfl⟩ := entry_ram ht
    exact hde bank bank' hk hk'

/-- Where a host may have put the banks. -/
def sampleMmap (bank : Fin 2) : HVA := if bank = 0 then 0x10000000 else 0x40000000

theorem sampleMmap_mapped (p : Platform) : p.Mapped sampleMmap where
  aligned := by decide
  low := by cases p <;> decide
  apart := by cases p <;> decide

end Platform

end MrIss
