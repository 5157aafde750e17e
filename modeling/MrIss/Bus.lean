import MrIss.Lib.Prog
import MrIss.Lib.ByteMem
/-!
# The bus

Guest physical addresses are served by devices attached to a bus: RAM,
mapped at some place of the host's address space, or a device of another
kind, whose behaviour is a parameter. `getDev` caches the last device it
found; `PagedBus` collects what the platforms' memory maps have in common,
and `getDev_eq` is what the cache amounts to there.
-/

namespace MrIss

open EarlyReturn

/-- Guest virtual (effective) addresses. -/
abbrev VA : Type := BitVec 32

/-- Guest physical addresses. -/
abbrev PA : Type := BitVec 32

/-- Host virtual addresses. -/
abbrev HVA : Type := BitVec 64

/-- The host's memory. -/
abbrev HostMem : Type := ByteMem.Mem 64

/-- The ways the process ends. -/
inductive Abort where
  /-- "Access to addr %08x missed all devices". -/
  | busMiss (addr : PA)
  /-- A device refused the access. -/
  | device
  /-- "TLB miss after insert". -/
  | tlbMissAfterInsert (addr : VA)
  /-- The lookup of `translateAddr` would go round for ever. -/
  | lookupLoop
  /-- `ASSERT(bat < PPCMMU_NR_BATS)`. -/
  | assertBat
  /-- `ASSERT(sr < PPCMMU_NR_SEGS)`. -/
  | assertSegment
  /-- `ASSERT(r < 32)` of a register access. -/
  | assertGPR
  /-- `ASSERT(InD)` of a no-execute fault. -/
  | assertNX
  /-- "Unhandled fault type". -/
  | unhandledFault
  /-- "Unknown DEBUG val %08x". -/
  | debug
  /-- A special register that is not implemented. -/
  | spr (n : ℕ)
  deriving DecidableEq, Repr

/-- The sizes of an access. -/
inductive Size where
  | byte
  | half
  | word
  deriving DecidableEq, Repr

/-- The number of bytes of an access. -/
def Size.bytes : Size → ℕ
  | .byte => 1
  | .half => 2
  | .word => 4

/-- An access to a device that is not RAM. -/
structure IoAccess where
  write : Bool
  size : Size
  addr : PA
  /-- What is written; zero for a read. -/
  data : BitVec 32
  deriving DecidableEq, Repr

/-- How the devices that are not RAM behave, given every access so far,
latest first: what the latest one replies (nothing where the device ends
the process) and what it does to memory. -/
structure IoModel where
  reply : List IoAccess → Option (BitVec 32)
  dma : List IoAccess → HostMem → HostMem

/-- RAM or ROM, mapped in the host. -/
structure DevRAM where
  isROM : Bool
  mmapBase : HVA
  baseAddress : PA
  deriving DecidableEq, Repr

/-- A device. -/
inductive Device where
  | ram (r : DevRAM)
  | io
  deriving DecidableEq, Repr

/-- A device on the bus and the addresses it answers. -/
structure BusDev where
  addr : PA
  size : PA
  dev : Device
  deriving DecidableEq, Repr

/-- What the bus's accesses change: host memory, the accesses made to
devices that are not RAM, and the device found last. -/
structure Sys where
  mem : HostMem
  io : List IoAccess
  lastDev : ℕ

/-- The devices, in the order they were attached. -/
abbrev Bus : Type := List BusDev

/-- A statement of the bus. -/
abbrev SysM : Type → Type := Prog Abort Sys

/-! ## Devices -/

namespace DevRAM

/-- `offset_from_PA`. -/
def offsetFromPA (r : DevRAM) (addr : PA) : PA := addr - r.baseAddress

/-- Where a guest address lies in the host. -/
def hostAddr (r : DevRAM) (addr : PA) : HVA := r.mmapBase + (r.offsetFromPA addr).setWidth 64

def read32 (r : DevRAM) (addr : PA) : SysM (BitVec 32) :=
  Prog.gets fun s => ByteMem.read32 s.mem (r.hostAddr addr)

def read16 (r : DevRAM) (addr : PA) : SysM (BitVec 16) :=
  Prog.gets fun s => ByteMem.read16 s.mem (r.hostAddr addr)

def read8 (r : DevRAM) (addr : PA) : SysM (BitVec 8) :=
  Prog.gets fun s => s.mem (r.hostAddr addr)

def write32 (r : DevRAM) (addr : PA) (data : BitVec 32) : SysM Unit :=
  Prog.when (!r.isROM) <| Prog.modify fun s =>
    { s with mem := ByteMem.write32 s.mem (r.hostAddr addr) data }

def write16 (r : DevRAM) (addr : PA) (data : BitVec 16) : SysM Unit :=
  Prog.when (!r.isROM) <| Prog.modify fun s =>
    { s with mem := ByteMem.write16 s.mem (r.hostAddr addr) data }

def write8 (r : DevRAM) (addr : PA) (data : BitVec 8) : SysM Unit :=
  Prog.when (!r.isROM) <| Prog.modify fun s =>
    { s with mem := ByteMem.write8 s.mem (r.hostAddr addr) data }

end DevRAM

/-- Makes an access to a device that is not RAM. -/
def ioAccess (m : IoModel) (a : IoAccess) : SysM (BitVec 32) := do
  Prog.modify fun s => { s with io := a :: s.io, mem := m.dma (a :: s.io) s.mem }
  match ← Prog.gets fun s => m.reply s.io with
  | some v => pure v
  | none => Prog.abort .device

/-! ## Attaching and finding devices -/

namespace Bus

/-- Attaches a device at the first free entry; a device of RAM is told
where it starts. There are 32 entries. -/
def attach (bus : Bus) (dev : Device) (base size : PA) : Option Bus :=
  if bus.length < 32 then
    some (bus ++ [⟨base, size, match dev with
      | .ram r => .ram { r with baseAddress := base }
      | .io => .io⟩])
  else none

end Bus

/-- Whether the device answers the address; the end of its range is
computed in 32 bits. -/
def BusDev.matchesAddr (d : BusDev) (addr : PA) : Bool :=
  decide (d.addr ≤ addr) && decide (addr < d.addr + d.size)

namespace Bus

/-- `dev_matches_addr`. -/
def devMatchesAddr (bus : Bus) (i : ℕ) (addr : PA) : Bool :=
  match bus[i]? with
  | some d => d.matchesAddr addr
  | none => false

/-- `find_dev_for_addr`. -/
def findDevForAddr (bus : Bus) (addr : PA) : Option ℕ :=
  (List.range 32).find? fun i => bus.devMatchesAddr i addr

/-- `get_dev`: the device found last where it answers, else the first
that does. -/
def getDev (bus : Bus) (addr : PA) : SysM Device := do
  let lastDev ← Prog.gets Sys.lastDev
  let i ← if bus.devMatchesAddr lastDev addr then pure lastDev else
    match bus.findDevForAddr addr with
    | some i => do
      Prog.modify fun s => { s with lastDev := i }
      pure i
    | none => Prog.abort (.busMiss addr)
  match bus[i]? with
  | some d => pure d.dev
  | none => Prog.abort (.busMiss addr)

variable (m : IoModel) (bus : Bus)

def read32 (addr : PA) : SysM (BitVec 32) := do
  match ← bus.getDev addr with
  | .ram r => r.read32 addr
  | .io => ioAccess m ⟨false, .word, addr, 0⟩

def read16 (addr : PA) : SysM (BitVec 16) := do
  match ← bus.getDev addr with
  | .ram r => r.read16 addr
  | .io => (·.setWidth 16) <$> ioAccess m ⟨false, .half, addr, 0⟩

def read8 (addr : PA) : SysM (BitVec 8) := do
  match ← bus.getDev addr with
  | .ram r => r.read8 addr
  | .io => (·.setWidth 8) <$> ioAccess m ⟨false, .byte, addr, 0⟩

def write32 (addr : PA) (data : BitVec 32) : SysM Unit := do
  match ← bus.getDev addr with
  | .ram r => r.write32 addr data
  | .io => discard <| ioAccess m ⟨true, .word, addr, data⟩

def write16 (addr : PA) (data : BitVec 16) : SysM Unit := do
  match ← bus.getDev addr with
  | .ram r => r.write16 addr data
  | .io => discard <| ioAccess m ⟨true, .half, addr, data.setWidth 32⟩

def write8 (addr : PA) (data : BitVec 8) : SysM Unit := do
  match ← bus.getDev addr with
  | .ram r => r.write8 addr data
  | .io => discard <| ioAccess m ⟨true, .byte, addr, data.setWidth 32⟩

/-- `get_direct_map`: RAM has a place in the host, nothing else does. -/
def getDirectMap (addr : PA) : SysM (Option HVA) := do
  match ← bus.getDev addr with
  | .ram r => pure (some (r.hostAddr addr))
  | .io => pure none

end Bus

/-- The device is told where it starts, and the host maps it from a page
boundary on, below its sign bit. -/
structure BusDev.Mapped (d : BusDev) (r : DevRAM) : Prop where
  base : r.baseAddress = d.addr
  mmap : r.mmapBase.toNat % 4096 = 0
  below : r.mmapBase.toNat + d.size.toNat ≤ 2 ^ 63

/-- It also answers for whole pages. -/
structure BusDev.Paged (d : BusDev) (r : DevRAM) : Prop extends d.Mapped r where
  addr : d.addr.toNat % 4096 = 0
  size : d.size.toNat % 4096 = 0

namespace Bus

/-- The device that answers an address. -/
def deviceAt (bus : Bus) (addr : PA) : Option BusDev := bus.find? (·.matchesAddr addr)

/-- At most 32 devices, each answering a range of its own, none running
past the top of the address space. -/
structure Apart (bus : Bus) : Prop where
  entries : bus.length ≤ 32
  noWrap : ∀ d ∈ bus, d.addr.toNat + d.size.toNat < 2 ^ 32
  apart : bus.Pairwise fun d e =>
    d.addr.toNat + d.size.toNat ≤ e.addr.toNat ∨ e.addr.toNat + e.size.toNat ≤ d.addr.toNat

namespace Apart

variable {bus : Bus}

/-- A range that does not run past the top is an interval. -/
theorem matchesAddr_iff (A : bus.Apart) {d : BusDev} (hd : d ∈ bus) {addr : PA} :
    d.matchesAddr addr = true ↔
      d.addr.toNat ≤ addr.toNat ∧ addr.toNat < d.addr.toNat + d.size.toNat := by
  have hw := A.noWrap d hd
  rw [BusDev.matchesAddr, Bool.and_eq_true, decide_eq_true_iff, decide_eq_true_iff,
    BitVec.le_def, BitVec.lt_def, BitVec.toNat_add, Nat.mod_eq_of_lt hw]

/-- No two entries answer one address. -/
theorem index_unique (A : bus.Apart) {i j : ℕ} {d e : BusDev} {addr : PA} (hi : bus[i]? = some d)
    (hj : bus[j]? = some e) (hd : d.matchesAddr addr = true) (he : e.matchesAddr addr = true) :
    i = j := by
  obtain ⟨hil, hi⟩ := List.getElem?_eq_some_iff.mp hi
  obtain ⟨hjl, hj⟩ := List.getElem?_eq_some_iff.mp hj
  have hd' := (A.matchesAddr_iff (hi ▸ List.getElem_mem hil)).mp hd
  have he' := (A.matchesAddr_iff (hj ▸ List.getElem_mem hjl)).mp he
  have hp := List.pairwise_iff_getElem.mp A.apart
  rcases Nat.lt_trichotomy i j with h | h | h
  · have := hp i j hil hjl h
    rw [hi, hj] at this
    omega
  · exact h
  · have := hp j i hjl hil h
    rw [hi, hj] at this
    omega

/-- The device at an address is at one entry of the bus. -/
theorem deviceAt_eq_some_iff (A : bus.Apart) {d : BusDev} {addr : PA} :
    bus.deviceAt addr = some d ↔ ∃ i : ℕ, bus[i]? = some d ∧ d.matchesAddr addr = true := by
  constructor
  · intro h
    obtain ⟨i, hi⟩ := List.getElem?_of_mem (List.mem_of_find?_eq_some h)
    exact ⟨i, hi, by simpa using List.find?_some h⟩
  · rintro ⟨i, hi, hm⟩
    cases h : bus.deviceAt addr with
    | none =>
      have := List.find?_eq_none.mp h d (List.mem_of_getElem? hi)
      exact absurd hm this
    | some e =>
      obtain ⟨j, hj⟩ := List.getElem?_of_mem (List.mem_of_find?_eq_some h)
      have hij := A.index_unique hi hj hm (by simpa using List.find?_some h)
      rw [← hij, hi] at hj
      exact hj.symm

/-- The linear search finds the entry of the device. -/
theorem findDevForAddr_eq (A : bus.Apart) {d : BusDev} {i : ℕ} {addr : PA} (hi : bus[i]? = some d)
    (hm : d.matchesAddr addr = true) : bus.findDevForAddr addr = some i := by
  have hlt : i < 32 :=
    Nat.lt_of_lt_of_le (List.getElem?_eq_some_iff.mp hi).1 A.entries
  have hmi : bus.devMatchesAddr i addr = true := by rw [Bus.devMatchesAddr, hi]; exact hm
  cases h : bus.findDevForAddr addr with
  | none =>
    have := List.find?_eq_none.mp h i (List.mem_range.mpr hlt)
    exact absurd hmi this
  | some j =>
    have hj := List.find?_some h
    rw [Bus.devMatchesAddr] at hj
    cases he : bus[j]? with
    | none => rw [he] at hj; exact absurd hj (by simp)
    | some e =>
      rw [he] at hj
      rw [A.index_unique hi he hm hj]

/-- **The cache does not matter.** Whatever device was found last, the one
found is the one that answers the address; nothing but the cache changes. -/
theorem getDev_eq (A : bus.Apart) (addr : PA) (s : Sys) :
    (bus.deviceAt addr = none ∧ bus.getDev addr s = .abort (.busMiss addr) s) ∨
    ∃ (d : BusDev) (i : ℕ), bus.deviceAt addr = some d ∧
      bus.getDev addr s = .ok d.dev { s with lastDev := i } := by
  cases hd : bus.deviceAt addr with
  | none =>
    have hno : ∀ i, bus.devMatchesAddr i addr = false := by
      intro i
      rw [Bus.devMatchesAddr]
      cases hi : bus[i]? with
      | none => rfl
      | some e =>
        have := List.find?_eq_none.mp hd e (List.mem_of_getElem? hi)
        simpa using this
    have hfind : bus.findDevForAddr addr = none :=
      List.find?_eq_none.mpr fun i _ => by simp [hno i]
    exact .inl ⟨rfl, by simp [Bus.getDev, hno, hfind, Prog.bind_apply]⟩
  | some d =>
    obtain ⟨i, hi, hm⟩ := A.deviceAt_eq_some_iff.mp hd
    refine .inr ⟨d, i, rfl, ?_⟩
    have hfind := A.findDevForAddr_eq hi hm
    by_cases hl : bus.devMatchesAddr s.lastDev addr = true
    · have hli : s.lastDev = i := by
        rw [Bus.devMatchesAddr] at hl
        cases he : bus[s.lastDev]? with
        | none => rw [he] at hl; exact absurd hl (by simp)
        | some e => rw [he] at hl; exact A.index_unique he hi hl hm
      subst hli
      simp [Bus.getDev, hl, hi, Prog.bind_apply]
    · simp [Bus.getDev, hl, hi, hfind, Prog.bind_apply]

/-- Devices are the same or apart. -/
theorem eq_or_apart (A : bus.Apart) {d e : BusDev} (hd : d ∈ bus) (he : e ∈ bus) : d = e ∨
    d.addr.toNat + d.size.toNat ≤ e.addr.toNat ∨ e.addr.toNat + e.size.toNat ≤ d.addr.toNat := by
  obtain ⟨i, hi, rfl⟩ := List.getElem_of_mem hd
  obtain ⟨j, hj, rfl⟩ := List.getElem_of_mem he
  have hp := List.pairwise_iff_getElem.mp A.apart
  rcases Nat.lt_trichotomy i j with h | rfl | h
  · exact .inr (hp i j hi hj h)
  · exact .inl rfl
  · exact .inr (hp j i hj hi h).symm

/-- The bus knows the device that answers. -/
theorem mem_of_deviceAt {d : BusDev} {addr : PA} (h : bus.deviceAt addr = some d) : d ∈ bus :=
  List.mem_of_find?_eq_some h

theorem range_of_deviceAt (A : bus.Apart) {d : BusDev} {a : PA} (h : bus.deviceAt a = some d) :
    d.addr.toNat ≤ a.toNat ∧ a.toNat < d.addr.toNat + d.size.toNat := by
  obtain ⟨i, hi, hm⟩ := A.deviceAt_eq_some_iff.mp h
  exact (A.matchesAddr_iff (List.mem_of_getElem? hi)).mp hm

/-- The device of an address in its range. -/
theorem deviceAt_of_range (A : bus.Apart) {d : BusDev} {a : PA} (hd : d ∈ bus)
    (h : d.addr.toNat ≤ a.toNat ∧ a.toNat < d.addr.toNat + d.size.toNat) :
    bus.deviceAt a = some d := by
  obtain ⟨i, hi⟩ := List.getElem?_of_mem hd
  exact A.deviceAt_eq_some_iff.mpr ⟨i, hi, (A.matchesAddr_iff hd).mpr h⟩

/-- RAM answers for whole pages. -/
theorem deviceAt_page (A : bus.Apart) {d : BusDev} {r : DevRAM} {a b : PA}
    (ha : bus.deviceAt a = some d) (hp : d.Paged r) (hab : Block.base 12 b = Block.base 12 a) :
    bus.deviceAt b = some d := by
  have hm := A.range_of_deviceAt ha
  have := hp.addr
  have := hp.size
  rw [Block.base_eq_iff] at hab
  exact A.deviceAt_of_range (mem_of_deviceAt ha) (by omega)

/-- Where the bytes of RAM lie. -/
theorem toNat_hostAddr (A : bus.Apart) {d : BusDev} {r : DevRAM} {a : PA}
    (ha : bus.deviceAt a = some d) (hp : d.Mapped r) :
    (r.hostAddr a).toNat = r.mmapBase.toNat + (a.toNat - d.addr.toNat) ∧
      d.addr.toNat ≤ a.toNat ∧ a.toNat < d.addr.toNat + d.size.toNat := by
  have hm := A.range_of_deviceAt ha
  have := hp.below
  refine ⟨?_, hm⟩
  have ho : (r.offsetFromPA a).toNat = a.toNat - d.addr.toNat := by
    rw [DevRAM.offsetFromPA, hp.base, BitVec.toNat_sub_of_le (BitVec.le_def.mpr hm.1)]
  have := a.isLt
  rw [DevRAM.hostAddr, BitVec.toNat_add, BitVec.toNat_setWidth, ho,
    Nat.mod_eq_of_lt (by omega : a.toNat - d.addr.toNat < 2 ^ 64), Nat.mod_eq_of_lt (by omega)]

/-- A page of RAM is a page of the host. -/
theorem hostAddr_page (A : bus.Apart) {d : BusDev} {r : DevRAM} {a b : PA}
    (ha : bus.deviceAt a = some d) (hp : d.Paged r) (hab : Block.base 12 b = Block.base 12 a) :
    r.hostAddr b = Block.base 12 (r.hostAddr a) ||| Block.offset 12 (b.setWidth 64) := by
  have hb := A.deviceAt_page ha hp hab
  obtain ⟨hha, hale, halt⟩ := A.toNat_hostAddr ha hp.toMapped
  obtain ⟨hhb, hble, hblt⟩ := A.toNat_hostAddr hb hp.toMapped
  have := hp.addr
  have := hp.mmap
  rw [Block.base_eq_iff] at hab
  apply BitVec.eq_of_toNat_eq
  rw [Block.toNat_join, hha, hhb, BitVec.toNat_setWidth]
  have := b.isLt
  omega

/-- RAM lies below the host's sign bit. -/
theorem hostAddr_lt (A : bus.Apart) {d : BusDev} {r : DevRAM} {a : PA}
    (ha : bus.deviceAt a = some d) (hp : d.Mapped r) : (r.hostAddr a).toNat < 2 ^ 63 := by
  obtain ⟨hha, hle, hlt⟩ := A.toNat_hostAddr ha hp
  have := hp.below
  omega

end Apart

end Bus

/-- **A memory map.** At most 32 devices, none running past the top of
the address space, no two overlapping; RAM that the host maps by whole
pages below its sign bit, at places of its own. -/
structure PagedBus where
  bus : Bus
  entries : bus.length ≤ 32
  noWrap : ∀ d ∈ bus, d.addr.toNat + d.size.toNat < 2 ^ 32
  apart : bus.Pairwise fun d e =>
    d.addr.toNat + d.size.toNat ≤ e.addr.toNat ∨ e.addr.toNat + e.size.toNat ≤ d.addr.toNat
  ramPaged : ∀ d ∈ bus, ∀ r, d.dev = .ram r → r.isROM = false ∧ r.baseAddress = d.addr ∧
    d.addr.toNat % 4096 = 0 ∧ d.size.toNat % 4096 = 0 ∧ r.mmapBase.toNat % 4096 = 0 ∧
    r.mmapBase.toNat + d.size.toNat ≤ 2 ^ 63
  ramApart : bus.Pairwise fun d e => ∀ r t, d.dev = .ram r → e.dev = .ram t →
    r.mmapBase.toNat + d.size.toNat ≤ t.mmapBase.toNat ∨
      t.mmapBase.toNat + e.size.toNat ≤ r.mmapBase.toNat

namespace PagedBus

variable (B : PagedBus)

/-- The device that answers an address. -/
def deviceAt (addr : PA) : Option BusDev := B.bus.find? (·.matchesAddr addr)

/-- Where a guest address is accessed: the host address of RAM, or the
guest address itself, marked, where another device answers it. -/
def target (addr : PA) : Option HVA :=
  (B.deviceAt addr).map fun d =>
    match d.dev with
    | .ram r => r.hostAddr addr
    | .io => addr.setWidth 64 ||| 1#64 <<< 63

variable {B}

theorem toApart (B : PagedBus) : B.bus.Apart := ⟨B.entries, B.noWrap, B.apart⟩

/-- The device at an address is at one entry of the bus. -/
theorem deviceAt_eq_some_iff {d : BusDev} {addr : PA} :
    B.deviceAt addr = some d ↔ ∃ i : ℕ, B.bus[i]? = some d ∧ d.matchesAddr addr = true :=
  B.toApart.deviceAt_eq_some_iff

theorem mem_of_deviceAt {d : BusDev} {addr : PA} (h : B.deviceAt addr = some d) : d ∈ B.bus :=
  List.mem_of_find?_eq_some h

/-- Whatever device was found last, the one found is the one that answers
the address; nothing but the cache changes. -/
theorem getDev_eq (addr : PA) (s : Sys) :
    (B.deviceAt addr = none ∧ B.bus.getDev addr s = .abort (.busMiss addr) s) ∨
    ∃ (d : BusDev) (i : ℕ), B.deviceAt addr = some d ∧
      B.bus.getDev addr s = .ok d.dev { s with lastDev := i } :=
  B.toApart.getDev_eq addr s

/-! ## Pages -/

theorem paged {d : BusDev} {r : DevRAM} {a : PA} (ha : B.deviceAt a = some d)
    (hr : d.dev = .ram r) : d.Paged r := by
  obtain ⟨-, hb, hda, hds, hmm, hmax⟩ := B.ramPaged d (mem_of_deviceAt ha) r hr
  exact ⟨⟨hb, hmm, hmax⟩, hda, hds⟩

/-- RAM answers for whole pages. -/
theorem deviceAt_page {d : BusDev} {r : DevRAM} {a b : PA} (ha : B.deviceAt a = some d)
    (hr : d.dev = .ram r) (hab : Block.base 12 b = Block.base 12 a) : B.deviceAt b = some d :=
  B.toApart.deviceAt_page ha (paged ha hr) hab

/-- Where the bytes of RAM lie. -/
theorem toNat_hostAddr {d : BusDev} {r : DevRAM} {a : PA} (ha : B.deviceAt a = some d)
    (hr : d.dev = .ram r) :
    (r.hostAddr a).toNat = r.mmapBase.toNat + (a.toNat - d.addr.toNat) ∧
      d.addr.toNat ≤ a.toNat ∧ a.toNat < d.addr.toNat + d.size.toNat :=
  B.toApart.toNat_hostAddr ha (paged ha hr).toMapped

/-- A page of RAM is a page of the host. -/
theorem hostAddr_page {d : BusDev} {r : DevRAM} {a b : PA} (ha : B.deviceAt a = some d)
    (hr : d.dev = .ram r) (hab : Block.base 12 b = Block.base 12 a) :
    r.hostAddr b = Block.base 12 (r.hostAddr a) ||| Block.offset 12 (b.setWidth 64) :=
  B.toApart.hostAddr_page ha (paged ha hr) hab

/-- RAM lies below the host's sign bit. -/
theorem hostAddr_lt {d : BusDev} {r : DevRAM} {a : PA} (ha : B.deviceAt a = some d)
    (hr : d.dev = .ram r) : (r.hostAddr a).toNat < 2 ^ 63 :=
  B.toApart.hostAddr_lt ha (paged ha hr).toMapped

/-- Two guest addresses are not one byte of the host. -/
theorem hostAddr_inj {d e : BusDev} {r t : DevRAM} {a b : PA} (ha : B.deviceAt a = some d)
    (hr : d.dev = .ram r) (hb : B.deviceAt b = some e) (ht : e.dev = .ram t)
    (h : r.hostAddr a = t.hostAddr b) : a = b := by
  obtain ⟨hha, hale, halt⟩ := toNat_hostAddr ha hr
  obtain ⟨hhb, hble, hblt⟩ := toNat_hostAddr hb ht
  rw [h, hhb] at hha
  obtain ⟨i, hi, -⟩ := deviceAt_eq_some_iff.mp ha
  obtain ⟨j, hj, -⟩ := deviceAt_eq_some_iff.mp hb
  obtain ⟨hil, hi'⟩ := List.getElem?_eq_some_iff.mp hi
  obtain ⟨hjl, hj'⟩ := List.getElem?_eq_some_iff.mp hj
  have hp := List.pairwise_iff_getElem.mp B.ramApart
  rcases Nat.lt_trichotomy i j with hij | hij | hij
  · have := hp i j hil hjl hij r t (by rw [hi', hr]) (by rw [hj', ht])
    rw [hi', hj'] at this
    omega
  · subst hij
    rw [hi] at hj
    cases hj
    rw [hr] at ht
    cases ht
    apply BitVec.eq_of_toNat_eq
    omega
  · have := hp j i hjl hil hij t r (by rw [hj', ht]) (by rw [hi', hr])
    rw [hi', hj'] at this
    omega

/-- Marked addresses of one page differ in the offset alone. -/
theorem io_page {a b : PA} (hab : Block.base 12 b = Block.base 12 a) :
    b.setWidth 64 ||| 1#64 <<< 63 =
      Block.base 12 (a.setWidth 64 ||| 1#64 <<< 63) ||| Block.offset 12 (b.setWidth 64) := by
  apply Block.ext (k := 12)
  · rw [Block.base_join]
    apply BitVec.eq_of_getLsbD_eq
    intro i hi
    have := congrArg (·.getLsbD i) hab
    simp only [Block.getLsbD_base] at this
    simp only [Block.getLsbD_base, BitVec.getLsbD_or, BitVec.getLsbD_setWidth]
    by_cases hk : 12 ≤ i
    · simp only [hk, decide_true, Bool.and_true] at this
      simp [this]
    · simp [hk]
  · rw [Block.offset_join]
    apply BitVec.eq_of_getLsbD_eq
    intro i hi
    simp only [Block.getLsbD_offset, BitVec.getLsbD_or, BitVec.getLsbD_shiftLeft]
    by_cases hk : i < 12
    · simp [hk, show i < 63 by omega]
    · simp [hk]

variable (B) in
/-- Where a guest address is accessed, whether or not a device answers
it. -/
def hva (addr : PA) : HVA := (B.target addr).getD (addr.setWidth 64 ||| 1#64 <<< 63)

theorem hva_of_target {a : PA} {h : HVA} (ha : B.target a = some h) : B.hva a = h := by
  rw [hva, ha, Option.getD_some]

/-- **One page, one place.** Addresses of a page of which some device
answers one are accessed at places that differ in the offset alone. -/
theorem hva_page {a b : PA} {h : HVA} (ha : B.target a = some h)
    (hab : Block.base 12 b = Block.base 12 a) :
    B.hva b = Block.base 12 h ||| Block.offset 12 (b.setWidth 64) := by
  unfold hva
  unfold target at ha ⊢
  cases hda : B.deviceAt a with
  | none => rw [hda] at ha; cases ha
  | some d =>
    rw [hda, Option.map_some, Option.some_inj] at ha
    cases hd : d.dev with
    | ram r =>
      -- RAM has whole pages
      rw [hd] at ha
      rw [deviceAt_page hda hd hab, Option.map_some, Option.getD_some, hd, ← ha]
      exact hostAddr_page hda hd hab
    | io =>
      rw [hd] at ha
      subst ha
      cases hdb : B.deviceAt b with
      | none => exact io_page hab
      | some e =>
        rw [Option.map_some, Option.getD_some]
        cases he : e.dev with
        | ram r =>
          have : some d = some e := by rw [← hda, deviceAt_page hdb he hab.symm]
          cases this
          rw [hd] at he
          cases he
        | io => exact io_page hab

/-- **One page, one target.** Addresses of one page have targets that
differ in the offset alone, where they have any. -/
theorem target_page {a b : PA} {h : HVA} (ha : B.target a = some h)
    (hab : Block.base 12 b = Block.base 12 a) :
    B.target b = none ∨
      B.target b = some (Block.base 12 h ||| Block.offset 12 (b.setWidth 64)) := by
  cases hb : B.target b with
  | none => exact .inl rfl
  | some k => rw [← hva_page ha hab, hva_of_target hb]; exact .inr rfl

/-! ## RAM through the bus -/

variable (B) in
/-- The host address of a byte of RAM. -/
def ramAt (addr : PA) : Option HVA :=
  (B.deviceAt addr).bind fun d =>
    match d.dev with
    | .ram r => some (r.hostAddr addr)
    | .io => none

theorem ramAt_eq_some_iff {addr : PA} {h : HVA} : B.ramAt addr = some h ↔
    ∃ d r, B.deviceAt addr = some d ∧ d.dev = .ram r ∧ r.hostAddr addr = h := by
  unfold ramAt
  cases hd : B.deviceAt addr with
  | none => simp
  | some d =>
    cases hr : d.dev with
    | ram r => simp [hr]
    | io => simp [hr]

/-- One byte of the host is one byte of RAM. -/
theorem ramAt_inj {a b : PA} {h : HVA} (ha : B.ramAt a = some h) (hb : B.ramAt b = some h) :
    a = b := by
  obtain ⟨d, r, hd, hr, rfl⟩ := ramAt_eq_some_iff.mp ha
  obtain ⟨e, t, he, ht, heq⟩ := ramAt_eq_some_iff.mp hb
  exact hostAddr_inj hd hr he ht heq.symm

/-- The host keeps the offset within a page. -/
theorem ramAt_offset {a : PA} {h : HVA} (ha : B.ramAt a = some h) :
    h.toNat % 4096 = a.toNat % 4096 := by
  obtain ⟨d, r, hd, hr, rfl⟩ := ramAt_eq_some_iff.mp ha
  obtain ⟨hh, hle, -⟩ := toNat_hostAddr hd hr
  obtain ⟨-, -, hda, -, hmm, -⟩ := B.ramPaged d (mem_of_deviceAt hd) r hr
  omega

/-- Reading a word of RAM. -/
theorem read32_ramAt (m : IoModel) {addr : PA} {h : HVA} (ha : B.ramAt addr = some h) (s : Sys) :
    ∃ i, B.bus.read32 m addr s = .ok (ByteMem.read32 s.mem h) { s with lastDev := i } := by
  obtain ⟨d, r, hd, hr, rfl⟩ := ramAt_eq_some_iff.mp ha
  rcases getDev_eq (B := B) addr s with ⟨hn, -⟩ | ⟨e, i, he, hg⟩
  · rw [hn] at hd; cases hd
  · rw [hd] at he
    cases he
    refine ⟨i, ?_⟩
    rw [Bus.read32, Prog.bind_of_ok hg, hr]
    rfl

/-- Writing a word of RAM. -/
theorem write32_ramAt (m : IoModel) {addr : PA} {h : HVA} (ha : B.ramAt addr = some h)
    (v : BitVec 32) (s : Sys) : ∃ i, B.bus.write32 m addr v s =
      .ok () { s with mem := ByteMem.write32 s.mem h v, lastDev := i } := by
  obtain ⟨d, r, hd, hr, rfl⟩ := ramAt_eq_some_iff.mp ha
  rcases getDev_eq (B := B) addr s with ⟨hn, -⟩ | ⟨e, i, he, hg⟩
  · rw [hn] at hd; cases hd
  · rw [hd] at he
    cases he
    obtain ⟨hrom, -⟩ := B.ramPaged d (mem_of_deviceAt hd) r hr
    refine ⟨i, ?_⟩
    rw [Bus.write32, Prog.bind_of_ok hg, hr]
    simp [DevRAM.write32, Prog.when, hrom]

/-- An access to a device is recorded, and gets its reply. -/
theorem ioAccess_eq (m : IoModel) (a : IoAccess) (s : Sys) : ioAccess m a s =
    match m.reply (a :: s.io) with
    | some v => .ok v { s with io := a :: s.io, mem := m.dma (a :: s.io) s.mem }
    | none => .abort .device { s with io := a :: s.io, mem := m.dma (a :: s.io) s.mem } := by
  rw [ioAccess, Prog.modify_bind_apply, Prog.gets_bind_apply]
  simp only
  cases m.reply (a :: s.io) <;> rfl

/-- What a direct map and its absence amount to: the target. -/
theorem getDirectMap_eq (addr : PA) (s : Sys) :
    (B.target addr = none ∧ B.bus.getDirectMap addr s = .abort (.busMiss addr) s) ∨
    ∃ (h : HVA) (o : Option HVA) (i : ℕ), B.target addr = some h ∧
      B.bus.getDirectMap addr s = .ok o { s with lastDev := i } ∧
      o.getD (addr.setWidth 64 ||| 1#64 <<< 63) = h := by
  rcases getDev_eq (B := B) addr s with ⟨hn, hg⟩ | ⟨d, i, hd, hg⟩
  · exact .inl ⟨by simp [target, hn], by rw [Bus.getDirectMap, Prog.bind_of_abort hg]⟩
  · right
    cases hr : d.dev with
    | ram r =>
      refine ⟨r.hostAddr addr, some (r.hostAddr addr), i, by simp [target, hd, hr], ?_, rfl⟩
      rw [Bus.getDirectMap, Prog.bind_of_ok hg, hr]
      rfl
    | io =>
      refine ⟨_, none, i, by simp [target, hd, hr], ?_, rfl⟩
      rw [Bus.getDirectMap, Prog.bind_of_ok hg, hr]
      rfl

end PagedBus

end MrIss
