import MrIss.Mmu.Run
/-!
# Direct mapping and the bus

A data access that hits the uTLB goes through the pointer that
`get_direct_map` gave when the entry was made; the devices' own read and
write methods are called for what has no place in the host. Here the two
ways are run side by side, on any set of attached devices.
-/

namespace MrIss

open EarlyReturn Run

/-- Devices attached to a bus. RAM and ROM are mapped with `mmap`. -/
structure AttachedBus where
  bus : Bus
  apart : bus.Apart
  mapped : ∀ d ∈ bus, ∀ r, d.dev = .ram r → d.Mapped r

namespace Direct

/-! ## The two ways -/

section

variable (m : IoModel) (bus : Bus)

/-- `Bus::readN`, with the bytes of the guest's order. -/
def busRead (size : Size) (addr : PA) : SysM (BitVec 32) :=
  match size with
  | .byte => do
    let v ← bus.read8 m addr
    pure (v.setWidth 32)
  | .half => do
    let v ← bus.read16 m addr
    pure ((ByteMem.swap16 v).setWidth 32)
  | .word => do
    let v ← bus.read32 m addr
    pure (ByteMem.swap32 v)

/-- `Bus::writeN`. -/
def busWrite (size : Size) (addr : PA) (val : BitVec 32) : SysM Unit :=
  match size with
  | .byte => bus.write8 m addr (val.setWidth 8)
  | .half => bus.write16 m addr (ByteMem.swap16 (val.setWidth 16))
  | .word => bus.write32 m addr (ByteMem.swap32 val)

/-- What a pointer leads to. -/
def hostRead (size : Size) (pa : HVA) (mem : HostMem) : BitVec 32 :=
  match size with
  | .byte => (mem pa).setWidth 32
  | .half => (ByteMem.swap16 (ByteMem.read16 mem pa)).setWidth 32
  | .word => ByteMem.swap32 (ByteMem.read32 mem pa)

def hostWrite (size : Size) (pa : HVA) (val : BitVec 32) (mem : HostMem) : HostMem :=
  match size with
  | .byte => ByteMem.write8 mem pa (val.setWidth 8)
  | .half => ByteMem.write16 mem pa (ByteMem.swap16 (val.setWidth 16))
  | .word => ByteMem.write32 mem pa (ByteMem.swap32 val)

/-- A load at the address that the uTLB holds. -/
def read (size : Size) (pa : HVA) : SysM (BitVec 32) :=
  if Mmu.isDirect pa then Prog.gets fun s => hostRead size pa s.mem
  else busRead m bus size (pa.setWidth 32)

/-- A store there. -/
def write (size : Size) (pa : HVA) (val : BitVec 32) : SysM Unit :=
  if Mmu.isDirect pa then Prog.modify fun s => { s with mem := hostWrite size pa val s.mem }
  else busWrite m bus size (pa.setWidth 32) val

/-- What `utlbInsert` puts in an entry for a physical address. -/
def entryFor (outAddr : PA) : SysM HVA := do
  let hostAddr ← bus.getDirectMap outAddr
  pure (hostAddr.getD (outAddr.setWidth 64 ||| 1#64 <<< 63))

end

/-- The loads of the MMU read so. -/
theorem readPA_eq (c : Config) (size : Size) (pa : HVA) :
    Mmu.readPA c size pa = onBus (read c.io c.map.bus size pa) := by
  rw [read]
  cases size <;> cases h : Mmu.isDirect pa <;> simp only [Mmu.readPA, h] <;> rfl

/-- The stores of the MMU write so. -/
theorem writePA_eq (c : Config) (size : Size) (pa : HVA) (val : BitVec 32) :
    Mmu.writePA c size pa val = onBus (write c.io c.map.bus size pa val) := by
  rw [write]
  cases size <;> cases h : Mmu.isDirect pa <;> simp only [Mmu.writePA, h] <;> rfl

/-! ## Runs -/

/-- The uTLB and the system behind it; beside them the physical address
that each entry was made for, and the system on which the same accesses
are made through the bus. -/
structure Both where
  mmu : Mmu
  sys : Sys
  madeFor : UtlbArray → BitVec 7 → PA
  ref : Sys

/-- The physical address that an entry translates an address to. -/
def Both.phys (s : Both) (priv : Bool) (addr : VA) : PA :=
  Block.base 12 (s.madeFor (selectUtlb false priv) (Mmu.addrToIdx addr)) ||| Block.offset 12 addr

/-- An entry is made. -/
def Both.insert (s : Both) (priv : Bool) (addr : VA) (outAddr : PA) (pa : HVA) (perms : MmuPerms)
    (sys : Sys) : Both :=
  { s with
    mmu := s.mmu.utlbSet false priv addr pa perms
    sys := sys
    madeFor := Function.update s.madeFor (selectUtlb false priv)
      (Function.update (s.madeFor (selectUtlb false priv)) (Mmu.addrToIdx addr) outAddr) }

inductive Event where
  | insert (priv : Bool) (addr : VA) (outAddr : PA) (perms : MmuPerms)
  | setIRDR (ir dr : Bool)
  | invalidate
  | load (size : Size) (addr : VA) (priv : Bool)
  | store (size : Size) (addr : VA) (val : BitVec 32) (priv : Bool)
  deriving DecidableEq, Repr

/-- The steps of the MMU and the accesses it lets through. -/
inductive Step (m : IoModel) (A : AttachedBus) : Both → Event → Both → Prop where
  | insert {s : Both} {priv : Bool} {addr : VA} {outAddr : PA} {perms : MmuPerms} {pa : HVA}
      {sys : Sys} (hoff : Block.offset 12 outAddr = Block.offset 12 addr)
      (h : entryFor A.bus outAddr s.sys = .ok pa sys) :
      Step m A s (.insert priv addr outAddr perms) (s.insert priv addr outAddr pa perms sys)
  | setIRDR {s : Both} (ir dr : Bool) :
      Step m A s (.setIRDR ir dr) { s with mmu := s.mmu.setIRDR ir dr }
  | invalidate {s : Both} : Step m A s .invalidate { s with mmu := s.mmu.dutlbInv }
  | load {s : Both} {size : Size} {addr : VA} {priv : Bool} {pa : HVA} {perms : MmuPerms}
      {v v' : BitVec 32} {t u : Sys} (hit : s.mmu.utlbLookup false priv addr = some (pa, perms))
      (h : read m A.bus size pa s.sys = .ok v t)
      (hr : busRead m A.bus size (s.phys priv addr) s.ref = .ok v' u) :
      Step m A s (.load size addr priv) { s with sys := t, ref := u }
  | store {s : Both} {size : Size} {addr : VA} {val : BitVec 32} {priv : Bool} {pa : HVA}
      {perms : MmuPerms} {t u : Sys}
      (hit : s.mmu.utlbLookup false priv addr = some (pa, perms))
      (h : write m A.bus size pa val s.sys = .ok () t)
      (hr : busWrite m A.bus size (s.phys priv addr) val s.ref = .ok () u) :
      Step m A s (.store size addr val priv) { s with sys := t, ref := u }

/-- Both systems are one, and the uTLB is empty. -/
def Both.init (mmu : Mmu) (madeFor : UtlbArray → BitVec 7 → PA) (sys : Sys) : Both :=
  ⟨mmu.construct, sys, madeFor, sys⟩

/-! ## Agreement -/

/-- What the devices hold: the host's memory, and what was done to the
devices that are not RAM. -/
def contents (s : Sys) : HostMem × List IoAccess := (s.mem, s.io)

/-- An outcome but for the device that was found last. -/
def seen {α : Type} : Out Abort Sys α → Out Abort (HostMem × List IoAccess) α
  | .ok a s => .ok a (contents s)
  | .ret s => .ret (contents s)
  | .abort e s => .abort e (contents s)

/-- The devices hold the same, and every access that hits gives the same
and leaves the same either way. -/
structure Agree (m : IoModel) (A : AttachedBus) (s : Both) : Prop where
  same : contents s.sys = contents s.ref
  load : ∀ size addr priv pa perms, s.mmu.utlbLookup false priv addr = some (pa, perms) →
    seen (read m A.bus size pa s.sys) = seen (busRead m A.bus size (s.phys priv addr) s.ref)
  store : ∀ size addr val priv pa perms, s.mmu.utlbLookup false priv addr = some (pa, perms) →
    seen (write m A.bus size pa val s.sys) =
      seen (busWrite m A.bus size (s.phys priv addr) val s.ref)

/-- Nothing is ROM, and RAM starts and ends on page boundaries; of devices
that answer no address nothing is asked. -/
def RamWhole (A : AttachedBus) : Prop :=
  ∀ d ∈ A.bus, ∀ r, d.dev = .ram r → d.size ≠ 0 →
    r.isROM = false ∧ d.addr.toNat % 4096 = 0 ∧ d.size.toNat % 4096 = 0

/-! ## What the bus does -/

section

variable {m : IoModel} {A : AttachedBus} {size : Size} {a b : PA} {val : BitVec 32}

/-- What a device's reply is worth to a load. -/
def replyValue (size : Size) (v : BitVec 32) : BitVec 32 :=
  match size with
  | .byte => (v.setWidth 8).setWidth 32
  | .half => (ByteMem.swap16 (v.setWidth 16)).setWidth 32
  | .word => ByteMem.swap32 v

/-- What a store tells a device. -/
def storeData (size : Size) (val : BitVec 32) : BitVec 32 :=
  match size with
  | .byte => (val.setWidth 8).setWidth 32
  | .half => (ByteMem.swap16 (val.setWidth 16)).setWidth 32
  | .word => ByteMem.swap32 val

/-- A device that is not RAM gets an access. -/
def ioSeen {α : Type} (m : IoModel) (acc : IoAccess) (f : BitVec 32 → α)
    (c : HostMem × List IoAccess) : Out Abort (HostMem × List IoAccess) α :=
  match m.reply (acc :: c.2) with
  | some v => .ok (f v) (m.dma (acc :: c.2) c.1, acc :: c.2)
  | none => .abort .device (m.dma (acc :: c.2) c.1, acc :: c.2)

theorem seen_ioAccess {α : Type} (acc : IoAccess) (f : BitVec 32 → α) (s : Sys) :
    seen ((ioAccess m acc >>= fun v => pure (f v)) s) = ioSeen m acc f (contents s) := by
  have h := PagedBus.ioAccess_eq m acc s
  rw [ioSeen, contents]
  cases hr : m.reply (acc :: s.io) with
  | none => rw [hr] at h; rw [Prog.bind_of_abort h]; rfl
  | some v => rw [hr] at h; rw [Prog.bind_of_ok h]; rfl

/-- **A load through the bus,** but for the device found last. -/
def readSeen (m : IoModel) (A : AttachedBus) (size : Size) (b : PA)
    (c : HostMem × List IoAccess) : Out Abort (HostMem × List IoAccess) (BitVec 32) :=
  match A.bus.deviceAt b with
  | none => .abort (.busMiss b) c
  | some d =>
    match d.dev with
    | .ram r => .ok (hostRead size (r.hostAddr b) c.1) c
    | .io => ioSeen m ⟨false, size, b, 0⟩ (replyValue size) c

theorem seen_busRead (s : Sys) :
    seen (busRead m A.bus size b s) = readSeen m A size b (contents s) := by
  unfold readSeen
  rcases A.apart.getDev_eq b s with ⟨hn, hg⟩ | ⟨d, i, hd, hg⟩
  · rw [hn]
    cases size <;>
      simp only [busRead, Bus.read8, Bus.read16, Bus.read32, Prog.bind_assoc,
        Prog.bind_of_abort hg] <;> rfl
  · rw [hd]
    cases hdev : d.dev with
    | ram r =>
      cases size <;>
        simp only [busRead, Bus.read8, Bus.read16, Bus.read32, Prog.bind_assoc,
          Prog.bind_of_ok hg, hdev] <;> rfl
    | io =>
      have hio := seen_ioAccess (m := m) ⟨false, size, b, 0⟩ (replyValue size)
        { s with lastDev := i }
      cases size <;>
        simp only [busRead, Bus.read8, Bus.read16, Bus.read32, Prog.bind_assoc,
          Prog.bind_of_ok hg, hdev, Prog.map_bind] <;> exact hio

/-- **A store through the bus,** but for the device found last. -/
def writeSeen (m : IoModel) (A : AttachedBus) (size : Size) (b : PA) (val : BitVec 32)
    (c : HostMem × List IoAccess) : Out Abort (HostMem × List IoAccess) Unit :=
  match A.bus.deviceAt b with
  | none => .abort (.busMiss b) c
  | some d =>
    match d.dev with
    | .ram r => .ok () (if r.isROM then c.1 else hostWrite size (r.hostAddr b) val c.1, c.2)
    | .io => ioSeen m ⟨true, size, b, storeData size val⟩ (fun _ => ()) c

theorem seen_busWrite (s : Sys) :
    seen (busWrite m A.bus size b val s) = writeSeen m A size b val (contents s) := by
  unfold writeSeen
  rcases A.apart.getDev_eq b s with ⟨hn, hg⟩ | ⟨d, i, hd, hg⟩
  · rw [hn]
    cases size <;>
      simp only [busWrite, Bus.write8, Bus.write16, Bus.write32, Prog.bind_of_abort hg] <;> rfl
  · rw [hd]
    cases hdev : d.dev with
    | ram r =>
      cases size <;> cases hrom : r.isROM <;>
        simp only [busWrite, Bus.write8, Bus.write16, Bus.write32, Prog.bind_of_ok hg, hdev,
          DevRAM.write8, DevRAM.write16, DevRAM.write32, Prog.when, hrom] <;> rfl
    | io =>
      have hio := seen_ioAccess (m := m) ⟨true, size, b, storeData size val⟩ (fun _ => ())
        { s with lastDev := i }
      cases size <;>
        simp only [busWrite, Bus.write8, Bus.write16, Bus.write32, Prog.bind_of_ok hg, hdev] <;>
        exact hio

end

/-! ## Pages -/

/-- The address in the uTLB leads to the byte that the bus finds: it is a
place in the host where RAM that may be written has that byte, or it is the
physical address itself, marked. -/
def Leads (A : AttachedBus) (b : PA) (pa : HVA) : Prop :=
  (Mmu.isDirect pa = true ∧ ∃ d r, A.bus.deviceAt b = some d ∧ d.dev = .ram r ∧
    r.isROM = false ∧ r.hostAddr b = pa) ∨
  (Mmu.isDirect pa = false ∧ pa.setWidth 32 = b)

section

variable {m : IoModel} {A : AttachedBus} {size : Size} {b : PA} {pa : HVA} {s u : Sys}

/-- **A load** gives the same either way. -/
theorem Leads.load (h : Leads A b pa) (hc : contents s = contents u) :
    seen (read m A.bus size pa s) = seen (busRead m A.bus size b u) := by
  rw [read, seen_busRead]
  rcases h with ⟨hdir, d, r, hd, hr, -, rfl⟩ | ⟨hdir, rfl⟩
  · rw [if_pos hdir, readSeen, hd, ← hc]
    simp only [hr]
    rfl
  · rw [if_neg (by simp [hdir]), seen_busRead, hc]

/-- **A store** leaves the same either way. -/
theorem Leads.store {val : BitVec 32} (h : Leads A b pa) (hc : contents s = contents u) :
    seen (write m A.bus size pa val s) = seen (busWrite m A.bus size b val u) := by
  rw [write, seen_busWrite]
  rcases h with ⟨hdir, d, r, hd, hr, hrom, rfl⟩ | ⟨hdir, rfl⟩
  · rw [if_pos hdir, writeSeen, hd, ← hc]
    simp only [hr, hrom]
    rfl
  · rw [if_neg (by simp [hdir]), seen_busWrite, hc]

end

theorem isDirect_iff {pa : HVA} : Mmu.isDirect pa = true ↔ pa.toNat < 2 ^ 63 := by
  rw [Mmu.isDirect, BitVec.getLsbD, Nat.testBit_eq_decide_div_mod_eq]
  have := pa.isLt
  simp only [Bool.not_eq_true', decide_eq_false_iff_not]
  omega

/-- The marked address is not direct, and is the address. -/
theorem marked (b : PA) : Mmu.isDirect (b.setWidth 64 ||| 1#64 <<< 63) = false ∧
    (b.setWidth 64 ||| 1#64 <<< 63).setWidth 32 = b := by
  constructor
  · simp [Mmu.isDirect]
  · apply BitVec.eq_of_getLsbD_eq
    intro i hi
    simp [hi]

section

variable {A : AttachedBus} {outAddr : PA} {pa : HVA} {s t : Sys}

/-- What an entry is made of. -/
theorem entryFor_ok (h : entryFor A.bus outAddr s = .ok pa t) : contents t = contents s ∧
    ∃ d, A.bus.deviceAt outAddr = some d ∧ pa = match d.dev with
      | .ram r => r.hostAddr outAddr
      | .io => outAddr.setWidth 64 ||| 1#64 <<< 63 := by
  rw [entryFor, Bus.getDirectMap, Prog.bind_assoc] at h
  rcases A.apart.getDev_eq outAddr s with ⟨-, hg⟩ | ⟨d, i, hd, hg⟩
  · rw [Prog.bind_of_abort hg] at h
    cases h
  · rw [Prog.bind_of_ok hg] at h
    cases hdev : d.dev <;> rw [hdev] at h <;> cases h <;>
      exact ⟨rfl, d, hd, by rw [hdev]; rfl⟩

/-- An entry is made for every address that a device answers. -/
theorem entryFor_eq {d : BusDev} {r : DevRAM} (hd : A.bus.deviceAt outAddr = some d)
    (hr : d.dev = .ram r) (s : Sys) :
    ∃ t, entryFor A.bus outAddr s = .ok (r.hostAddr outAddr) t ∧ contents t = contents s := by
  rcases A.apart.getDev_eq outAddr s with ⟨hn, -⟩ | ⟨e, i, he, hg⟩
  · rw [hn] at hd
    cases hd
  · rw [hd] at he
    cases he
    refine ⟨{ s with lastDev := i }, ?_, rfl⟩
    rw [entryFor, Bus.getDirectMap, Prog.bind_assoc, Prog.bind_of_ok hg, hr]
    rfl

/-- **One page, one entry:** what is made for an address leads to all bytes
of its page, where RAM is whole pages. -/
theorem entryFor_leads (hA : RamWhole A) (h : entryFor A.bus outAddr s = .ok pa t) (x : VA) :
    Leads A (Block.base 12 outAddr ||| Block.offset 12 x)
      (Block.base 12 pa ||| Block.offset 12 (x.setWidth 64)) := by
  obtain ⟨-, d, hd, rfl⟩ := entryFor_ok h
  have hpage : Block.base 12 (Block.base 12 outAddr ||| Block.offset 12 x) =
      Block.base 12 outAddr := Block.base_join _ _ _
  have hoff : Block.offset 12 ((Block.base 12 outAddr ||| Block.offset 12 x).setWidth 64) =
      Block.offset 12 (x.setWidth 64) := by
    rw [Mmu.offset_setWidth, Mmu.offset_setWidth, Block.offset_join]
  cases hdev : d.dev with
  | io =>
    right
    simp only
    rw [← hoff, ← PagedBus.io_page hpage]
    exact marked _
  | ram r =>
    left
    simp only
    have hmem := Bus.Apart.mem_of_deviceAt hd
    have hrange := A.apart.range_of_deviceAt hd
    obtain ⟨hrom, haddr, hsize⟩ := hA d hmem r hdev
      (by rintro h0; simp [h0] at hrange; omega)
    have hp : d.Paged r := ⟨A.mapped d hmem r hdev, haddr, hsize⟩
    have hd' := A.apart.deviceAt_page hd hp hpage
    rw [← hoff, ← A.apart.hostAddr_page hd hp hpage]
    exact ⟨isDirect_iff.mpr (A.apart.hostAddr_lt hd' hp.toMapped), d, r, hd', hdev, hrom, rfl⟩

end

/-! ## Every run -/

section

variable {m : IoModel} {A : AttachedBus} {s t : Both} {e : Event} {es : List Event}

/-- What a run keeps: the same contents, and entries that lead where their
addresses are. -/
structure Inv (A : AttachedBus) (s : Both) : Prop where
  same : contents s.sys = contents s.ref
  leads : ∀ a i, (s.mmu.utlb a i).ea ≠ 0 → ∀ x : VA,
    Leads A (Block.base 12 (s.madeFor a i) ||| Block.offset 12 x)
      ((s.mmu.utlb a i).getPA ||| Block.offset 12 (x.setWidth 64))

/-- A hit leads where the address is. -/
theorem Inv.hit (hs : Inv A s) {priv : Bool} {addr : VA} {pa : HVA} {perms : MmuPerms}
    (h : s.mmu.utlbLookup false priv addr = some (pa, perms)) : Leads A (s.phys priv addr) pa := by
  obtain ⟨hea, rfl, -⟩ := Mmu.utlbLookup_eq_some.mp h
  exact hs.leads _ _ (by rw [hea]; exact Utlb.tag_ne_zero _ _) addr

theorem Inv.agree (hs : Inv A s) : Agree m A s where
  same := hs.same
  load _ _ _ _ _ h := (hs.hit h).load hs.same
  store _ _ _ _ _ _ h := (hs.hit h).store hs.same

theorem Inv.init (mmu : Mmu) (madeFor : UtlbArray → BitVec 7 → PA) (sys : Sys) :
    Inv A (.init mmu madeFor sys) where
  same := rfl
  leads a i h := by
    refine absurd ?_ h
    cases a <;> rfl

/-- **One step.** -/
theorem Inv.step (hA : RamWhole A) (h : Step m A s e t) (hs : Inv A s) : Inv A t := by
  cases h with
  | @insert priv addr outAddr perms pa sys _ hentry =>
    refine ⟨(entryFor_ok hentry).1.trans hs.same, fun a i hea x => ?_⟩
    by_cases ha : a = selectUtlb false priv
    · subst ha
      by_cases hi : i = Mmu.addrToIdx addr
      · subst hi
        have := entryFor_leads hA hentry x
        simpa [Both.insert, Mmu.utlbSet] using this
      · have := hs.leads (selectUtlb false priv) i
        simp only [Both.insert, Mmu.utlbSet, Function.update_self, Function.update_of_ne hi] at hea ⊢
        exact this hea x
    · have := hs.leads a i
      simp only [Both.insert, Mmu.utlbSet, Function.update_of_ne ha] at hea ⊢
      exact this hea x
  | setIRDR ir dr => exact ⟨hs.same, hs.leads⟩
  | invalidate =>
    refine ⟨hs.same, fun a i hea => ?_⟩
    have := hs.leads a i
    cases a
    · exact this hea
    · exact absurd rfl hea
    · exact this hea
    · exact absurd rfl hea
  | @load size addr priv pa perms v v' t u hit h hr =>
    refine ⟨?_, hs.leads⟩
    have hseen : seen (read m A.bus size pa _) = seen (busRead m A.bus size _ _) :=
      (hs.hit hit).load hs.same
    rw [h, hr] at hseen
    exact (Out.ok.inj hseen).2
  | @store size addr val priv pa perms t u hit h hr =>
    refine ⟨?_, hs.leads⟩
    have hseen : seen (write m A.bus size pa val _) = seen (busWrite m A.bus size _ val _) :=
      (hs.hit hit).store hs.same
    rw [h, hr] at hseen
    exact (Out.ok.inj hseen).2

/-- **Every run.** -/
theorem Inv.run (hA : RamWhole A) (h : Steps (Step m A) s es t) (hs : Inv A s) : Inv A t :=
  h.invariant hs fun _ _ _ hs h => hs.step hA h

end

/-! ## What agreement takes -/

section

variable {m : IoModel} {A : AttachedBus} {d : BusDev} {r : DevRAM} {a b : PA}

/-- A run of one step: an entry is made for an address, and the same
virtual addresses hit it. -/
theorem oneEntry (hd : A.bus.deviceAt a = some d) (hr : d.dev = .ram r)
    (hab : Block.base 12 b = Block.base 12 a) (sys : Sys) :
    ∃ s, Steps (Step m A) (.init Mmu.zero (fun _ _ => 0) sys) [.insert true a a .any] s ∧
      contents s.sys = contents sys ∧ contents s.ref = contents sys ∧ s.phys true b = b ∧
      s.mmu.utlbLookup false true b = some
        (Block.base 12 (r.hostAddr a) ||| Block.offset 12 (b.setWidth 64), .any) := by
  obtain ⟨t, hentry, ht⟩ := entryFor_eq hd hr sys
  refine ⟨_, .single (.insert rfl hentry), ht, rfl, ?_, Mmu.utlbLookup_utlbSet _ _ _ _ _ hab⟩
  simp [Both.phys, Both.insert, Mmu.addrToIdx_page hab, ← hab]

/-- **Agreement at one byte of a page.** It is answered by RAM, which has
it where the entry leads. -/
theorem leads_of_agree (hall : ∀ mmu madeFor sys es s,
      Steps (Step m A) (.init mmu madeFor sys) es s → Agree m A s)
    (hd : A.bus.deviceAt a = some d) (hr : d.dev = .ram r)
    (hab : Block.base 12 b = Block.base 12 a) :
    ∃ e t, A.bus.deviceAt b = some e ∧ e.dev = .ram t ∧ t.isROM = false ∧
      t.hostAddr b = Block.base 12 (r.hostAddr a) ||| Block.offset 12 (b.setWidth 64) := by
  obtain ⟨pa, hpa⟩ : ∃ pa, pa = Block.base 12 (r.hostAddr a) ||| Block.offset 12 (b.setWidth 64) :=
    ⟨_, rfl⟩
  have hdir : Mmu.isDirect pa = true := by
    have hlt := A.apart.hostAddr_lt hd (A.mapped d (Bus.Apart.mem_of_deviceAt hd) r hr)
    rw [isDirect_iff, hpa, Block.toNat_join]
    omega
  -- memory that holds one at that place alone
  obtain ⟨s, hsteps, hsys, href, hphys, hit⟩ := oneEntry (m := m) hd hr hab
    ⟨fun x => if x = pa then 1 else 0, [], 0⟩
  rw [← hpa] at hit
  have hagree := hall _ _ _ _ _ hsteps
  have hload := hagree.load .byte _ _ _ _ hit
  have hstore := hagree.store .byte _ 2 _ _ _ hit
  rw [hphys, seen_busRead, href, read, if_pos hdir, readSeen] at hload
  rw [hphys, seen_busWrite, href, write, if_pos hdir, writeSeen] at hstore
  cases he : A.bus.deviceAt b with
  | none => rw [he] at hload; cases hload
  | some e =>
    rw [he] at hload hstore
    cases hdev : e.dev with
    | io =>
      -- the device would have been told of the access
      have hio : (contents s.sys).2 = [] := by rw [hsys]; rfl
      simp only [hdev, ioSeen, seen, Prog.gets_apply] at hload
      split at hload
      · have htold := congrArg Prod.snd (Out.ok.inj hload).2
        rw [hio] at htold
        cases htold
      · cases hload
    | ram t =>
      have hmem : s.sys.mem = fun x => if x = pa then 1 else 0 := congrArg Prod.fst hsys
      simp only [hdev, seen, Prog.gets_apply, hostRead, contents, hmem] at hload
      simp only [hdev, seen, Prog.modify_apply, hostWrite, contents, hmem] at hstore
      have hplace : t.hostAddr b = pa := by
        by_contra hne
        simp [hne] at hload
      refine ⟨e, t, rfl, hdev, ?_, hplace.trans hpa⟩
      cases hrom : t.isROM with
      | false => rfl
      | true =>
        rw [hrom, if_pos rfl] at hstore
        have := congrFun (Prod.mk.inj (Out.ok.inj hstore).2).1 pa
        simp [ByteMem.write8] at this

/-- RAM starts on a page boundary, or the first byte of its page would lead
elsewhere; nothing is ROM. -/
theorem start_of_agree (hall : ∀ mmu madeFor sys es s,
      Steps (Step m A) (.init mmu madeFor sys) es s → Agree m A s)
    (hmem : d ∈ A.bus) (hr : d.dev = .ram r) (hsize : d.size ≠ 0) :
    r.isROM = false ∧ d.addr.toNat % 4096 = 0 := by
  have hpos : d.size.toNat ≠ 0 := fun h => hsize (BitVec.eq_of_toNat_eq h)
  have hd := A.apart.deviceAt_of_range (a := d.addr) hmem (by omega)
  obtain ⟨e, t, he, ht, hrom, hplace⟩ := leads_of_agree hall hd hr rfl
  rw [hd] at he
  cases he
  rw [hr] at ht
  cases ht
  refine ⟨hrom, ?_⟩
  -- the first byte's place is where the mapping starts
  have hp := A.mapped d hmem r hr
  obtain ⟨hhost, -, -⟩ := A.apart.toNat_hostAddr hd hp
  have := hp.mmap
  have hjoin := congrArg BitVec.toNat hplace
  rw [Block.toNat_join, hhost, BitVec.toNat_setWidth] at hjoin
  have := d.addr.isLt
  omega

/-- RAM ends on a page boundary, or the byte after it would lead into its
last page. -/
theorem end_of_agree (hall : ∀ mmu madeFor sys es s,
      Steps (Step m A) (.init mmu madeFor sys) es s → Agree m A s)
    (hmem : d ∈ A.bus) (hr : d.dev = .ram r) (hsize : d.size ≠ 0) : d.size.toNat % 4096 = 0 := by
  have hpos : d.size.toNat ≠ 0 := fun h => hsize (BitVec.eq_of_toNat_eq h)
  have hstart := (start_of_agree hall hmem hr hsize).2
  have hwrap := A.apart.noWrap d hmem
  by_contra hend
  obtain ⟨a, ha⟩ : ∃ a : PA, a.toNat = d.addr.toNat + d.size.toNat - 1 :=
    ⟨BitVec.ofNat 32 (d.addr.toNat + d.size.toNat - 1), by
      rw [BitVec.toNat_ofNat, Nat.mod_eq_of_lt (by omega)]⟩
  obtain ⟨b, hb⟩ : ∃ b : PA, b.toNat = d.addr.toNat + d.size.toNat :=
    ⟨BitVec.ofNat 32 _, by rw [BitVec.toNat_ofNat, Nat.mod_eq_of_lt (by omega)]⟩
  have hd := A.apart.deviceAt_of_range (a := a) hmem (by omega)
  obtain ⟨e, t, he, ht, -, -⟩ := leads_of_agree (b := b) hall hd hr
    (Block.base_eq_iff.mpr (by omega))
  -- what answers there starts there
  have hemem := Bus.Apart.mem_of_deviceAt he
  have herange := A.apart.range_of_deviceAt he
  have hesize : e.size ≠ 0 := by
    intro h0
    simp [h0] at herange
    omega
  have hestart := (start_of_agree hall hemem ht hesize).2
  have hfar : d.addr.toNat + d.size.toNat ≤ e.addr.toNat := by
    rcases A.apart.eq_or_apart hmem hemem with rfl | h | h
    · omega
    · exact h
    · omega
  omega

/-- **The devices that may be mapped.** Over every run, the accesses made
through the uTLB's pointers give and leave what the same accesses through
the bus do exactly where no device is ROM and RAM is whole pages: the
pointer carries no check, and an entry is made for a page. -/
theorem mapped_as_bus_iff (m : IoModel) (A : AttachedBus) :
    (∀ mmu madeFor sys es s, Steps (Step m A) (.init mmu madeFor sys) es s → Agree m A s) ↔
      RamWhole A := by
  constructor
  · intro hall d hmem r hr hsize
    obtain ⟨hrom, hstart⟩ := start_of_agree hall hmem hr hsize
    exact ⟨hrom, hstart, end_of_agree hall hmem hr hsize⟩
  · intro hA mmu madeFor sys es s hsteps
    exact ((Inv.init mmu madeFor sys).run hA hsteps).agree

end

/-! ## A ROM -/

/-- One page of ROM at the reset vector's page. -/
def romBus : AttachedBus where
  bus := [⟨0xfff00000, 0x1000, .ram ⟨true, 0x10000000, 0xfff00000⟩⟩]
  apart := ⟨by decide, by simp, by simp⟩
  mapped := by
    rintro d hd r hr
    obtain rfl := List.mem_singleton.mp hd
    cases hr
    exact ⟨rfl, by decide, by decide⟩

/-- The entry for that page. -/
def romEntered : Both :=
  (Both.init Mmu.zero (fun _ _ => 0) .fresh).insert true 0xfff00000 0xfff00000 0x10000000 .any .fresh

/-- **A store changes the ROM,** and the bus would have left it alone: an
entry is made for its page, and a byte is stored through it. -/
theorem rom_written : ∃ (mmu : Mmu) (madeFor : UtlbArray → BitVec 7 → PA) (sys : Sys)
    (es : List Event) (s : Both),
    Steps (Step ⟨fun _ => some 0, fun _ mem => mem⟩ romBus) (.init mmu madeFor sys) es s ∧
      s.ref.mem = sys.mem ∧ s.sys.mem 0x10000000 ≠ sys.mem 0x10000000 ∧
      ¬ Agree ⟨fun _ => some 0, fun _ mem => mem⟩ romBus s := by
  have hentry : entryFor romBus.bus 0xfff00000 .fresh = .ok 0x10000000 .fresh := rfl
  have hit : romEntered.mmu.utlbLookup false true 0xfff00000 = some (0x10000000, .any) := by
    decide +kernel
  have hbus : busWrite ⟨fun _ => some 0, fun _ mem => mem⟩ romBus.bus .byte
      (romEntered.phys true 0xfff00000) 1 romEntered.ref = .ok () .fresh := rfl
  have hrun : Steps (Step ⟨fun _ => some 0, fun _ mem => mem⟩ romBus)
      (.init Mmu.zero (fun _ _ => 0) .fresh)
      [.insert true 0xfff00000 0xfff00000 .any, .store .byte 0xfff00000 1 true] _ :=
    .snoc (.single (.insert rfl hentry)) (.store hit rfl hbus)
  refine ⟨_, _, _, _, _, hrun, rfl, by decide, fun hagree => ?_⟩
  have := congrFun (congrArg Prod.fst hagree.same) 0x10000000
  revert this
  decide

end Direct

end MrIss
