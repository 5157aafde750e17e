import MrIss.Bus.Platform
import MrIss.Dev.Dma
/-!
# The block device

`DevSBD` reads and writes blocks of an image file. Three registers say
where and how much, and a write of the fourth does it at once. The test
against the image's size, the length and the offset are each computed in 32
bits.
-/

namespace MrIss

open EarlyReturn

namespace Sbd

/-- `DEVSBD_REG_*`. -/
inductive SbdReg where
  | IDR
  | BLKS
  | IRQ
  | CMD
  | PA
  | BLK_START
  | LEN
  | INFO
  deriving DecidableEq, Repr

/-- The register that an access is to. -/
def SbdReg.ofAddr (addr : MrIss.PA) : SbdReg :=
  match ((addr &&& 0x1f#32) >>> 2).toNat with
  | 0 => .IDR
  | 1 => .BLKS
  | 2 => .IRQ
  | 3 => .CMD
  | 4 => .PA
  | 5 => .BLK_START
  | 6 => .LEN
  | _ => .INFO

def cmdIdle : BitVec 32 := 0
def cmdRD : BitVec 32 := 1
def cmdWR : BitVec 32 := 3

/-- `DEVSBD_BLK_SIZE`. -/
def blkSize : BitVec 32 := 512

/-- `DevSBD`; `fd` says whether an image is open. -/
structure DevSBD where
  regs : SbdReg → BitVec 32
  fd : Bool
  nrBlocks : BitVec 32

namespace DevSBD

/-- The constructor, with `DevSBD::init`. -/
def init : DevSBD where
  regs
    | .IDR => 0xfeedf00d
    | .INFO => 0xff &&& (blkSize / 512)
    | _ => 0
  fd := false
  nrBlocks := 0

def setReg (d : DevSBD) (r : SbdReg) (v : BitVec 32) : DevSBD :=
  { d with regs := Function.update d.regs r v }

/-- `openImage` of a file that can be opened, of `size` bytes. One of too
many blocks is closed again, but stays in `fd`. -/
def openImage (d : DevSBD) (size : ℕ) : DevSBD :=
  let blks := size / 512
  if blks ≥ 2 ^ 32 then { d with fd := true }
  else { d.setReg .BLKS (BitVec.ofNat 32 blks) with fd := true, nrBlocks := BitVec.ofNat 32 blks }

/-- `doRead` and `doWrite`, which differ in the call of the host. -/
def doTransfer (d : DevSBD) (io : HVA → ℕ → ℕ → Prog Abort Host ℕ) (bus : Bus)
    (blockStart num : BitVec 32) (addr : PA) : Prog Abort Host Unit :=
  if num = 0 then pure ()
  else if d.fd then do
    let ha ← Host.getAddrDMA bus addr
    if blockStart ≥ d.nrBlocks ∨ blockStart + num > d.nrBlocks then pure ()
    else discard <| io ha (num * blkSize).toNat (blockStart * blkSize).toNat
  else pure ()

def doRead (d : DevSBD) (bus : Bus) (blockStart num : BitVec 32) (dst : PA) :
    Prog Abort Host Unit :=
  d.doTransfer Host.pread bus blockStart num dst

def doWrite (d : DevSBD) (bus : Bus) (blockStart num : BitVec 32) (src : PA) :
    Prog Abort Host Unit :=
  d.doTransfer Host.pwrite bus blockStart num src

end DevSBD

/-- The device, with what its transfers reach. -/
structure Disk where
  dev : DevSBD
  host : Host

namespace Disk

def onHost {α : Type} : Prog Abort Host α → Prog Abort Disk α :=
  Prog.zoom Disk.host fun t h => { t with host := h }

def setReg (r : SbdReg) (v : BitVec 32) : Prog Abort Disk Unit :=
  Prog.modify fun t => { t with dev := t.dev.setReg r v }

/-- `DevSBD::write32`. -/
def write32 (bus : Bus) (addr : PA) (data : BitVec 32) : Prog Abort Disk Unit :=
  match SbdReg.ofAddr addr with
  | .IRQ => setReg .IRQ data
  | .PA => setReg .PA data
  | .LEN => setReg .LEN data
  | .BLK_START => setReg .BLK_START data
  | .CMD => do
    let cmd ← Prog.gets fun t : Disk => t.dev.regs .CMD
    -- "Command issued, but CMD reg .. -- ignoring write."
    if cmd ≠ cmdIdle then pure ()
    else do
      setReg .CMD data
      let d ← Prog.gets Disk.dev
      if data = cmdRD then
        onHost (d.doRead bus (d.regs .BLK_START) (d.regs .LEN) (d.regs .PA))
      else if data = cmdWR then
        onHost (d.doWrite bus (d.regs .BLK_START) (d.regs .LEN) (d.regs .PA))
      else pure ()
      setReg .CMD cmdIdle
  | .IDR | .BLKS | .INFO => pure ()

end Disk

/-! ## What a command promises -/

/-- The two commands. -/
inductive Command where
  | RD
  | WR
  deriving DecidableEq, Repr

namespace Command

def value : Command → BitVec 32
  | RD => cmdRD
  | WR => cmdWR

/-- The call of the host. -/
def io : Command → HVA → ℕ → ℕ → Prog Abort Host ℕ
  | RD => Host.pread
  | WR => Host.pwrite

/-- What `n` bytes at an offset of the image do to the image and to memory. -/
def effect (c : Command) (ha : HVA) (n off : ℕ) (h h' : Host) : Prop :=
  match c with
  | RD => h'.image = h.image ∧
      h'.sys.mem = ByteMem.writeBytes h.sys.mem ha (ByteFile.pread h.image off n)
  | WR => h'.image = ByteFile.pwrite h.image off (ByteMem.bytes h.sys.mem ha n) ∧
      h'.sys.mem = h.sys.mem

/-- The image and the memory are as they were. -/
def Unchanged (h h' : Host) : Prop := h'.image = h.image ∧ h'.sys.mem = h.sys.mem

/-- The blocks have been transferred, between the image and RAM. -/
def Transferred (c : Command) (B : PagedBus) (s n pa : BitVec 32) (h h' : Host) : Prop :=
  ∃ ha k, B.ramFrom pa = some (ha, k) ∧ 512 * n.toNat ≤ k ∧
    c.effect ha (512 * n.toNat) (512 * s.toNat) h h'

/-- The command is done and idle again: the blocks are transferred if there
are any and the image has them, and nothing is changed if not. -/
def Meets (c : Command) (B : PagedBus) (s n pa : BitVec 32) (t : Disk)
    (o : Out Abort Disk Unit) : Prop :=
  ∃ u, o = .ok () u ∧ u.dev.regs .CMD = cmdIdle ∧
    if 0 < n.toNat ∧ s.toNat + n.toNat ≤ t.dev.nrBlocks.toNat then
      c.Transferred B s n pa t.host u.host
    else Unchanged t.host u.host

end Command

/-- An image of `size` bytes is open, the registers are written, and no
command is at work. -/
structure DevSBD.Ready (d : DevSBD) (size : ℕ) (s n pa : BitVec 32) : Prop where
  fd : d.fd = true
  blocks : d.nrBlocks.toNat = size / 512
  idle : d.regs .CMD = cmdIdle
  start : d.regs .BLK_START = s
  len : d.regs .LEN = n
  addr : d.regs .PA = pa

/-- The requests that are served as they should: of no blocks; or at an
address of RAM, and then from a block past the image's end, or of too many
blocks as long as the sum or the length does not wrap to something else, or
inside the image, at an offset of 32 bits and no longer than RAM is. -/
def Served (B : PagedBus) (blocks : ℕ) (s n pa : BitVec 32) : Prop :=
  n = 0 ∨ ∃ ha k, B.ramFrom pa = some (ha, k) ∧
    (blocks ≤ s.toNat ∨
      (blocks < s.toNat + n.toNat ∧ (s.toNat + n.toNat < 2 ^ 32 ∨ 2 ^ 23 ∣ n.toNat)) ∨
      (s.toNat + n.toNat ≤ blocks ∧ s.toNat < 2 ^ 23 ∧ 512 * n.toNat ≤ k))

/-! ## Commands -/

variable {B : PagedBus} {c : Command} {d : DevSBD} {h : Host} {s n pa : BitVec 32} {size : ℕ}
variable {addr : PA}

/-- The host's calls have their effect, and always succeed. -/
theorem Command.io_eq (c : Command) (ha : HVA) (n off : ℕ) (h : Host) :
    ∃ r h', c.io ha n off h = .ok r h' ∧ c.effect ha n off h h' := by
  cases c with
  | RD => exact ⟨_, _, rfl, rfl, rfl⟩
  | WR => exact ⟨_, _, rfl, rfl, rfl⟩

/-- What a command does but for the registers. -/
def Command.run (c : Command) (d : DevSBD) (bus : Bus) (s n pa : BitVec 32) :
    Prog Abort Host Unit :=
  d.doTransfer c.io bus s n pa

/-- The registers after a command. -/
def DevSBD.done (d : DevSBD) (c : Command) : DevSBD := (d.setReg .CMD c.value).setReg .CMD cmdIdle

/-- **A command ends as its transfer does,** and leaves the device idle. -/
theorem write32_command (haddr : SbdReg.ofAddr addr = .CMD) (hd : d.Ready size s n pa) :
    (∀ h', c.run d B.bus s n pa h = .ok () h' →
      Disk.write32 B.bus addr c.value ⟨d, h⟩ = .ok () ⟨d.done c, h'⟩) ∧
    (∀ e h', c.run d B.bus s n pa h = .abort e h' →
      ∃ u, Disk.write32 B.bus addr c.value ⟨d, h⟩ = .abort e u) := by
  have hrun : Disk.write32 B.bus addr c.value ⟨d, h⟩ =
      (Disk.onHost (c.run d B.bus s n pa) >>= fun _ => Disk.setReg .CMD cmdIdle)
        ⟨d.setReg .CMD c.value, h⟩ := by
    have hregs {r : SbdReg} (hr : r ≠ .CMD) : (d.setReg .CMD c.value).regs r = d.regs r :=
      Function.update_of_ne hr ..
    rw [Disk.write32, haddr]
    dsimp only
    rw [Prog.gets_bind_apply, if_neg (not_not.mpr hd.idle)]
    have hset : Disk.setReg .CMD c.value ⟨d, h⟩ = .ok () ⟨d.setReg .CMD c.value, h⟩ := rfl
    rw [Prog.bind_of_ok hset, Prog.gets_bind_apply]
    dsimp only
    rw [hregs (by decide), hregs (by decide), hregs (by decide), hd.start, hd.len, hd.addr]
    cases c <;> rfl
  constructor
  · intro h' hok
    have hhost : Disk.onHost (c.run d B.bus s n pa) ⟨d.setReg .CMD c.value, h⟩ =
        .ok () ⟨d.setReg .CMD c.value, h'⟩ := by
      rw [Disk.onHost, Prog.zoom, hok]
    rw [hrun, Prog.bind_of_ok hhost]
    rfl
  · intro e h' habort
    have hhost : Disk.onHost (c.run d B.bus s n pa) ⟨d.setReg .CMD c.value, h⟩ =
        .abort e ⟨d.setReg .CMD c.value, h'⟩ := by
      rw [Disk.onHost, Prog.zoom, habort]
    exact ⟨_, by rw [hrun, Prog.bind_of_abort hhost]⟩

/-- The transfer of a command with an image open. -/
theorem run_eq (hd : d.Ready size s n pa) (hn : n ≠ 0) :
    (B.ramFrom pa = none ∧ ∃ e t, c.run d B.bus s n pa h = .abort e t) ∨
      ∃ ha k i, B.ramFrom pa = some (ha, k) ∧
        ((size / 512 ≤ s.toNat ∨ size / 512 < (s + n).toNat) ∧
            c.run d B.bus s n pa h = .ok () (h.found i) ∨
          ¬ (size / 512 ≤ s.toNat ∨ size / 512 < (s + n).toNat) ∧
            ∃ h', c.run d B.bus s n pa h = .ok () h' ∧
              c.effect ha (n * blkSize).toNat (s * blkSize).toNat h h') := by
  have hrun : c.run d B.bus s n pa = Host.getAddrDMA B.bus pa >>= fun ha =>
      if s ≥ d.nrBlocks ∨ s + n > d.nrBlocks then pure ()
      else discard <| c.io ha (n * blkSize).toNat (s * blkSize).toNat := by
    rw [Command.run, DevSBD.doTransfer, if_neg hn, if_pos hd.fd]
  have hcheck : (s ≥ d.nrBlocks ∨ s + n > d.nrBlocks) ↔
      (size / 512 ≤ s.toNat ∨ size / 512 < (s + n).toNat) := by
    rw [ge_iff_le, gt_iff_lt, BitVec.le_def, BitVec.lt_def, hd.blocks]
  rw [hrun]
  rcases B.getAddrDMA_eq pa h with ⟨ha, k, i, hram, hget⟩ | ⟨hram, e, t, hget⟩
  · refine .inr ⟨ha, k, i, hram, ?_⟩
    rw [Prog.bind_of_ok hget]
    by_cases hc : size / 512 ≤ s.toNat ∨ size / 512 < (s + n).toNat
    · exact .inl ⟨hc, by rw [if_pos (hcheck.mpr hc)]; rfl⟩
    · rw [if_neg (mt hcheck.mp hc)]
      obtain ⟨r, h', hio, heffect⟩ := c.io_eq ha (n * blkSize).toNat (s * blkSize).toNat (h.found i)
      refine .inr ⟨hc, h', ?_, ?_⟩
      · exact Prog.bind_of_ok hio
      · cases c <;> exact heffect
  · exact .inl ⟨hram, e, t, Prog.bind_of_abort hget⟩

/-! ## What contents tell apart -/

/-- A machine with an image and a memory. -/
def hostOf (image : ByteFile.Bytes) (mem : HostMem) : Host := ⟨image, ⟨mem, [], 0⟩⟩

/-- The first byte that a write to memory changes. -/
theorem writeBytes_first (mem : HostMem) (ha : HVA) {bs : List (BitVec 8)} {b : BitVec 8}
    (h : bs[0]? = some b) : ByteMem.writeBytes mem ha bs ha = b := by
  have := ByteMem.writeBytes_add (m := mem) (a := ha) (j := 0) (by decide) h
  rwa [BitVec.add_zero] at this

/-- What leaves every image and memory as they are transfers nothing. -/
theorem Command.length_eq_zero (ha : HVA) (len off : ℕ) (hoff : off < size)
    (hall : ∀ h : Host, h.image.length = size → ∃ h', c.effect ha len off h h' ∧ Unchanged h h') :
    len = 0 := by
  by_contra hlen
  have hpos : 0 < len := Nat.pos_of_ne_zero hlen
  cases c with
  | RD =>
    obtain ⟨h', ⟨-, hwrite⟩, -, hmem⟩ := hall (hostOf (List.replicate size 1) fun _ => 0)
      (List.length_replicate ..)
    rw [hwrite] at hmem
    have hfirst : (ByteFile.pread (List.replicate size (1 : BitVec 8)) off len)[0]? = some 1 := by
      rw [ByteFile.getElem?_pread hpos, List.getElem?_replicate, if_pos (by omega)]
    have hbyte := writeBytes_first (fun _ => 0) ha hfirst
    have hne : (1 : BitVec 8) ≠ 0 := by decide
    exact hne (hbyte.symm.trans (congrFun hmem ha))
  | WR =>
    obtain ⟨h', ⟨hwrite, -⟩, himage, -⟩ := hall (hostOf (List.replicate size 0) fun _ => 1)
      (List.length_replicate ..)
    rw [hwrite] at himage
    have hbyte : (ByteFile.pwrite (List.replicate size 0) off
        (ByteMem.bytes (fun _ => 1) ha len))[off + 0]? = some (1 : BitVec 8) := by
      rw [ByteFile.getElem?_pwrite_of_mem (by rwa [ByteMem.length_bytes]),
        ByteMem.getElem?_bytes _ _ hpos]
    have hbyte' : (List.replicate size (0 : BitVec 8))[off + 0]? = some 0 := by
      rw [List.getElem?_replicate, if_pos (by omega)]
    exact absurd (hbyte.symm.trans ((congrArg (·[off + 0]?) himage).trans hbyte')) (by decide)

/-- Transfers of as much at two places are told apart where one ends before
the other begins. -/
theorem Command.not_before {ha : HVA} {len off off' : ℕ} (hpos : 0 < len) (hend : off + len ≤ off')
    (hoff : off' < size)
    (hall : ∀ h : Host, h.image.length = size →
      ∃ h', c.effect ha len off h h' ∧ c.effect ha len off' h h') : False := by
  have hlength : (List.replicate off' (0 : BitVec 8) ++ List.replicate (size - off') 1).length =
      size := by
    rw [List.length_append, List.length_replicate, List.length_replicate]
    omega
  cases c with
  | RD =>
    obtain ⟨h', ⟨-, hwrite⟩, -, hmem⟩ := hall
      (hostOf (List.replicate off' 0 ++ List.replicate (size - off') 1) fun _ => 0) hlength
    rw [hwrite] at hmem
    have hfirst : (ByteFile.pread (List.replicate off' 0 ++ List.replicate (size - off') 1) off
        len)[0]? = some (0 : BitVec 8) := by
      rw [ByteFile.getElem?_pread hpos,
        List.getElem?_append_left (by rw [List.length_replicate]; omega), List.getElem?_replicate,
        if_pos (by omega)]
    have hfirst' : (ByteFile.pread (List.replicate off' 0 ++ List.replicate (size - off') 1) off'
        len)[0]? = some (1 : BitVec 8) := by
      rw [ByteFile.getElem?_pread hpos,
        List.getElem?_append_right (by rw [List.length_replicate]; omega), List.getElem?_replicate,
        List.length_replicate, if_pos (by omega)]
    have hbyte := writeBytes_first (fun _ => 0) ha hfirst
    have hbyte' := writeBytes_first (fun _ => 0) ha hfirst'
    exact absurd (hbyte.symm.trans ((congrFun hmem ha).trans hbyte')) (by decide)
  | WR =>
    obtain ⟨h', ⟨hwrite, -⟩, himage, -⟩ := hall (hostOf (List.replicate size 0) fun _ => 1)
      (List.length_replicate ..)
    rw [hwrite] at himage
    have hbyte : (ByteFile.pwrite (List.replicate size 0) off'
        (ByteMem.bytes (fun _ => 1) ha len))[off' + 0]? = some (1 : BitVec 8) := by
      rw [ByteFile.getElem?_pwrite_of_mem (by rwa [ByteMem.length_bytes]),
        ByteMem.getElem?_bytes _ _ hpos]
    have hbyte' : (ByteFile.pwrite (List.replicate size 0) off
        (ByteMem.bytes (fun _ => 1) ha len))[off' + 0]? = some (0 : BitVec 8) := by
      rw [ByteFile.getElem?_pwrite_of_not_mem (.inr (by rw [ByteMem.length_bytes]; omega))
        (by rw [List.length_replicate]; omega), List.getElem?_replicate, if_pos (by omega)]
    exact absurd (hbyte'.symm.trans ((congrArg (·[off' + 0]?) himage).trans hbyte)) (by decide)

/-! ## The condition -/

theorem toNat_mul_blkSize (v : BitVec 32) : (v * blkSize).toNat = 512 * v.toNat % 2 ^ 32 := by
  rw [BitVec.toNat_mul, Nat.mul_comm]
  rfl

/-- No RAM is as large as all addresses. -/
theorem ramFrom_lt {ha : HVA} {k : ℕ} (h : B.ramFrom pa = some (ha, k)) : k < 2 ^ 32 := by
  unfold PagedBus.ramFrom at h
  split at h
  · rename_i a size r hd
    have hwrap := B.noWrap _ (PagedBus.mem_of_deviceAt hd)
    cases h
    dsimp only at hwrap
    omega
  · cases h
  · cases h

/-- A command that meets what it promises, by its run. -/
theorem Command.meets_iff (haddr : SbdReg.ofAddr addr = .CMD) (hd : d.Ready size s n pa) {h' : Host}
    (hrun : c.run d B.bus s n pa h = .ok () h') :
    c.Meets B s n pa ⟨d, h⟩ (Disk.write32 B.bus addr c.value ⟨d, h⟩) ↔
      if 0 < n.toNat ∧ s.toNat + n.toNat ≤ size / 512 then c.Transferred B s n pa h h'
      else Unchanged h h' := by
  rw [(write32_command haddr hd).1 h' hrun, Command.Meets, hd.blocks]
  constructor
  · rintro ⟨u, hu, -, hmeets⟩
    cases hu
    exact hmeets
  · intro hmeets
    refine ⟨_, rfl, ?_, hmeets⟩
    simp [DevSBD.done, DevSBD.setReg]

theorem Command.not_meets_of_abort (haddr : SbdReg.ofAddr addr = .CMD) (hd : d.Ready size s n pa)
    {e : Abort} {h' : Host} (hrun : c.run d B.bus s n pa h = .abort e h') :
    ¬ c.Meets B s n pa ⟨d, h⟩ (Disk.write32 B.bus addr c.value ⟨d, h⟩) := by
  obtain ⟨u, hu⟩ := (write32_command haddr hd).2 e h' hrun
  rw [hu]
  rintro ⟨v, hv, -⟩
  cases hv

/-- A request that is served as it should be meets what it promises. -/
theorem meets_of_served (haddr : SbdReg.ofAddr addr = .CMD) (hd : d.Ready size s n pa)
    (hs : Served B (size / 512) s n pa) :
    c.Meets B s n pa ⟨d, h⟩ (Disk.write32 B.bus addr c.value ⟨d, h⟩) := by
  by_cases hn : n = 0
  · have hrun : c.run d B.bus s n pa h = .ok () h := by
      rw [Command.run, DevSBD.doTransfer, if_pos hn]
      rfl
    have hzero : ¬ (0 < n.toNat ∧ s.toNat + n.toNat ≤ size / 512) := by
      rw [hn]
      simp
    rw [Command.meets_iff haddr hd hrun, if_neg hzero]
    exact ⟨rfl, rfl⟩
  · obtain ⟨ha, k, hram, hcond⟩ := hs.resolve_left hn
    have hpos : 0 < n.toNat := Nat.pos_of_ne_zero fun h0 => hn (BitVec.eq_of_toNat_eq h0)
    have hsum := BitVec.toNat_add s n
    have hs32 := s.isLt
    have hn32 := n.isLt
    rcases run_eq (c := c) (h := h) hd hn with ⟨hnone, -⟩ | ⟨ha', k', i, hram', hcases⟩
    · rw [hram] at hnone
      cases hnone
    rw [hram] at hram'
    cases hram'
    rcases hcases with ⟨hrefused, hrun⟩ | ⟨hlet, h', hrun, heffect⟩
    · rw [Command.meets_iff haddr hd hrun]
      have hmany : ¬ (0 < n.toNat ∧ s.toNat + n.toNat ≤ size / 512) := by omega
      rw [if_neg hmany]
      exact ⟨rfl, rfl⟩
    · rw [Command.meets_iff haddr hd hrun]
      rw [toNat_mul_blkSize, toNat_mul_blkSize] at heffect
      rcases hcond with hcond | ⟨hmany, hwrap⟩ | ⟨hfits, hlow, hlen⟩
      · omega
      · -- The sum wraps past the test, and the length to nothing.
        have hdvd : 2 ^ 23 ∣ n.toNat := by
          rcases hwrap with hwrap | hwrap
          · omega
          · exact hwrap
        have hzero : 512 * n.toNat % 2 ^ 32 = 0 := by omega
        rw [hzero] at heffect
        rw [if_neg (by omega)]
        cases c with
        | RD => exact ⟨heffect.1, by rw [heffect.2, ByteFile.pread, List.take_zero]; rfl⟩
        | WR => exact ⟨by rw [heffect.1]; rfl, heffect.2⟩
      · have hk := ramFrom_lt hram
        rw [Nat.mod_eq_of_lt (by omega), Nat.mod_eq_of_lt (by omega)] at heffect
        rw [if_pos ⟨hpos, hfits⟩]
        exact ⟨ha, k, hram, hlen, heffect⟩

/-- The device with an image of so many bytes, and its registers written. -/
def programmed (size : ℕ) (s n pa : BitVec 32) : DevSBD :=
  (((DevSBD.init.openImage size).setReg .BLK_START s).setReg .LEN n).setReg .PA pa

theorem ready_programmed (size : ℕ) (hsize : size / 512 < 2 ^ 32) (s n pa : BitVec 32) :
    (programmed size s n pa).Ready size s n pa := by
  have hopen : DevSBD.init.openImage size =
      { DevSBD.init.setReg .BLKS (BitVec.ofNat 32 (size / 512)) with
        fd := true, nrBlocks := BitVec.ofNat 32 (size / 512) } := if_neg (by omega)
  rw [programmed, hopen]
  refine ⟨rfl, ?_, rfl, rfl, rfl, rfl⟩
  show (BitVec.ofNat 32 (size / 512)).toNat = size / 512
  rw [BitVec.toNat_ofNat, Nat.mod_eq_of_lt hsize]

/-- **Exactly those requests are served** as they should be, whatever the
image and the memory have. -/
theorem served_iff (B : PagedBus) (c : Command) (size : ℕ) (hsize : size / 512 < 2 ^ 32)
    (s n pa addr : BitVec 32) (haddr : SbdReg.ofAddr addr = .CMD) :
    (∀ (d : DevSBD) (h : Host), d.Ready size s n pa → h.image.length = size →
      c.Meets B s n pa ⟨d, h⟩ (Disk.write32 B.bus addr c.value ⟨d, h⟩)) ↔
        Served B (size / 512) s n pa := by
  refine ⟨fun hall => ?_, fun hs d h hd _ => meets_of_served haddr hd hs⟩
  by_cases hn : n = 0
  · exact .inl hn
  have hpos : 0 < n.toNat := Nat.pos_of_ne_zero fun h0 => hn (BitVec.eq_of_toNat_eq h0)
  have hd := ready_programmed size hsize s n pa
  have hsum := BitVec.toNat_add s n
  have hs32 := s.isLt
  have hn32 := n.isLt
  -- A transfer that the test lets through is the one that is promised.
  have hmeets : ∀ h : Host, h.image.length = size → ∀ h',
      c.run (programmed size s n pa) B.bus s n pa h = .ok () h' →
        if 0 < n.toNat ∧ s.toNat + n.toNat ≤ size / 512 then c.Transferred B s n pa h h'
        else Command.Unchanged h h' :=
    fun h hlen h' hrun => (Command.meets_iff haddr hd hrun).mp (hall _ h hd hlen)
  cases hram : B.ramFrom pa with
  | none =>
    have hlen : (hostOf (List.replicate size 0) fun _ => 0).image.length = size :=
      List.length_replicate ..
    rcases run_eq (c := c) (h := hostOf (List.replicate size 0) fun _ => 0) hd hn with
      ⟨-, e, t, hrun⟩ | ⟨ha, k, i, hram', -⟩
    · exact absurd (hall _ _ hd hlen) (Command.not_meets_of_abort haddr hd hrun)
    · rw [hram] at hram'
      cases hram'
  | some p =>
    obtain ⟨ha, k⟩ := p
    refine .inr ⟨ha, k, hram, ?_⟩
    by_cases hpast : size / 512 ≤ s.toNat
    · exact .inl hpast
    refine .inr ?_
    have hdone (hlet : ¬ size / 512 < (s + n).toNat) (h : Host) (hlen : h.image.length = size) :
        ∃ h', c.effect ha (n * blkSize).toNat (s * blkSize).toNat h h' ∧
          if 0 < n.toNat ∧ s.toNat + n.toNat ≤ size / 512 then c.Transferred B s n pa h h'
          else Command.Unchanged h h' := by
      rcases run_eq (c := c) (h := h) hd hn with ⟨hnone, -⟩ | ⟨ha', k', i, hram', hcases⟩
      · rw [hram] at hnone
        cases hnone
      rw [hram] at hram'
      cases hram'
      rcases hcases with ⟨hrefused, -⟩ | ⟨-, h', hrun, heffect⟩
      · omega
      · exact ⟨h', heffect, hmeets h hlen h' hrun⟩
    rw [toNat_mul_blkSize, toNat_mul_blkSize] at hdone
    rcases Nat.lt_or_ge (size / 512) (s.toNat + n.toNat) with hmany | hfits
    · refine .inl ⟨hmany, ?_⟩
      by_contra hwrap
      have hlen := Command.length_eq_zero (c := c) ha (512 * n.toNat % 2 ^ 32)
        (512 * s.toNat % 2 ^ 32) (show _ < size by omega) fun h hlen => by
          obtain ⟨h', heffect, hunchanged⟩ := hdone (by omega) h hlen
          rw [if_neg (by omega)] at hunchanged
          exact ⟨h', heffect, hunchanged⟩
      omega
    · refine .inr ⟨hfits, ?_⟩
      have hlet : ¬ size / 512 < (s + n).toNat := by omega
      have htransferred (h : Host) (hlen : h.image.length = size) :
          ∃ h', c.effect ha (512 * n.toNat % 2 ^ 32) (512 * s.toNat % 2 ^ 32) h h' ∧
            512 * n.toNat ≤ k ∧ c.effect ha (512 * n.toNat) (512 * s.toNat) h h' := by
        obtain ⟨h', heffect, hdone⟩ := hdone hlet h hlen
        rw [if_pos ⟨hpos, hfits⟩] at hdone
        obtain ⟨ha', k', hram', hle, heffect'⟩ := hdone
        rw [hram] at hram'
        cases hram'
        exact ⟨h', heffect, hle, heffect'⟩
      obtain ⟨-, -, hle, -⟩ := htransferred (hostOf (List.replicate size 0) fun _ => 0)
        (List.length_replicate ..)
      refine ⟨?_, hle⟩
      by_contra hhigh
      have hk := ramFrom_lt hram
      have hmod : 512 * n.toNat % 2 ^ 32 = 512 * n.toNat := Nat.mod_eq_of_lt (by omega)
      rw [hmod] at htransferred
      exact Command.not_before (by omega) (by omega) (by omega) fun h hlen =>
        have ⟨h', heffect, _, heffect'⟩ := htransferred h hlen
        ⟨h', heffect, heffect'⟩

/-- The third platform's memory map. -/
def mr3 : PagedBus := Platform.mr3.map Platform.sampleMmap (Platform.sampleMmap_mapped _)

/-- The first block of an image of eight. -/
theorem served_first :
    let t : Disk := ⟨programmed 4096 0 1 0x1000, hostOf (List.replicate 4096 1) fun _ => 0⟩
    Command.RD.Meets mr3 0 1 0x1000 t (Disk.write32 mr3.bus 0xc cmdRD t) :=
  (served_iff mr3 .RD 4096 (by decide) 0 1 0x1000 0xc rfl).mpr
    (.inr ⟨_, _, rfl, .inr (.inr (by decide +kernel))⟩) _ _
    (ready_programmed 4096 (by decide) 0 1 0x1000) (List.length_replicate ..)

/-- **A request that wraps.** Of an image of eight blocks, 2^32 - 1 blocks
from the second on pass the test, and the rest of the image is read. -/
theorem wrapped :
    let t : Disk := ⟨programmed 4096 1 0xffffffff 0x1000, hostOf (List.replicate 4096 1) fun _ => 0⟩
    ¬ Command.RD.Meets mr3 1 0xffffffff 0x1000 t (Disk.write32 mr3.bus 0xc cmdRD t) := by
  intro t
  rintro ⟨u, hu, -, hmeets⟩
  have hread : (Disk.write32 mr3.bus 0xc cmdRD t).test fun _ u =>
      u.host.sys.mem 0x10001000 == 1 := by decide +kernel
  rw [hu] at hread
  have hbyte : u.host.sys.mem 0x10001000 = 1 := beq_iff_eq.mp hread
  rw [if_neg (by decide +kernel)] at hmeets
  rw [hmeets.2] at hbyte
  exact absurd hbyte (by decide)

end Sbd

end MrIss
