import MrIss.Bus
/-!
# The SPI host

`DevSPI` shifts the bytes of its transmit registers out to a device and the
device's bytes in. `SPIDevGPIO` is a device behind four pins, whose clock it
moves by hand. In each of the four modes, a device that samples and shifts at
the edges of that mode gets the bytes bit by bit, the highest first, and what
it answers is read: the host cannot tell the pins from a device that takes
whole bytes.
-/

namespace MrIss

namespace Spi

/-- `AbstractSPIDev`, by what its calls do to the states of a device. -/
structure AbstractSPIDev (σ : Type) where
  setConfig (cpol cpha : Bool) (clkdiv : BitVec 8) : σ → σ
  getPutByte (b : BitVec 8) : σ → BitVec 8 × σ
  setCS (v : Bool) : σ → σ

/-! ## The host -/

/-- The registers, `DEVSPI_REG_*`. -/
inductive SpiReg where
  | CTRL
  | TXD_A
  | RXD_A
  | CS
  | CLKDIV
  | TXD_B
  | RXD_B
  deriving DecidableEq, Repr

/-- The register that an access is to. -/
def SpiReg.ofAddr (addr : PA) : Option SpiReg :=
  match (addr &&& 0xfc#32).toNat with
  | 0x00 => some .CTRL
  | 0x04 => some .TXD_A
  | 0x08 => some .RXD_A
  | 0x0c => some .CS
  | 0x10 => some .CLKDIV
  | 0x14 => some .TXD_B
  | 0x18 => some .RXD_B
  | _ => none

/-- `DevSPI`. -/
structure DevSPI where
  config : BitVec 32
  lenA : BitVec 32
  lenB : BitVec 32
  cs : BitVec 32
  txdA : BitVec 32
  rxdA : BitVec 32
  txdB : BitVec 32
  rxdB : BitVec 32
  clkdiv : BitVec 8
  deriving DecidableEq, Repr

/-- `DevSPI::DevSPI`. -/
def DevSPI.construct : DevSPI := ⟨0, 0, 0, 0, 0, 0, 0, 0, 0⟩

def DevSPI.setRxdA (h : DevSPI) (r : BitVec 32) : DevSPI := { h with rxdA := r }

def DevSPI.setRxdB (h : DevSPI) (r : BitVec 32) : DevSPI := { h with rxdB := r }

/-- `DEVSPI_REG_CTRL_CPOL`. -/
def ctrlCpol (data : BitVec 32) : Bool := data.getLsbD 0

/-- `DEVSPI_REG_CTRL_CPHA`. -/
def ctrlCpha (data : BitVec 32) : Bool := data.getLsbD 1

/-- `DEVSPI_REG_CTRL_RUN_A`. -/
def ctrlRunA (data : BitVec 32) : Bool := data.getLsbD 7

/-- `DEVSPI_REG_CTRL_RUN_B`. -/
def ctrlRunB (data : BitVec 32) : Bool := data.getLsbD 10

section

variable {σ : Type}

/-- The loop of `doTransfer`, for `n` bytes from byte `i` on. -/
def transferBytes (d : AbstractSPIDev σ) (txd : BitVec 32) :
    ℕ → ℕ → BitVec 32 → σ → BitVec 32 × σ
  | 0, _, r, s => (r, s)
  | n + 1, i, r, s =>
    let p := d.getPutByte ((txd >>> (i * 8)).setWidth 8) s
    transferBytes d txd n (i + 1) (r ||| (p.1.setWidth 32 <<< (i * 8))) p.2

/-- `doTransfer`. -/
def doTransfer (spidev : Option (AbstractSPIDev σ)) (txd len : BitVec 32) (s : σ) :
    BitVec 32 × σ :=
  match spidev with
  | none => (0, s)
  | some d => transferBytes d txd (len + 1).toNat 0 0 s

/-- A call of `setConfig`, where there is a device. -/
def configure (spidev : Option (AbstractSPIDev σ)) (h : DevSPI) (s : σ) : σ :=
  match spidev with
  | none => s
  | some d => d.setConfig (ctrlCpol h.config) (ctrlCpha h.config) h.clkdiv s

/-- A transfer of `write32`, where its `RUN` bit is written. -/
def runTransfer (spidev : Option (AbstractSPIDev σ)) (run : Bool) (txd len : DevSPI → BitVec 32)
    (setRxd : DevSPI → BitVec 32 → DevSPI) (x : DevSPI × σ) : DevSPI × σ :=
  if run then
    let p := doTransfer spidev (txd x.1) (len x.1) x.2
    (setRxd x.1 p.1, p.2)
  else x

/-- The switch of `write32`. -/
def writeReg (spidev : Option (AbstractSPIDev σ)) (data : BitVec 32) (h : DevSPI) (s : σ) :
    SpiReg → DevSPI × σ
  | .CTRL =>
    let h := { h with
      config := data &&& 3
      lenA := (data >>> 8) &&& 3
      lenB := (data >>> 11) &&& 3 }
    let x := runTransfer spidev (ctrlRunA data) (·.txdA) (·.lenA) DevSPI.setRxdA
      (h, configure spidev h s)
    runTransfer spidev (ctrlRunB data) (·.txdB) (·.lenB) DevSPI.setRxdB x
  | .TXD_A => ({ h with txdA := data }, s)
  | .TXD_B => ({ h with txdB := data }, s)
  -- Read-only.
  | .RXD_A | .RXD_B => (h, s)
  | .CS =>
    ({ h with cs := data }, match spidev with
      | none => s
      | some d => d.setCS (data.getLsbD 0) s)
  | .CLKDIV =>
    let h := { h with clkdiv := data.setWidth 8 }
    (h, configure spidev h s)

/-- The switch of `read32`. -/
def readReg (h : DevSPI) : SpiReg → BitVec 32
  -- `RUN` reads as zero: a transfer takes no time.
  | .CTRL => h.config ||| (h.lenA <<< 8) ||| (h.lenB <<< 11)
  | .TXD_A => h.txdA
  | .RXD_A => h.rxdA
  | .TXD_B => h.txdB
  | .RXD_B => h.rxdB
  | .CS => h.cs
  | .CLKDIV => h.clkdiv.setWidth 32

/-- A call of the host by the bus. -/
inductive Access where
  | read32 (addr : PA)
  | write32 (addr : PA) (data : BitVec 32)
  deriving DecidableEq, Repr

/-- `read32` and `write32`, with what is read; `none` where the simulator is
ended, at a register that there is not. -/
def access (spidev : Option (AbstractSPIDev σ)) (h : DevSPI) (s : σ) :
    Access → Option (Option (BitVec 32) × DevSPI × σ)
  | .read32 addr => (SpiReg.ofAddr addr).map fun r => (some (readReg h r), h, s)
  | .write32 addr data => (SpiReg.ofAddr addr).map fun r => (none, writeReg spidev data h s r)

/-- A run of accesses, with what is read. -/
def runAccesses (spidev : Option (AbstractSPIDev σ)) :
    List Access → DevSPI → σ → Option (List (Option (BitVec 32)) × DevSPI × σ)
  | [], h, s => some ([], h, s)
  | a :: as, h, s => do
    let (v, h, s) ← access spidev h s a
    let (vs, h, s) ← runAccesses spidev as h s
    pure (v :: vs, h, s)

end

/-! ## A device behind pins -/

/-- `GPIO_*`. -/
inductive Pin where
  | DOUT
  | DIN
  | CLK
  | CS
  deriving DecidableEq, Repr

/-- `gpioWrite` and `gpioRead`, by what they do to the states of the pins and
of what is behind them. -/
structure Gpio (γ : Type) where
  write : Pin → Bool → γ → γ
  read : Pin → γ → Bool

/-- `SPIDevGPIO`, and the pins. -/
structure SPIDevGpio (γ : Type) where
  cpol : Bool
  cpha : Bool
  clkdiv : BitVec 8
  pins : γ

section

variable {γ : Type} (g : Gpio γ)

/-- `setClk`. -/
def setClk (on cpol : Bool) (s : γ) : γ := g.write .CLK (on ^^ cpol) s

/-- A bit shifted in. -/
def shiftIn (r : BitVec 8) (v : Bool) : BitVec 8 := (r <<< 1) ||| (BitVec.ofBool v).setWidth 8

/-- The loop of `getPutByte`, for the lowest bits of a byte. -/
def getPutBits (cpol cpha : Bool) (b : BitVec 8) : ℕ → Bool → BitVec 8 → γ → BitVec 8 × γ
  | 0, _, r, s => (r, s)
  | bit + 1, clk, r, s =>
    let s := g.write .DOUT (b.getLsbD bit) s
    let r := shiftIn r (g.read .DIN s)
    let s := setClk g (!clk) cpol s
    -- no new clock after the last bit, where the phase is one
    if cpha && bit == 0 then getPutBits cpol cpha b bit (!clk) r s
    else getPutBits cpol cpha b bit clk r (setClk g clk cpol s)

/-- `SPIDevGPIO::getPutByte`. -/
def SPIDevGpio.getPutByte (b : BitVec 8) (d : SPIDevGpio γ) : BitVec 8 × SPIDevGpio γ :=
  let s := setClk g d.cpha d.cpol d.pins
  let (r, s) := getPutBits g d.cpol d.cpha b 8 d.cpha 0 s
  (r, { d with pins := setClk g false d.cpol s })

/-- `SPIDevGPIO::setConfig`. -/
def SPIDevGpio.setConfig (cpol cpha : Bool) (clkdiv : BitVec 8) (d : SPIDevGpio γ) :
    SPIDevGpio γ := ⟨cpol, cpha, clkdiv, setClk g false cpol d.pins⟩

/-- `SPIDevGPIO::setCS`. -/
def SPIDevGpio.setCS (v : Bool) (d : SPIDevGpio γ) : SPIDevGpio γ :=
  { d with pins := g.write .CS v d.pins }

/-- `SPIDevGPIO`, as a device of the host. -/
def SPIDevGpio.device : AbstractSPIDev (SPIDevGpio γ) where
  setConfig := SPIDevGpio.setConfig g
  getPutByte := SPIDevGpio.getPutByte g
  setCS := SPIDevGpio.setCS g

end

/-! ## What is behind the pins -/

/-- The polarity and the phase of the clock. -/
structure Mode where
  cpol : Bool
  cpha : Bool
  deriving DecidableEq, Repr

/-- The wires of a device that shifts bits, and the bits it has got. -/
structure Wires where
  clk : Bool
  dout : Bool
  din : Bool
  received : List Bool
  deriving DecidableEq, Repr

section

variable (m : Mode) (reply : List Bool → Bool)

/-- An edge of the clock. In phase zero the device samples at the leading
edge and shifts at the trailing one, in phase one the other way round; the
bit that it shifts out depends on those it has got. -/
def Wires.edge (v : Bool) (w : Wires) : Wires :=
  if v = w.clk then w
  else if (v != m.cpol) = m.cpha then { w with clk := v, din := reply w.received }
  else { w with clk := v, received := w.received ++ [w.dout] }

/-- A device of a mode that is selected all the time. -/
def wired : Gpio Wires where
  write
    | .CLK, v, w => w.edge m reply v
    | .DOUT, v, w => { w with dout := v }
    | _, _, w => w
  read
    | .DIN, w => w.din
    | _, _ => false

/-- The bits that are answered to bits. -/
def replies : List Bool → List Bool → List Bool
  | _, [] => []
  | rs, v :: vs => reply rs :: replies (rs ++ [v]) vs

/-- The lowest `n` bits of a byte, the highest first. -/
def bitsOf (b : BitVec 8) : ℕ → List Bool
  | 0 => []
  | n + 1 => b.getLsbD n :: bitsOf b n

/-- A device that takes whole bytes; its state is the bits that it has got. -/
def bytewise : AbstractSPIDev (List Bool) where
  setConfig _ _ _ rs := rs
  getPutByte b rs := ((replies reply rs (bitsOf b 8)).foldl shiftIn 0, rs ++ bitsOf b 8)
  setCS _ rs := rs

/-- The clock rests, and in phase zero the next bit is out. -/
structure Rests (rs : List Bool) (w : Wires) : Prop where
  clk : w.clk = m.cpol
  received : w.received = rs
  out : m.cpha = false → w.din = reply rs

/-- Between two bits of a byte the next bit is out. -/
structure Shows (rs : List Bool) (w : Wires) : Prop where
  clk : w.clk = (m.cpha ^^ m.cpol)
  received : w.received = rs
  out : w.din = reply rs

variable {m reply} {rs : List Bool} {w : Wires}

/-- The clock stays. -/
theorem Wires.edge_of_eq {v : Bool} (h : w.clk = v) : w.edge m reply v = w := if_pos h.symm

/-- The edge that the device shifts at. -/
theorem Wires.edge_shift (h : w.clk = (!m.cpha ^^ m.cpol)) :
    w.edge m reply (m.cpha ^^ m.cpol) =
      { w with clk := m.cpha ^^ m.cpol, din := reply w.received } := by
  have hne : (m.cpha ^^ m.cpol) ≠ w.clk := by
    rw [h]
    simp
  have hshift : ((m.cpha ^^ m.cpol) != m.cpol) = m.cpha := by simp
  rw [Wires.edge, if_neg hne, if_pos hshift]

/-- The edge that it samples at. -/
theorem Wires.edge_sample (h : w.clk = (m.cpha ^^ m.cpol)) :
    w.edge m reply (!m.cpha ^^ m.cpol) =
      { w with clk := !m.cpha ^^ m.cpol, received := w.received ++ [w.dout] } := by
  have hne : (!m.cpha ^^ m.cpol) ≠ w.clk := by
    rw [h]
    simp
  have hsample : ¬ ((!m.cpha ^^ m.cpol) != m.cpol) = m.cpha := by simp
  rw [Wires.edge, if_neg hne, if_neg hsample]

/-- The first clock of a byte. -/
theorem Rests.shows (h : Rests m reply rs w) :
    Shows m reply rs (setClk (wired m reply) m.cpha m.cpol w) := by
  obtain ⟨hclk, hrs, hout⟩ := h
  change Shows m reply rs (w.edge m reply (m.cpha ^^ m.cpol))
  cases hcpha : m.cpha with
  | false =>
    -- in phase zero the bit is out, and the clock stays
    have hlow : w.clk = (false ^^ m.cpol) := by rw [hclk, Bool.false_xor]
    rw [Wires.edge_of_eq hlow]
    exact ⟨by rw [hcpha, hlow], hrs, hout hcpha⟩
  | true =>
    have hlow : w.clk = (!m.cpha ^^ m.cpol) := by rw [hcpha, Bool.not_true, Bool.false_xor, hclk]
    have hshift : w.edge m reply (m.cpha ^^ m.cpol) = _ := Wires.edge_shift hlow
    rw [hcpha] at hshift
    rw [hshift, hrs]
    exact ⟨by rw [hcpha], rfl, rfl⟩

/-- The device samples the bit that is on the wire. -/
theorem Shows.sampled (h : Shows m reply rs w) (v : Bool) :
    setClk (wired m reply) (!m.cpha) m.cpol ((wired m reply).write .DOUT v w) =
      { w with clk := !m.cpha ^^ m.cpol, dout := v, received := rs ++ [v] } := by
  obtain ⟨hclk, hrs, -⟩ := h
  have hedge : Wires.edge m reply (!m.cpha ^^ m.cpol) { w with dout := v } = _ :=
    Wires.edge_sample hclk
  exact hedge.trans (by rw [hrs])

/-- **A bit, and the next clock.** -/
theorem Shows.next (h : Shows m reply rs w) (v : Bool) :
    Shows m reply (rs ++ [v]) (setClk (wired m reply) m.cpha m.cpol
      (setClk (wired m reply) (!m.cpha) m.cpol ((wired m reply).write .DOUT v w))) := by
  rw [h.sampled v]
  change Shows m reply _ (Wires.edge m reply (m.cpha ^^ m.cpol) _)
  rw [Wires.edge_shift rfl]
  exact ⟨rfl, rfl, rfl⟩

/-- The last bit of a byte. -/
theorem Shows.rests (h : Shows m reply rs w) (v : Bool) (hcpha : m.cpha = true) :
    Rests m reply (rs ++ [v])
      (setClk (wired m reply) (!m.cpha) m.cpol ((wired m reply).write .DOUT v w)) := by
  rw [h.sampled v]
  exact ⟨by simp [hcpha], rfl, fun h0 => by rw [hcpha] at h0; cases h0⟩

/-- **The bits of a byte:** the device gets them, and its answers are shifted
in. -/
theorem getPutBits_wired (b : BitVec 8) (n : ℕ) (r : BitVec 8) (h : Shows m reply rs w) :
    ∃ w', getPutBits (wired m reply) m.cpol m.cpha b (n + 1) m.cpha r w =
        ((replies reply rs (bitsOf b (n + 1))).foldl shiftIn r, w') ∧
      Rests m reply (rs ++ bitsOf b (n + 1)) w' := by
  have hread : (wired m reply).read .DIN ((wired m reply).write .DOUT (b.getLsbD n) w) =
      reply rs := h.out
  induction n generalizing rs w r with
  | zero =>
    -- in phase one the clock is left where the last bit was sampled
    rw [getPutBits, hread]
    cases hcpha : m.cpha with
    | true =>
      refine ⟨_, rfl, ?_⟩
      have hrests := h.rests (b.getLsbD 0) hcpha
      rw [hcpha] at hrests
      exact hrests
    | false =>
      refine ⟨_, rfl, ?_⟩
      have hnext := h.next (b.getLsbD 0)
      rw [hcpha] at hnext
      obtain ⟨hclk, hrs, hout⟩ := hnext
      refine ⟨?_, hrs, fun _ => hout⟩
      rw [hclk, hcpha]
      exact Bool.false_xor _
  | succ n ih =>
    have hlast : (m.cpha && n + 1 == 0) = false := by simp
    obtain ⟨w', hw', hrests⟩ := ih (shiftIn r (reply rs)) (h.next (b.getLsbD (n + 1)))
      (h.next (b.getLsbD (n + 1))).out
    refine ⟨w', ?_, ?_⟩
    · rw [getPutBits, hread, hlast]
      exact hw'
    · rw [List.append_assoc] at hrests
      exact hrests

/-- The pins of a device that rests, in the mode that it has been set to. -/
structure Alike (m : Mode) (reply : List Bool → Bool) (d : SPIDevGpio Wires) (rs : List Bool) :
    Prop where
  cpol : d.cpol = m.cpol
  cpha : d.cpha = m.cpha
  rests : Rests m reply rs d.pins

/-- The clock that rests is set to rest. -/
theorem Rests.setClk_false (h : Rests m reply rs w) :
    setClk (wired m reply) false m.cpol w = w := by
  change w.edge m reply (false ^^ m.cpol) = w
  rw [Bool.false_xor, Wires.edge_of_eq h.clk]

end

/-! ## Whole bytes -/

/-- Two devices that cannot be told apart, in states that are related. -/
structure Simulates {σ τ : Type} (m : Mode) (d : AbstractSPIDev σ) (e : AbstractSPIDev τ)
    (R : σ → τ → Prop) : Prop where
  setConfig : ∀ clkdiv s t, R s t →
    R (d.setConfig m.cpol m.cpha clkdiv s) (e.setConfig m.cpol m.cpha clkdiv t)
  getPutByte : ∀ b s t, R s t → (d.getPutByte b s).1 = (e.getPutByte b t).1 ∧
    R (d.getPutByte b s).2 (e.getPutByte b t).2
  setCS : ∀ v s t, R s t → R (d.setCS v s) (e.setCS v t)

/-- **The pins carry bytes,** in every mode. -/
theorem simulates_wired (m : Mode) (reply : List Bool → Bool) :
    Simulates m (SPIDevGpio.device (wired m reply)) (bytewise reply) (Alike m reply) where
  setConfig clkdiv s rs h :=
    ⟨rfl, rfl, by
      change Rests m reply rs (setClk (wired m reply) false m.cpol s.pins)
      rw [h.rests.setClk_false]
      exact h.rests⟩
  getPutByte b s rs h := by
    obtain ⟨w', hbits, hrests⟩ := getPutBits_wired b 7 0 h.rests.shows
    have hbyte : SPIDevGpio.getPutByte (wired m reply) b s =
        ((replies reply rs (bitsOf b 8)).foldl shiftIn 0, { s with pins := w' }) := by
      rw [SPIDevGpio.getPutByte, h.cpol, h.cpha, hbits]
      dsimp only
      rw [hrests.setClk_false]
    constructor
    · exact congrArg Prod.fst hbyte
    · change Alike m reply (SPIDevGpio.getPutByte (wired m reply) b s).2 (rs ++ bitsOf b 8)
      rw [hbyte]
      exact ⟨h.cpol, h.cpha, hrests⟩
  setCS v s rs h := ⟨h.cpol, h.cpha, h.rests⟩

/-! ## Runs of the host -/

/-- The mode that `config` has. -/
def ctrlMode (config : BitVec 32) : Mode := ⟨ctrlCpol config, ctrlCpha config⟩

/-- An access leaves the mode as it is. -/
def Access.Keeps (m : Mode) : Access → Prop
  | .write32 addr data => SpiReg.ofAddr addr = some .CTRL → ctrlMode data = m
  | .read32 _ => True

section

variable {σ τ : Type} {m : Mode} {d : AbstractSPIDev σ} {e : AbstractSPIDev τ}
  {R : σ → τ → Prop} {s : σ} {t : τ}

/-- What is the same of two hosts. -/
structure SameHost (m : Mode) (R : σ → τ → Prop) (x : DevSPI × σ) (y : DevSPI × τ) : Prop where
  host : x.1 = y.1
  mode : ctrlMode x.1.config = m
  dev : R x.2 y.2

/-- A transfer reads the same. -/
theorem Simulates.transferBytes (h : Simulates m d e R) (txd : BitVec 32) (n i : ℕ)
    (r : BitVec 32) (hR : R s t) :
    (Spi.transferBytes d txd n i r s).1 = (Spi.transferBytes e txd n i r t).1 ∧
      R (Spi.transferBytes d txd n i r s).2 (Spi.transferBytes e txd n i r t).2 := by
  induction n generalizing i r s t with
  | zero => exact ⟨rfl, hR⟩
  | succ n ih =>
    obtain ⟨hbyte, hR'⟩ := h.getPutByte ((txd >>> (i * 8)).setWidth 8) s t hR
    rw [Spi.transferBytes, Spi.transferBytes, hbyte]
    exact ih (i + 1) _ hR'

/-- One of the two transfers. -/
theorem Simulates.runTransfer (h : Simulates m d e R) {x : DevSPI × σ} {y : DevSPI × τ}
    (hxy : SameHost m R x y) (setRxd : DevSPI → BitVec 32 → DevSPI)
    (hset : ∀ g r, (setRxd g r).config = g.config) (run : Bool) (txd len : DevSPI → BitVec 32) :
    SameHost m R (Spi.runTransfer (some d) run txd len setRxd x)
      (Spi.runTransfer (some e) run txd len setRxd y) := by
  cases run with
  | false => exact hxy
  | true =>
    obtain ⟨g, s⟩ := x
    obtain ⟨g', t⟩ := y
    obtain ⟨rfl, hmode, hR⟩ := hxy
    obtain ⟨hrxd, hR'⟩ := h.transferBytes (txd g) (len g + 1).toNat 0 0 hR
    exact ⟨congrArg (setRxd g) hrxd, (congrArg ctrlMode (hset _ _)).trans hmode, hR'⟩

/-- **A write of a register** is the same to the host. -/
theorem Simulates.writeReg (h : Simulates m d e R) {data : BitVec 32} {g : DevSPI} {r : SpiReg}
    (hmode : ctrlMode g.config = m) (hdata : r = .CTRL → ctrlMode data = m) (hR : R s t) :
    SameHost m R (Spi.writeReg (some d) data g s r) (Spi.writeReg (some e) data g t r) := by
  have hconf {g : DevSPI} {s : σ} {t : τ} (hg : ctrlMode g.config = m) (hR : R s t) :
      R (configure (some d) g s) (configure (some e) g t) := by
    rw [← hg] at h
    exact h.setConfig g.clkdiv s t hR
  cases r with
  | CTRL =>
    have hctrl : ctrlMode (data &&& 3) = m := by
      rw [← hdata rfl]
      simp [ctrlMode, ctrlCpol, ctrlCpha]
    let g' := { g with
      config := data &&& 3
      lenA := (data >>> 8) &&& 3
      lenB := (data >>> 11) &&& 3 }
    have hstart : SameHost m R (g', configure (some d) g' s) (g', configure (some e) g' t) :=
      ⟨rfl, hctrl, hconf hctrl hR⟩
    have hA := h.runTransfer hstart DevSPI.setRxdA (fun _ _ => rfl) (ctrlRunA data)
      (·.txdA) (·.lenA)
    exact h.runTransfer hA DevSPI.setRxdB (fun _ _ => rfl) ..
  | TXD_A => exact ⟨rfl, hmode, hR⟩
  | TXD_B => exact ⟨rfl, hmode, hR⟩
  | RXD_A => exact ⟨rfl, hmode, hR⟩
  | RXD_B => exact ⟨rfl, hmode, hR⟩
  | CS => exact ⟨rfl, hmode, h.setCS _ s t hR⟩
  | CLKDIV => exact ⟨rfl, hmode, hconf hmode hR⟩

/-- What two runs come to: the same is read, and the hosts are the same. -/
def SameRun {α : Type} (m : Mode) (R : σ → τ → Prop) :
    Option (α × DevSPI × σ) → Option (α × DevSPI × τ) → Prop :=
  Option.Rel fun x y => x.1 = y.1 ∧ SameHost m R x.2 y.2

/-- What is done next. -/
theorem SameRun.bind {α β : Type} {x : Option (α × DevSPI × σ)} {y : Option (α × DevSPI × τ)}
    (h : SameRun m R x y) {f : α × DevSPI × σ → Option (β × DevSPI × σ)}
    {f' : α × DevSPI × τ → Option (β × DevSPI × τ)}
    (hf : ∀ v g s t, ctrlMode g.config = m → R s t →
      SameRun m R (f (v, g, s)) (f' (v, g, t))) : SameRun m R (x.bind f) (y.bind f') := by
  cases h with
  | none => exact .none
  | some h =>
    rename_i x y
    obtain ⟨v, g, s⟩ := x
    obtain ⟨v', g', t⟩ := y
    obtain ⟨rfl, rfl, hmode, hR⟩ := h
    exact hf v g s t hmode hR

theorem Simulates.access (h : Simulates m d e R) {g : DevSPI} {a : Access}
    (hmode : ctrlMode g.config = m) (ha : a.Keeps m) (hR : R s t) :
    SameRun m R (Spi.access (some d) g s a) (Spi.access (some e) g t a) := by
  cases a with
  | read32 addr =>
    rw [Spi.access, Spi.access]
    cases SpiReg.ofAddr addr with
    | none => exact .none
    | some r => exact .some ⟨rfl, rfl, hmode, hR⟩
  | write32 addr data =>
    rw [Access.Keeps] at ha
    rw [Spi.access, Spi.access]
    cases hr : SpiReg.ofAddr addr with
    | none => exact .none
    | some r => exact .some ⟨rfl, h.writeReg hmode (fun hc => ha (hr.trans (congrArg some hc))) hR⟩

/-- **Runs of the host,** over two devices that cannot be told apart. -/
theorem Simulates.run (h : Simulates m d e R) {g : DevSPI} {as : List Access}
    (hmode : ctrlMode g.config = m) (has : ∀ a ∈ as, a.Keeps m) (hR : R s t) :
    SameRun m R (runAccesses (some d) as g s) (runAccesses (some e) as g t) := by
  induction as generalizing g s t with
  | nil => exact .some ⟨rfl, rfl, hmode, hR⟩
  | cons a as ih =>
    exact (h.access hmode (has a List.mem_cons_self) hR).bind fun v g s t hmode hR =>
      (ih hmode (fun a ha => has a (List.mem_cons_of_mem _ ha)) hR).bind fun _ _ _ _ hmode hR =>
        .some ⟨rfl, rfl, hmode, hR⟩

end

/-- **The pins exchange bytes**: in each mode, in every run of accesses that
leaves the mode as it is, whatever the device answers to the bits that it has
got, the host reads over the pins what it reads of a device that takes whole
bytes. Both have got the same bits at the end, and the clock rests. -/
theorem run_wired (m : Mode) (reply : List Bool → Bool) (h : DevSPI) (as : List Access)
    (s : SPIDevGpio Wires) (rs : List Bool) (hmode : ctrlMode h.config = m)
    (has : ∀ a ∈ as, a.Keeps m) (hs : Alike m reply s rs) :
    SameRun m (Alike m reply) (runAccesses (some (SPIDevGpio.device (wired m reply))) as h s)
      (runAccesses (some (bytewise reply)) as h rs) :=
  (simulates_wired m reply).run hmode has hs

/-- A device that answers ones and zeros in turn. -/
def alternating (rs : List Bool) : Bool := rs.length % 2 == 0

/-- Two bytes in mode 3. -/
theorem run_wired_mode3 : ∃ h s, runAccesses
    (some (SPIDevGpio.device (wired ⟨true, true⟩ alternating)))
    [.write32 0x04 0x9a31, .write32 0x00 0x183, .read32 0x08]
    { DevSPI.construct with config := 3 } ⟨true, true, 0, true, false, false, []⟩ =
      some ([none, none, some 0xaaaa], h, s) ∧
    s.pins.received = bitsOf 0x31 8 ++ bitsOf 0x9a 8 := by
  have hrun := run_wired ⟨true, true⟩ alternating { DevSPI.construct with config := 3 }
    [.write32 0x04 0x9a31, .write32 0x00 0x183, .read32 0x08]
    ⟨true, true, 0, true, false, false, []⟩ [] rfl
    (by simp [Access.Keeps, ctrlMode, ctrlCpol, ctrlCpha, SpiReg.ofAddr])
    ⟨rfl, rfl, rfl, rfl, nofun⟩
  have hbytes : (runAccesses (some (bytewise alternating))
      [.write32 0x04 0x9a31, .write32 0x00 0x183, .read32 0x08]
      { DevSPI.construct with config := 3 } []).map (fun x => (x.1, x.2.2)) =
      some ([none, none, some 0xaaaa], bitsOf 0x31 8 ++ bitsOf 0x9a 8) := by decide
  obtain ⟨⟨vs, g, rs⟩, hy, hrs⟩ := Option.map_eq_some_iff.mp hbytes
  rw [hy] at hrun
  cases hx : runAccesses (some (SPIDevGpio.device (wired ⟨true, true⟩ alternating)))
      [.write32 0x04 0x9a31, .write32 0x00 0x183, .read32 0x08]
      { DevSPI.construct with config := 3 } ⟨true, true, 0, true, false, false, []⟩ with
  | none => rw [hx] at hrun; cases hrun
  | some x =>
    rw [hx] at hrun
    obtain ⟨hread, -, -, halike⟩ : x.1 = vs ∧ SameHost ⟨true, true⟩ _ x.2 (g, rs) := by
      cases hrun with
      | some hr => exact hr
    obtain ⟨vs', g', s⟩ := x
    cases hread
    cases hrs
    exact ⟨g', s, rfl, halike.rests.received⟩

end Spi

end MrIss
