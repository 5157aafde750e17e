import MrIss.Lib.Cells
import Mathlib.Algebra.Order.Ring.Nat
import Mathlib.Tactic.Ring
/-!
# The display

`DevLCDC` turns the framebuffer in the guest's memory, in pixels of one to
32 bits, into the window's surface: line by line, each pixel as often as the
scale says, each line copied as often. The source pointer goes on from line
to line, and a line begins with a word of its own.
-/

namespace MrIss

namespace Lcdc

abbrev Word : Type := BitVec 32

def dispScale : ℕ := 1

/-- What is used of an `SDL_Surface`, which has one word to a pixel. -/
structure SdlSurface where
  w : ℕ
  h : ℕ
  /-- SDL counts the bytes of a surface in an `int`, and makes none that
  has more. -/
  fits : w * h * 4 < 2 ^ 31

/-- What `transformFramebuffer` reads of `DevLCDC`. -/
structure DevLCDC where
  /-- Its index is at most eight bits of a word. -/
  palette : BitVec 8 → Word
  scaleX : ℕ
  scaleY : ℕ
  bpp : ℕ
  /-- The constructor and a write of `DSIZE` set no scale below one. -/
  scaleX_pos : 1 ≤ scaleX
  scaleY_pos : 1 ≤ scaleY

/-! ## Lines -/

section

variable (src : ℕ → Word)

/-- `for (s = 0; s < pscale; s++) *lineout++ = pix;` -/
def putScaled (pix : Word) : ℕ → ℕ × Cells Word → ℕ × Cells Word
  | 0, v => v
  | n + 1, (lineout, out) => putScaled pix n (lineout + 1, out.write lineout [pix])

/-- The variables of the loops over a line. -/
structure Line where
  pcount : ℕ
  opx : Word
  input : ℕ
  lineout : ℕ
  out : Cells Word

/-- A pixel of `bits` bits, of which a word has `perWord`. -/
def Line.next (perWord bits : ℕ) (colour : Word → Word) (pscale : ℕ) (v : Line) : Line :=
  let v :=
    if v.pcount = 0 then { v with opx := src v.input, input := v.input + 1, pcount := perWord }
    else v
  let (lineout, out) := putScaled (colour v.opx) pscale (v.lineout, v.out)
  { v with lineout, out, opx := v.opx >>> bits, pcount := v.pcount - 1 }

/-- The loop of `copyLine16bpp` and `copyLineIndexed`: what is written, and
the source pointer afterwards. -/
def copyLinePacked (perWord bits : ℕ) (colour : Word → Word) (lineout width pscale input : ℕ)
    (out : Cells Word) : Cells Word × ℕ :=
  let v := (Line.next src perWord bits colour pscale)^[width] ⟨0, 0, input, lineout, out⟩
  (v.out, v.input)

/-- `be32toh` on a host of the other order. -/
def be32toh (v : Word) : Word :=
  v.extractLsb' 0 8 ++ v.extractLsb' 8 8 ++ v.extractLsb' 16 8 ++ v.extractLsb' 24 8

def copyLine32bpp (lineout width pscale input : ℕ) (out : Cells Word) : Cells Word × ℕ :=
  let next (v : Line) : Line :=
    let (lineout, out) := putScaled (be32toh (src v.input)) pscale (v.lineout, v.out)
    { v with lineout, out, input := v.input + 1 }
  let v := next^[width] ⟨0, 0, input, lineout, out⟩
  (v.out, v.input)

/-- `(r << 16) | (g << 8) | b`. -/
def pixel (r g b : BitVec 8) : Word :=
  (r.setWidth 32 <<< 16) ||| (g.setWidth 32 <<< 8) ||| b.setWidth 32

/-- BGR565. -/
def colour16bpp (opx : Word) : Word :=
  pixel (((opx &&& 0x001f) <<< 3).setWidth 8) (((opx &&& 0x07e0) >>> 4).setWidth 8)
    (((opx &&& 0xf800) >>> 8).setWidth 8)

def copyLine16bpp (lineout width pscale input : ℕ) (out : Cells Word) : Cells Word × ℕ :=
  copyLinePacked src 2 16 colour16bpp lineout width pscale input out

/-- The palette is BGR. -/
def colourIndexed (palette : BitVec 8 → Word) (pixmask opx : Word) : Word :=
  let entry := palette ((opx &&& pixmask).setWidth 8)
  pixel ((entry &&& 0xff).setWidth 8) (((entry &&& 0xff00) >>> 8).setWidth 8)
    (((entry &&& 0xff0000) >>> 16).setWidth 8)

/-- `(1 << bpp) - 1`. -/
def pixmask (bpp : ℕ) : Word := (1 <<< bpp) - 1

def copyLineIndexed (palette : BitVec 8 → Word) (bpp lineout width pscale input : ℕ)
    (out : Cells Word) : Cells Word × ℕ :=
  copyLinePacked src (32 / bpp) bpp (colourIndexed palette (pixmask bpp)) lineout width pscale input
    out

/-! ## The frame -/

variable (d : DevLCDC) (f : SdlSurface)

/-- The choice of a line's loop by the bits of a pixel. -/
def copyLine (pd ps : ℕ) (out : Cells Word) : Cells Word × ℕ :=
  let width := f.w / dispScale / d.scaleX
  let pscale := dispScale * d.scaleX
  if d.bpp = 32 then copyLine32bpp src pd width pscale ps out
  else if d.bpp = 16 then copyLine16bpp src pd width pscale ps out
  else if d.bpp = 8 then copyLineIndexed src d.palette 8 pd width pscale ps out
  else if d.bpp = 4 then copyLineIndexed src d.palette 4 pd width pscale ps out
  else if d.bpp = 2 then copyLineIndexed src d.palette 2 pd width pscale ps out
  else if d.bpp = 1 then copyLineIndexed src d.palette 1 pd width pscale ps out
  -- "Blue screen"
  else ((putScaled 0x000000ff f.w (pd, out)).2, ps)

/-- `memcpy(pd + (dest->w*s), pd, dest->w*4)`. -/
def copyRow (pd : ℕ) (out : Cells Word) (s : ℕ) : Cells Word :=
  out.write (pd + f.w * s) ((List.range f.w).map fun x => out.val (pd + x))

/-- "Write N lines": the copies of a line, but for the first. -/
def copyRows (pd : ℕ) (out : Cells Word) : Cells Word :=
  (List.range' 1 (dispScale * d.scaleY - 1)).foldl (copyRow f pd) out

/-- The variables of `transformFramebuffer`. -/
structure Frame where
  ps : ℕ
  pd : ℕ
  out : Cells Word

/-- One line of the framebuffer. `pd` moves by a product of 32 bits. -/
def Frame.next (v : Frame) : Frame :=
  let (out, ps) := copyLine src d f v.pd v.ps v.out
  { ps, pd := v.pd + f.w * dispScale * d.scaleY % 2 ^ 32, out := copyRows d f v.pd out }

/-- `transformFramebuffer`, where `src` has the host's words from the
framebuffer's base on and `pixels` is what the surface has. -/
def transformFramebuffer (pixels : ℕ → Word) : Cells Word :=
  ((Frame.next src d f)^[f.h / dispScale / d.scaleY] ⟨0, 0, ⟨pixels, []⟩⟩).out

end

/-! ## Pixels -/

/-- A palette entry, red and blue exchanged. -/
def exchanged (entry : Word) : Word :=
  0#8 ++ entry.extractLsb' 0 8 ++ entry.extractLsb' 8 8 ++ entry.extractLsb' 16 8

/-- The `i`-th pixel of `bpp` bits, from the least significant end of the
words from `input` on. -/
def packed (src : ℕ → Word) (bpp input i : ℕ) : Word :=
  (src (input + i / (32 / bpp)) >>> (bpp * (i % (32 / bpp)))) &&& pixmask bpp

/-- A byte of a word, by its mask and place. -/
theorem byte_eq {v : Word} (mask : Word) {k : ℕ} (h : mask >>> k = 0xff) :
    ((v &&& mask) >>> k).setWidth 8 = v.extractLsb' k 8 := by
  rw [BitVec.ushiftRight_and_distrib, h]
  apply BitVec.eq_of_toNat_eq
  have hand : (v >>> k &&& (0xff : Word)).toNat = (v.toNat >>> k) % 2 ^ 8 := by
    rw [BitVec.toNat_and, BitVec.toNat_ushiftRight]
    exact Nat.and_two_pow_sub_one_eq_mod _ 8
  rw [BitVec.toNat_setWidth, hand, Nat.mod_mod, BitVec.extractLsb'_toNat]

theorem pixel_eq (r g b : BitVec 8) : pixel r g b = 0#8 ++ r ++ g ++ b := by
  unfold pixel
  apply BitVec.eq_of_getLsbD_eq
  intro i hi
  simp only [BitVec.getLsbD_or, BitVec.getLsbD_shiftLeft, BitVec.getLsbD_setWidth,
    BitVec.getLsbD_append, BitVec.getLsbD_zero]
  grind

theorem colourIndexed_eq (palette : BitVec 8 → Word) (mask opx : Word) :
    colourIndexed palette mask opx = exchanged (palette ((opx &&& mask).setWidth 8)) := by
  have hlow (v : Word) : (v &&& 0xff).setWidth 8 = v.extractLsb' 0 8 := by
    rw [← byte_eq 0xff rfl, BitVec.ushiftRight_zero]
  rw [colourIndexed, exchanged, pixel_eq, hlow, byte_eq _ rfl, byte_eq _ rfl]

/-- The low half of a word is all that a pixel of 16 bits is made of. -/
theorem colour16bpp_and (opx : Word) : colour16bpp (opx &&& pixmask 16) = colour16bpp opx := by
  have hmask {m : Word} (h : pixmask 16 &&& m = m) : opx &&& pixmask 16 &&& m = opx &&& m := by
    rw [BitVec.and_assoc, h]
  rw [colour16bpp, hmask (by decide), hmask (by decide), hmask (by decide), colour16bpp]

/-! ## One line -/

section

variable {src : ℕ → Word} {pix : Word} {perWord bits n x k pscale input lineout width : ℕ}
variable {out : Cells Word} {colour : Word → Word} {v : Line}

theorem putScaled_eq :
    putScaled pix n (lineout, out) = (lineout + n, out.write lineout (List.replicate n pix)) := by
  induction n generalizing lineout out with
  | zero => rw [putScaled, List.replicate_zero, Cells.write_nil, Nat.add_zero]
  | succ n ih =>
    have hwrite := Cells.write_append out lineout [pix] (List.replicate n pix)
    rw [List.length_singleton, List.singleton_append, ← List.replicate_succ] at hwrite
    rw [putScaled, ih, hwrite, Nat.add_right_comm, Nat.add_assoc]

/-- Pixels by their number, each as often as the scale says. -/
def scaled (f : ℕ → Word) (pscale n : ℕ) : List Word :=
  (List.range (n * pscale)).map fun i => f (i / pscale)

@[simp] theorem length_scaled {f : ℕ → Word} : (scaled f pscale n).length = n * pscale := by
  rw [scaled, List.length_map, List.length_range]

theorem scaled_succ {f : ℕ → Word} :
    scaled f pscale (n + 1) = scaled f pscale n ++ List.replicate pscale (f n) := by
  have hlast : (List.range pscale).map (fun j => f ((n * pscale + j) / pscale)) =
      List.replicate pscale (f n) := by
    refine List.ext_getElem (by simp) fun j hj _ => ?_
    rw [List.length_map, List.length_range] at hj
    have hdiv : (n * pscale + j) / pscale = n := by
      rw [Nat.mul_comm, Nat.mul_add_div (by omega), Nat.div_eq_of_lt hj, Nat.add_zero]
    simp [hdiv]
  rw [scaled, Nat.succ_mul, List.range_add, List.map_append, List.map_map, ← hlast]
  rfl

/-- One more pixel behind those that are written. -/
theorem write_scaled_succ {f : ℕ → Word} :
    (out.write lineout (scaled f pscale n)).write (lineout + n * pscale)
      (List.replicate pscale (f n)) = out.write lineout (scaled f pscale (n + 1)) := by
  have happend := Cells.write_append out lineout (scaled f pscale n) (List.replicate pscale (f n))
  rw [length_scaled] at happend
  rw [happend, scaled_succ]

/-- Where a pixel is, by how many of its word are left. -/
theorem div_mod_of_left {c : ℕ} (h : x + c = k * perWord) (hpos : 0 < c) (hle : c ≤ perWord) :
    x / perWord + 1 = k ∧ x % perWord + c = perWord := by
  obtain ⟨q, rfl⟩ : ∃ q, k = q + 1 := ⟨k - 1, by
    rcases k with - | k
    · rw [Nat.zero_mul] at h
      omega
    · omega⟩
  rw [Nat.succ_mul] at h
  have hx : (perWord - c) + perWord * q = x := by
    rw [Nat.mul_comm perWord q]
    omega
  obtain ⟨hdiv, hmod⟩ := (Nat.div_mod_unique (by omega)).mpr ⟨hx, by omega⟩
  omega

/-- The bits from the `i`-th pixel of `bits` bits on. -/
def shifted (src : ℕ → Word) (perWord bits input i : ℕ) : Word :=
  src (input + i / perWord) >>> (bits * (i % perWord))

/-- The loop after `x` pixels. `k` words are fetched, and `pcount` pixels of
the last are left in `opx`. -/
structure At (src : ℕ → Word) (perWord bits : ℕ) (colour : Word → Word)
    (lineout pscale input : ℕ) (out : Cells Word) (x k : ℕ) (v : Line) : Prop where
  source : v.input = input + k
  fetched : x + v.pcount = k * perWord
  left : v.pcount < perWord
  shift : v.pcount ≠ 0 → v.opx = shifted src perWord bits input x
  place : v.lineout = lineout + x * pscale
  written : v.out =
    out.write lineout (scaled (fun i => colour (shifted src perWord bits input i)) pscale x)

/-- **One pixel.** -/
theorem At.next (h : At src perWord bits colour lineout pscale input out x k v) :
    ∃ k, At src perWord bits colour lineout pscale input out (x + 1) k
      (v.next src perWord bits colour pscale) := by
  have hpos : 0 < perWord := by
    have := h.left
    omega
  -- With the word fetched where none is left, the pixel is at the end of `opx`.
  obtain ⟨u, k', hnext, hinput, hfetched, hleft, hle, hopx, hlineout, hout⟩ :
      ∃ (u : Line) (k' : ℕ), v.next src perWord bits colour pscale =
        { u with
          lineout := (putScaled (colour u.opx) pscale (u.lineout, u.out)).1
          out := (putScaled (colour u.opx) pscale (u.lineout, u.out)).2
          opx := u.opx >>> bits
          pcount := u.pcount - 1 } ∧
      u.input = input + k' ∧ x + u.pcount = k' * perWord ∧ 0 < u.pcount ∧ u.pcount ≤ perWord ∧
      u.opx = shifted src perWord bits input x ∧ u.lineout = v.lineout ∧ u.out = v.out := by
    by_cases hp : v.pcount = 0
    · have hx : x = k * perWord := by rw [← h.fetched, hp, Nat.add_zero]
      refine ⟨{ v with opx := src v.input, input := v.input + 1, pcount := perWord }, k + 1,
        by rw [Line.next, if_pos hp], ?_, ?_, hpos, le_rfl, ?_, rfl, rfl⟩
      · rw [h.source, Nat.add_assoc]
      · rw [hx, Nat.succ_mul]
      · rw [shifted, hx, Nat.mul_div_cancel k hpos, Nat.mul_mod_left, Nat.mul_zero, h.source,
          BitVec.ushiftRight_zero]
    · exact ⟨v, k, by rw [Line.next, if_neg hp], h.source, h.fetched, Nat.pos_of_ne_zero hp,
        h.left.le, h.shift hp, rfl, rfl⟩
  rw [putScaled_eq] at hnext
  rw [hnext]
  refine ⟨k', hinput, ?_, ?_, fun hrest => ?_, ?_, ?_⟩
  · show x + 1 + (u.pcount - 1) = _
    omega
  · show u.pcount - 1 < perWord
    omega
  · -- The next pixel is in the same word.
    have hrest' : u.pcount - 1 ≠ 0 := hrest
    obtain ⟨hdiv, hmod⟩ := div_mod_of_left hfetched hleft hle
    obtain ⟨hdiv', hmod'⟩ := div_mod_of_left (x := x + 1) (c := u.pcount - 1)
      (by rw [← hfetched]; omega) (by omega) (by omega)
    show u.opx >>> bits = _
    rw [hopx, shifted, shifted, ← BitVec.shiftRight_add, show (x + 1) / perWord = x / perWord by omega,
      show (x + 1) % perWord = x % perWord + 1 by omega, Nat.mul_succ]
  · show u.lineout + pscale = _
    rw [hlineout, h.place, Nat.succ_mul, Nat.add_assoc]
  · show u.out.write u.lineout (List.replicate pscale (colour u.opx)) = _
    rw [hout, hlineout, h.written, h.place, hopx]
    exact write_scaled_succ

/-- **A line of packed pixels.** -/
theorem copyLinePacked_eq (hpos : 0 < perWord) :
    copyLinePacked src perWord bits colour lineout width pscale input out =
      (out.write lineout
        (scaled (fun i => colour (shifted src perWord bits input i)) pscale width),
        input + (width + perWord - 1) / perWord) := by
  have hrun : ∀ n, ∃ k, At src perWord bits colour lineout pscale input out n k
      ((Line.next src perWord bits colour pscale)^[n] ⟨0, 0, input, lineout, out⟩) := by
    intro n
    induction n with
    | zero =>
      refine ⟨0, rfl, by simp, hpos, fun h => absurd rfl h, by simp, ?_⟩
      rw [scaled, Nat.zero_mul, List.range_zero, List.map_nil, Cells.write_nil]
      rfl
    | succ n ih =>
      obtain ⟨k, hk⟩ := ih
      rw [Function.iterate_succ_apply']
      exact hk.next
  obtain ⟨k, hk⟩ := hrun width
  have hwords : (width + perWord - 1) / perWord = k := by
    have hfetched := hk.fetched
    have hleft := hk.left
    refine Nat.div_eq_of_lt_le (by omega) ?_
    rw [Nat.succ_mul]
    omega
  rw [copyLinePacked, hwords]
  exact Prod.ext hk.written hk.source

theorem copyLine32bpp_eq :
    copyLine32bpp src lineout width pscale input out =
      (out.write lineout (scaled (fun i => be32toh (src (input + i))) pscale width),
        input + width) := by
  have hrun : ∀ n, (fun v : Line =>
      { v with
        lineout := (putScaled (be32toh (src v.input)) pscale (v.lineout, v.out)).1
        out := (putScaled (be32toh (src v.input)) pscale (v.lineout, v.out)).2
        input := v.input + 1 })^[n] ⟨0, 0, input, lineout, out⟩ =
      ⟨0, 0, input + n, lineout + n * pscale,
        out.write lineout (scaled (fun i => be32toh (src (input + i))) pscale n)⟩ := by
    intro n
    induction n with
    | zero =>
      rw [scaled, Nat.zero_mul, List.range_zero, List.map_nil, Cells.write_nil]
      rfl
    | succ n ih =>
      rw [Function.iterate_succ_apply', ih, ← write_scaled_succ, Nat.succ_mul, putScaled_eq]
      simp only [Nat.add_assoc]
  rw [copyLine32bpp]
  exact congrArg (fun v : Line => (v.out, v.input)) (hrun width)

/-- **A line by the palette.** -/
theorem copyLineIndexed_eq {palette : BitVec 8 → Word} {bpp : ℕ}
    (hb : bpp = 1 ∨ bpp = 2 ∨ bpp = 4 ∨ bpp = 8) :
    copyLineIndexed src palette bpp lineout width pscale input out =
      (out.write lineout
        (scaled (fun i => exchanged (palette ((packed src bpp input i).setWidth 8))) pscale width),
        input + (width * bpp + 31) / 32) := by
  have hpos : 0 < 32 / bpp := by
    rcases hb with rfl | rfl | rfl | rfl <;> decide
  have hwords : (width + 32 / bpp - 1) / (32 / bpp) = (width * bpp + 31) / 32 := by
    rcases hb with rfl | rfl | rfl | rfl <;> omega
  rw [copyLineIndexed, copyLinePacked_eq hpos, hwords]
  simp only [colourIndexed_eq, shifted, packed]

end

/-! ## The frame -/

section

variable {src pixels : ℕ → Word} {d : DevLCDC} {f : SdlSurface} {pd ps n x y : ℕ} {out : Cells Word}

/-- What a framebuffer's pixel is on the surface. -/
def DevLCDC.shown (d : DevLCDC) (p : Word) : Word :=
  if d.bpp = 32 then be32toh p
  else if d.bpp = 16 then colour16bpp p
  else if d.bpp = 8 ∨ d.bpp = 4 ∨ d.bpp = 2 ∨ d.bpp = 1 then exchanged (d.palette (p.setWidth 8))
  else 0x000000ff

/-- The words of a line of the framebuffer. -/
def DevLCDC.lineWords (d : DevLCDC) (f : SdlSurface) : ℕ :=
  if d.bpp ∈ [1, 2, 4, 8, 16, 32] then (f.w / d.scaleX * d.bpp + 31) / 32 else 0

/-- The framebuffer's pixel in a column of a line. -/
def sourcePixel (src : ℕ → Word) (d : DevLCDC) (f : SdlSurface) (x y : ℕ) : Word :=
  packed src d.bpp (y * d.lineWords f) x

/-- A line writes a row of pixels that is no longer than the surface is wide
and has what the framebuffer's line says, and goes on by its words. -/
def LineDrawn (src : ℕ → Word) (d : DevLCDC) (f : SdlSurface) (pd ps : ℕ) (out : Cells Word) : Prop :=
  ∃ row : List Word, copyLine src d f pd ps out = (out.write pd row, ps + d.lineWords f) ∧
    row.length ≤ f.w ∧
      ∀ x < f.w / d.scaleX * d.scaleX,
        row[x]? = some (d.shown (packed src d.bpp ps (x / d.scaleX)))

theorem lineDrawn_of_scaled {g : ℕ → Word} {words : ℕ}
    (hcopy : copyLine src d f pd ps out =
      (out.write pd (scaled g d.scaleX (f.w / d.scaleX)), ps + words))
    (hwords : d.lineWords f = words) (hg : ∀ i, g i = d.shown (packed src d.bpp ps i)) :
    LineDrawn src d f pd ps out := by
  refine ⟨_, hwords ▸ hcopy, ?_, fun x hx => ?_⟩
  · rw [length_scaled]
    exact Nat.div_mul_le_self ..
  · rw [scaled, List.getElem?_map, List.getElem?_range hx, Option.map_some, hg]

/-- A line by the palette. -/
theorem lineDrawn_of_indexed (hb : d.bpp = 1 ∨ d.bpp = 2 ∨ d.bpp = 4 ∨ d.bpp = 8)
    (hcopy : copyLine src d f pd ps out =
      copyLineIndexed src d.palette d.bpp pd (f.w / d.scaleX) d.scaleX ps out) :
    LineDrawn src d f pd ps out := by
  rw [copyLineIndexed_eq hb] at hcopy
  refine lineDrawn_of_scaled hcopy ?_ fun i => ?_
  · rw [DevLCDC.lineWords, if_pos (by simp; omega)]
  · rw [DevLCDC.shown, if_neg (by omega), if_neg (by omega), if_pos (by omega)]

/-- **Every line is drawn,** whatever its pixels have of bits. -/
theorem lineDrawn (src : ℕ → Word) (d : DevLCDC) (f : SdlSurface) (pd ps : ℕ) (out : Cells Word) :
    LineDrawn src d f pd ps out := by
  have hwidth : f.w / dispScale / d.scaleX = f.w / d.scaleX := by rw [dispScale, Nat.div_one]
  have hscale : dispScale * d.scaleX = d.scaleX := Nat.one_mul _
  by_cases h32 : d.bpp = 32
  · have hcopy : copyLine src d f pd ps out =
        copyLine32bpp src pd (f.w / d.scaleX) d.scaleX ps out := by
      rw [copyLine, if_pos h32, hwidth, hscale]
    refine lineDrawn_of_scaled (hcopy.trans copyLine32bpp_eq) ?_ fun i => ?_
    · rw [DevLCDC.lineWords, if_pos (by simp [h32]), h32]
      omega
    · have hmask : pixmask 32 = BitVec.allOnes 32 := by decide
      rw [DevLCDC.shown, if_pos h32, packed, h32, hmask, BitVec.and_allOnes, Nat.div_self (by decide),
        Nat.mod_one, Nat.mul_zero, Nat.div_one, BitVec.ushiftRight_zero]
  by_cases h16 : d.bpp = 16
  · have hcopy : copyLine src d f pd ps out =
        copyLine16bpp src pd (f.w / d.scaleX) d.scaleX ps out := by
      rw [copyLine, if_neg h32, if_pos h16, hwidth, hscale]
    rw [copyLine16bpp, copyLinePacked_eq (by decide)] at hcopy
    refine lineDrawn_of_scaled hcopy ?_ fun i => ?_
    · rw [DevLCDC.lineWords, if_pos (by simp [h16]), h16]
      omega
    · rw [DevLCDC.shown, if_neg h32, if_pos h16, packed, h16, colour16bpp_and]
      rfl
  by_cases hb : d.bpp = 1 ∨ d.bpp = 2 ∨ d.bpp = 4 ∨ d.bpp = 8
  · refine lineDrawn_of_indexed hb ?_
    rw [copyLine, hwidth, hscale]
    rcases hb with h | h | h | h <;> simp [h]
  · refine ⟨List.replicate f.w 0x000000ff, ?_, by rw [List.length_replicate], fun x hx => ?_⟩
    · rw [copyLine, if_neg h32, if_neg h16, if_neg (by omega), if_neg (by omega), if_neg (by omega),
        if_neg (by omega), putScaled_eq, DevLCDC.lineWords, if_neg (by simp; omega), Nat.add_zero]
    · have hw : x < f.w := lt_of_lt_of_le hx (Nat.div_mul_le_self ..)
      rw [DevLCDC.shown, if_neg h32, if_neg h16, if_neg (by omega), List.getElem?_replicate,
        if_pos hw]

/-- Copies of a row leave what is before them, and have the row. -/
theorem copyRows_spec (out : Cells Word) (hbelow : out.Below n) (hn : pd + f.w * d.scaleY ≤ n) :
    (copyRows d f pd out).Below n ∧ (∀ i < pd + f.w, (copyRows d f pd out).val i = out.val i) ∧
      ∀ s < d.scaleY, ∀ x < f.w,
        (copyRows d f pd out).val (pd + f.w * s + x) = out.val (pd + x) := by
  have hrun : ∀ k, k + 1 ≤ d.scaleY →
      let c := (List.range' 1 k).foldl (copyRow f pd) out
      c.Below n ∧ (∀ i < pd + f.w, c.val i = out.val i) ∧
        ∀ s ≤ k, ∀ x < f.w, c.val (pd + f.w * s + x) = out.val (pd + x) := by
    intro k
    induction k with
    | zero =>
      refine fun _ => ⟨hbelow, fun i _ => rfl, fun s hs x _ => ?_⟩
      rw [Nat.le_zero.mp hs]
      rfl
    | succ k ih =>
      intro hk
      obtain ⟨hb, hfront, hrows⟩ := ih (by omega)
      have hlast : (List.range' 1 (k + 1)).foldl (copyRow f pd) out =
          copyRow f pd ((List.range' 1 k).foldl (copyRow f pd) out) (1 + k) := by
        rw [List.range'_1_concat, List.foldl_append]
        rfl
      have hplace : f.w * (1 + k) + f.w ≤ f.w * d.scaleY := by
        rw [← Nat.mul_succ]
        exact Nat.mul_le_mul_left _ (by omega)
      have hbehind : f.w ≤ f.w * (1 + k) := Nat.le_mul_of_pos_right _ (by omega)
      dsimp only
      rw [hlast, copyRow]
      refine ⟨hb.write ?_, fun i hi => ?_, fun s hs x hx => ?_⟩
      · rw [List.length_map, List.length_range]
        omega
      · rw [Cells.write_of_lt (by omega), hfront i hi]
      · rcases Nat.lt_or_ge s (k + 1) with hlt | hge
        · have hbefore : f.w * s + f.w ≤ f.w * (1 + k) := by
            rw [← Nat.mul_succ]
            exact Nat.mul_le_mul_left _ (by omega)
          rw [Cells.write_of_lt (by omega), hrows s (by omega) x hx]
        · obtain rfl : s = 1 + k := by omega
          rw [Cells.write_of_mem (by omega) (by rw [List.length_map, List.length_range]; omega)]
          simp only [List.get_eq_getElem, List.getElem_map, List.getElem_range,
            Nat.add_sub_cancel_left]
          exact hfront _ (by omega)
  have hpos := d.scaleY_pos
  obtain ⟨hb, hfront, hrows⟩ := hrun (d.scaleY - 1) (by omega)
  have hdef : copyRows d f pd out = (List.range' 1 (d.scaleY - 1)).foldl (copyRow f pd) out := by
    rw [copyRows, dispScale, Nat.one_mul]
  rw [hdef]
  exact ⟨hb, hfront, fun s hs => hrows s (by omega)⟩

/-- The surface after `y` lines of the framebuffer. -/
structure Drawn (src : ℕ → Word) (d : DevLCDC) (f : SdlSurface) (y : ℕ) (v : Frame) : Prop where
  source : v.ps = y * d.lineWords f
  place : v.pd = y * d.scaleY * f.w
  below : v.out.Below (f.w * f.h)
  shown : ∀ x < f.w / d.scaleX * d.scaleX, ∀ r < y * d.scaleY,
    v.out.val (r * f.w + x) = d.shown (sourcePixel src d f (x / d.scaleX) (r / d.scaleY))

/-- **One line of the framebuffer.** -/
theorem Drawn.next {v : Frame} (h : Drawn src d f y v) (hy : y < f.h / d.scaleY) :
    Drawn src d f (y + 1) (v.next src d f) := by
  have hpos := d.scaleY_pos
  have hlast : (y + 1) * d.scaleY ≤ f.h :=
    (Nat.mul_le_mul_right _ hy).trans (Nat.div_mul_le_self ..)
  have hend : v.pd + f.w * d.scaleY ≤ f.w * f.h := by
    have hle := Nat.mul_le_mul_left f.w hlast
    rw [h.place]
    calc y * d.scaleY * f.w + f.w * d.scaleY = f.w * ((y + 1) * d.scaleY) := by ring
      _ ≤ f.w * f.h := hle
  have hmod : f.w * dispScale * d.scaleY % 2 ^ 32 = f.w * d.scaleY := by
    have hfits := f.fits
    rw [dispScale, Nat.mul_one]
    exact Nat.mod_eq_of_lt (by omega)
  obtain ⟨row, hcopy, hlen, hrow⟩ := lineDrawn src d f v.pd v.ps v.out
  have hnext : v.next src d f =
      { ps := v.ps + d.lineWords f
        pd := v.pd + f.w * d.scaleY
        out := copyRows d f v.pd (v.out.write v.pd row) } := by
    rw [Frame.next, hcopy, hmod]
  have hwle : f.w ≤ f.w * d.scaleY := Nat.le_mul_of_pos_right _ hpos
  have hwritten : (v.out.write v.pd row).Below (f.w * f.h) := h.below.write (by omega)
  obtain ⟨hbelow, hfront, hrows⟩ := copyRows_spec (d := d) (f := f) _ hwritten hend
  rw [hnext]
  refine ⟨?_, ?_, hbelow, fun x hx r hr => ?_⟩
  · show v.ps + d.lineWords f = _
    rw [h.source, Nat.succ_mul]
  · show v.pd + f.w * d.scaleY = _
    rw [h.place]
    ring
  · have hxw : x < f.w := lt_of_lt_of_le hx (Nat.div_mul_le_self ..)
    show (copyRows d f v.pd (v.out.write v.pd row)).val (r * f.w + x) = _
    rcases Nat.lt_or_ge r (y * d.scaleY) with hlt | hge
    · -- A line before this one.
      have hbefore : r * f.w + f.w ≤ v.pd := by
        rw [h.place, ← Nat.succ_mul]
        exact Nat.mul_le_mul_right _ hlt
      rw [hfront _ (by omega), Cells.write_of_lt (by omega), h.shown x hx r hlt]
    · obtain ⟨s, rfl⟩ := Nat.exists_eq_add_of_le hge
      have hs : s < d.scaleY := by
        rw [Nat.succ_mul] at hr
        omega
      have hindex : (y * d.scaleY + s) * f.w + x = v.pd + f.w * s + x := by
        rw [h.place]
        ring
      have hdiv : (y * d.scaleY + s) / d.scaleY = y := by
        rw [Nat.mul_comm, Nat.mul_add_div hpos, Nat.div_eq_of_lt hs, Nat.add_zero]
      have hget := hrow x hx
      obtain ⟨hxlen, hval⟩ := List.getElem?_eq_some_iff.mp hget
      rw [hindex, hrows s hs x hxw, hdiv,
        Cells.write_of_mem (Nat.le_add_right ..) (by rwa [Nat.add_sub_cancel_left])]
      simp only [List.get_eq_getElem, Nat.add_sub_cancel_left]
      rw [hval, h.source]
      rfl

/-- **The framebuffer on the surface.** For every palette, source, width and
scale a line of pixels of 1, 2, 4 or 8 bits writes its pixels, each as often
as the scale says, and no others, and goes on by the words they are in. For
every surface and every scale nothing is written outside the surface, and
each pixel that the framebuffer's pixels fill is by the one of its place. -/
theorem expanded :
    (∀ (palette : BitVec 8 → Word) (src : ℕ → Word) (bpp lineout width pscale input : ℕ)
      (out : Cells Word), bpp = 1 ∨ bpp = 2 ∨ bpp = 4 ∨ bpp = 8 →
      copyLineIndexed src palette bpp lineout width pscale input out =
        (out.write lineout ((List.range (width * pscale)).map fun i =>
          exchanged (palette ((packed src bpp input (i / pscale)).setWidth 8))),
          input + (width * bpp + 31) / 32)) ∧
      ∀ (d : DevLCDC) (f : SdlSurface) (src pixels : ℕ → Word),
        (transformFramebuffer src d f pixels).Below (f.w * f.h) ∧
          ∀ x < f.w / d.scaleX * d.scaleX, ∀ y < f.h / d.scaleY * d.scaleY,
            (transformFramebuffer src d f pixels).val (y * f.w + x) =
              d.shown (sourcePixel src d f (x / d.scaleX) (y / d.scaleY)) := by
  refine ⟨fun palette src bpp lineout width pscale input out hb => copyLineIndexed_eq hb,
    fun d f src pixels => ?_⟩
  have hrun : ∀ y ≤ f.h / d.scaleY,
      Drawn src d f y ((Frame.next src d f)^[y] ⟨0, 0, ⟨pixels, []⟩⟩) := by
    intro y
    induction y with
    | zero =>
      intro _
      exact ⟨(Nat.zero_mul _).symm, by rw [Nat.zero_mul, Nat.zero_mul]; rfl, Cells.below_nil _,
        fun x _ r hr => absurd hr (by simp)⟩
    | succ y ih =>
      intro hy
      rw [Function.iterate_succ_apply']
      exact (ih (by omega)).next (by omega)
  have hlines : f.h / dispScale / d.scaleY = f.h / d.scaleY := by rw [dispScale, Nat.div_one]
  have hdrawn := hrun _ le_rfl
  rw [transformFramebuffer, hlines]
  exact ⟨hdrawn.below, hdrawn.shown⟩

end

/-- The window that `init` makes. -/
def vga : SdlSurface := ⟨640, 480, by decide⟩

/-- Pixels of four bits, doubled; the entries of the palette are their own
numbers, as shades of blue. -/
def doubled : DevLCDC := ⟨fun p => p.setWidth 32, 2, 2, 4, by decide, by decide⟩

/-- A framebuffer of 320 by 240 that starts with the pixels 1, 2 and 3, and
ends with 7. -/
def sampleFrame (i : ℕ) : Word := if i = 9599 then 0x70000000 else if i = 0 then 0x321 else 0

/-- Three pixels of a line, and the last of a frame. -/
theorem expanded_doubled :
    (copyLineIndexed sampleFrame doubled.palette 4 0 3 2 0 ⟨fun _ => 0, []⟩).1 =
        Cells.write ⟨fun _ => 0, []⟩ 0
          [0x010000, 0x010000, 0x020000, 0x020000, 0x030000, 0x030000] ∧
      (transformFramebuffer sampleFrame doubled vga fun _ => 0).val (479 * vga.w + 639) =
        0x070000 := by
  have hline : (List.range (3 * 2)).map (fun i =>
      exchanged (doubled.palette ((packed sampleFrame 4 0 (i / 2)).setWidth 8))) =
        [0x010000, 0x010000, 0x020000, 0x020000, 0x030000, 0x030000] := by decide
  have hlast : doubled.shown (sourcePixel sampleFrame doubled vga (639 / doubled.scaleX)
      (479 / doubled.scaleY)) = 0x070000 := by decide
  constructor
  · rw [expanded.1 _ _ 4 0 3 2 0 _ (by decide), hline]
  · rw [(expanded.2 doubled vga sampleFrame fun _ => 0).2 639 (by decide) 479 (by decide), hlast]

end Lcdc

end MrIss
