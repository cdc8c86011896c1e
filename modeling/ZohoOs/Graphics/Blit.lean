import ZohoOs.Graphics.Framebuffer
import ZohoOs.Lib.CopyRuns

/-!
# Blitting

`graphics_swap` and `graphics_swap_rects` of `graphics.c`: the backbuffer is copied to the framebuffer as
one run of bytes, or row by row. The rows of the framebuffer may be padded, those of the backbuffer are
not.

## Main definitions

* `backbufferByte`, `framebufferPixel`: the memories as bytes and as pixels
* `graphicsSwap`, `graphicsSwapRects`
* `Graphics.Blits`: both show the backbuffer
* `Graphics.SwapFits`: the geometries in which the one run is right

## Main results

* `graphicsSwapRects_shows`: the rows are right in every geometry
* `blits_iff_swapFits`: the one run is right just where the rows are not padded, or there is only one
-/

namespace ZohoOs

open CopyRuns

/-- The framebuffer, as bytes from `fb_addr` on. -/
abbrev Framebuffer := Nat → BitVec 8

/-- A byte of a pixel, the lowest one first. -/
def pixelByte (color : BitVec 32) (k : Nat) : BitVec 8 := BitVec.ofNat 8 (color.toNat / 2 ^ (8 * k))

/-- The pixel four bytes make. -/
def pixelOfBytes (bytes : Nat → BitVec 8) : BitVec 32 :=
  BitVec.ofNat 32 ((bytes 0).toNat + 2 ^ 8 * (bytes 1).toNat + 2 ^ 16 * (bytes 2).toNat +
    2 ^ 24 * (bytes 3).toNat)

/-- The backbuffer as bytes. -/
def backbufferByte (b : Nat → BitVec 32) (i : Nat) : BitVec 8 := pixelByte (b (i / 4)) (i % 4)

/-- The pixel the framebuffer shows at a place. -/
def framebufferPixel (g : Graphics) (fb : Framebuffer) (x y : Nat) : BitVec 32 :=
  pixelOfBytes fun k => fb (y * g.fbPitch.toNat + 4 * x + k)

/-- `graphics_swap`. The size is computed in 32 bits. -/
def graphicsSwap (g : Graphics) (fb : Framebuffer) : Framebuffer :=
  match g.backbuffer with
  | none => fb
  | some b =>
    if g.fbAddr = 0 then fb
    else CopyRun.apply fb ⟨0, (g.fbPitch * g.fbHeight).toNat, backbufferByte b⟩

/-- What `graphics_swap_rects` copies for a row of a rectangle. -/
def swapRow (g : Graphics) (b : Nat → BitVec 32) (rect : Rect) (row : Nat) : CopyRun (BitVec 8) where
  dst := (BitVec.ofInt 64 (int32 (rect.y + row)) * g.fbPitch.setWidth 64 +
    BitVec.ofInt 64 rect.x * 4#64).toNat
  n := (BitVec.ofInt 64 rect.w * 4#64).toNat
  src k := backbufferByte b (4 * (BitVec.ofInt 64 (int32 (rect.y + row)) * g.fbWidth.setWidth 64 +
    BitVec.ofInt 64 rect.x).toNat + k)

/-- `graphics_swap_rects`. -/
def graphicsSwapRects (g : Graphics) (rects : List Rect) (fb : Framebuffer) : Framebuffer :=
  match g.backbuffer with
  | none => fb
  | some b =>
    if g.fbAddr = 0 then fb
    else copyAll fb (rects.flatMap fun rect =>
      match clipRect g rect with
      | none => []
      | some rect => (List.range rect.h.toNat).map (swapRow g b rect))

/-- **Both show the backbuffer**, whatever it has: `graphics_swap`, and `graphics_swap_rects` with
rectangles that cover the screen. -/
def Graphics.Blits (g : Graphics) : Prop :=
  ∀ (b : Nat → BitVec 32) (fb : Framebuffer),
    (∀ x y, g.Shows x y →
      framebufferPixel g (graphicsSwap { g with backbuffer := some b } fb) x y =
        b (y * g.fbWidth.toNat + x)) ∧
    ∀ rects : List Rect, (∀ rect ∈ rects, rect.Bounded ∧ rect.Fits) →
      (∀ x y, g.Shows x y → ∃ rect ∈ rects, rect.Has x y) →
      ∀ x y, g.Shows x y →
        framebufferPixel g (graphicsSwapRects { g with backbuffer := some b } rects fb) x y =
          b (y * g.fbWidth.toNat + x)

/-- Nothing is shown; or the size of the framebuffer fits 32 bits, and its rows are as long as those of
the backbuffer, or there is only one. -/
def Graphics.SwapFits (g : Graphics) : Prop :=
  g.fbWidth.toNat = 0 ∨ g.fbHeight.toNat = 0 ∨
    (g.fbPitch.toNat * g.fbHeight.toNat < 2 ^ 32 ∧
      (g.fbHeight.toNat = 1 ∨ g.fbPitch.toNat = 4 * g.fbWidth.toNat))

/-! ## Bytes and pixels -/

section Bytes

variable {g : Graphics} {b : Nat → BitVec 32} {fb : Framebuffer} {x y : Nat}

theorem pixelOfBytes_pixelByte (color : BitVec 32) : pixelOfBytes (pixelByte color) = color := by
  have hlt := color.isLt
  apply BitVec.eq_of_toNat_eq
  simp only [pixelOfBytes, pixelByte, BitVec.toNat_ofNat]
  omega

/-- The last byte of a pixel that is all ones. -/
theorem pixelOfBytes_ones {bytes : Nat → BitVec 8} (h : pixelOfBytes bytes = 0xFFFFFFFF#32) :
    bytes 3 = 0xFF#8 := by
  have hnat := congrArg BitVec.toNat h
  have h0 := (bytes 0).isLt
  have h1 := (bytes 1).isLt
  have h2 := (bytes 2).isLt
  have h3 := (bytes 3).isLt
  apply BitVec.eq_of_toNat_eq
  simp only [pixelOfBytes, BitVec.toNat_ofNat] at hnat ⊢
  omega

/-- A place shows a pixel where its four bytes are the bytes of the pixel. -/
theorem framebufferPixel_eq {color : BitVec 32}
    (h : ∀ k < 4, fb (y * g.fbPitch.toNat + 4 * x + k) = pixelByte color k) :
    framebufferPixel g fb x y = color := by
  rw [framebufferPixel, pixelOfBytes, h 0 (by decide), h 1 (by decide), h 2 (by decide),
    h 3 (by decide)]
  exact pixelOfBytes_pixelByte color

/-- The bytes of a pixel of the backbuffer. -/
theorem backbufferByte_pixel (b : Nat → BitVec 32) (i : Nat) {k : Nat} (hk : k < 4) :
    backbufferByte b (4 * i + k) = pixelByte (b i) k := by
  rw [backbufferByte, Nat.mul_add_div (by decide), Nat.div_eq_of_lt hk, Nat.mul_add_mod,
    Nat.mod_eq_of_lt hk, Nat.add_zero]

end Bytes

/-! ## One run -/

section Swap

variable {g : Graphics} {b : Nat → BitVec 32} {fb : Framebuffer} {x y : Nat}

theorem graphicsSwap_apply (haddr : g.fbAddr ≠ 0) (b : Nat → BitVec 32) (fb : Framebuffer) (i : Nat) :
    graphicsSwap { g with backbuffer := some b } fb i =
      if i < (g.fbPitch * g.fbHeight).toNat then backbufferByte b i else fb i := by
  simp only [graphicsSwap, if_neg haddr, CopyRun.apply, CopyRun.Covers, Nat.zero_le, true_and,
    Nat.zero_add, Nat.sub_zero]

/-- The size of the framebuffer, where it fits 32 bits. -/
theorem fbSize_toNat (h : g.fbPitch.toNat * g.fbHeight.toNat < 2 ^ 32) :
    (g.fbPitch * g.fbHeight).toNat = g.fbPitch.toNat * g.fbHeight.toNat := by
  rw [BitVec.toNat_mul]
  exact Nat.mod_eq_of_lt h

/-- **One run is right** where the rows are not padded, or there is only one. -/
theorem graphicsSwap_shows (hpitch : 4 * g.fbWidth.toNat ≤ g.fbPitch.toNat) (haddr : g.fbAddr ≠ 0)
    (hfits : g.SwapFits) (hshows : g.Shows x y) :
    framebufferPixel g (graphicsSwap { g with backbuffer := some b } fb) x y =
      b (y * g.fbWidth.toNat + x) := by
  obtain ⟨hx, hy⟩ := hshows
  obtain ⟨hsize, hrows⟩ := (hfits.resolve_left (by omega)).resolve_left (by omega)
  -- the place has the same offset in both buffers
  have hoffset : y * g.fbPitch.toNat + 4 * x = 4 * (y * g.fbWidth.toNat + x) := by
    rcases hrows with hone | htight
    · obtain rfl : y = 0 := by omega
      rw [Nat.zero_mul, Nat.zero_mul, Nat.zero_add, Nat.zero_add]
    · rw [htight, Nat.mul_left_comm, Nat.mul_add]
  have hrow : (y + 1) * g.fbPitch.toNat ≤ g.fbHeight.toNat * g.fbPitch.toNat :=
    Nat.mul_le_mul_right _ hy
  rw [Nat.succ_mul, Nat.mul_comm g.fbHeight.toNat] at hrow
  refine framebufferPixel_eq fun k hk => ?_
  rw [graphicsSwap_apply haddr, fbSize_toNat hsize, if_pos (by omega), hoffset]
  exact backbufferByte_pixel b _ hk

/-- **One run is wrong** elsewhere, for some contents of the two buffers. -/
theorem graphicsSwap_fails (hpitch : 4 * g.fbWidth.toNat ≤ g.fbPitch.toNat) (haddr : g.fbAddr ≠ 0)
    (hfits : ¬ g.SwapFits) : ∃ b fb x y, g.Shows x y ∧
      framebufferPixel g (graphicsSwap { g with backbuffer := some b } fb) x y ≠
        b (y * g.fbWidth.toNat + x) := by
  rw [Graphics.SwapFits, not_or, not_or, not_and_or, not_or, not_lt] at hfits
  obtain ⟨hwidth, hheight, hfits⟩ := hfits
  have hpitchLt := g.fbPitch.isLt
  have hheightLt := g.fbHeight.isLt
  by_cases hsize : g.fbPitch.toNat * g.fbHeight.toNat < 2 ^ 32
  · obtain ⟨hone, hpadded⟩ := hfits.resolve_left (by omega)
    -- the first pixel of the second row: the run puts the padding of the first row there
    refine ⟨fun i => if i = g.fbWidth.toNat then 0xFFFFFFFF#32 else 0, fun _ => 0, 0, 1,
      ⟨by omega, by omega⟩, ?_⟩
    rw [Nat.one_mul, Nat.add_zero]
    dsimp only
    rw [if_pos rfl]
    intro hones
    have hlast := pixelOfBytes_ones hones
    have hrow : 2 * g.fbPitch.toNat ≤ g.fbPitch.toNat * g.fbHeight.toNat := by
      rw [Nat.mul_comm]
      exact Nat.mul_le_mul_left _ (by omega)
    rw [graphicsSwap_apply haddr, fbSize_toNat hsize, if_pos (by omega), backbufferByte,
      if_neg (by omega)] at hlast
    exact absurd hlast (by simp [pixelByte])
  · -- the last row: the size in 32 bits ends before it
    refine ⟨fun _ => 0xFFFFFFFF#32, fun _ => 0, 0, g.fbHeight.toNat - 1, ⟨by omega, by omega⟩, ?_⟩
    intro hones
    have hlast := pixelOfBytes_ones hones
    have hrow : (g.fbHeight.toNat - 1) * g.fbPitch.toNat + g.fbPitch.toNat =
        g.fbPitch.toNat * g.fbHeight.toNat := by
      rw [← Nat.succ_mul, Nat.succ_eq_add_one, Nat.sub_add_cancel (by omega), Nat.mul_comm]
    have hwraps : (g.fbPitch * g.fbHeight).toNat + 2 ^ 32 ≤ g.fbPitch.toNat * g.fbHeight.toNat := by
      rw [BitVec.toNat_mul]
      omega
    rw [graphicsSwap_apply haddr, if_neg (by omega)] at hlast
    exact absurd hlast (by decide)

end Swap

/-! ## Row by row -/

section Rows

variable {g : Graphics} {b : Nat → BitVec 32} {fb : Framebuffer} {rect clipped : Rect} {x y : Nat}

/-- **`clip_rect` leaves the part of a rectangle that is on the screen.** -/
theorem clipRect_eq (hwidth : g.fbWidth.toNat < 2 ^ 31) (hheight : g.fbHeight.toNat < 2 ^ 31)
    (hbounded : rect.Bounded) (hfits : rect.Fits) : clipRect g rect =
      if max rect.x 0 < min (rect.x + rect.w) g.fbWidth.toNat ∧
        max rect.y 0 < min (rect.y + rect.h) g.fbHeight.toNat
      then some ⟨max rect.x 0, max rect.y 0, min (rect.x + rect.w) g.fbWidth.toNat - max rect.x 0,
        min (rect.y + rect.h) g.fbHeight.toNat - max rect.y 0⟩
      else none := by
  obtain ⟨⟨hxlo, hxhi⟩, ⟨hylo, hyhi⟩, ⟨hwlo, hwhi⟩, ⟨hhlo, hhhi⟩⟩ := hbounded
  have hright := hfits.right
  have hbottom := hfits.bottom
  have hw := BitVec.toInt_eq_toNat_of_lt (x := g.fbWidth) (by omega)
  have hh := BitVec.toInt_eq_toNat_of_lt (x := g.fbHeight) (by omega)
  simp only [IsInt32] at hright hbottom
  have hzero : ∀ n : Int, (if n < 0 then 0 else n) = max n 0 := fun n => by split <;> omega
  have hmin : ∀ m n : Int, (if m > n then n else m) = min m n := fun m n => by split <;> omega
  simp only [clipRect, hfits.right_eq, hfits.bottom_eq, hw, hh, hzero, hmin]
  rw [int32_eq ⟨by omega, by omega⟩, int32_eq ⟨by omega, by omega⟩]
  exact if_congr (by omega) rfl rfl

/-- What is clipped is on the screen. -/
theorem clipRect_some (hwidth : g.fbWidth.toNat < 2 ^ 31) (hheight : g.fbHeight.toNat < 2 ^ 31)
    (hbounded : rect.Bounded) (hfits : rect.Fits) (hclip : clipRect g rect = some clipped) :
    g.Inside clipped := by
  have hw := BitVec.toInt_eq_toNat_of_lt (x := g.fbWidth) (by omega)
  have hh := BitVec.toInt_eq_toNat_of_lt (x := g.fbHeight) (by omega)
  rw [clipRect_eq hwidth hheight hbounded hfits] at hclip
  split at hclip
  · obtain rfl := Option.some.inj hclip
    constructor <;> simp only [screenRect, hw, hh] <;> omega
  · cases hclip

/-- The places of a rectangle that are shown are left. -/
theorem clipRect_has (hwidth : g.fbWidth.toNat < 2 ^ 31) (hheight : g.fbHeight.toNat < 2 ^ 31)
    (hbounded : rect.Bounded) (hfits : rect.Fits) (hshows : g.Shows x y) (hhas : rect.Has x y) :
    ∃ clipped, clipRect g rect = some clipped ∧ clipped.Has x y := by
  obtain ⟨hx, hy⟩ := hshows
  obtain ⟨⟨hleft, hright⟩, htop, hbottom⟩ := hhas
  simp only at hleft hright htop hbottom
  rw [clipRect_eq hwidth hheight hbounded hfits, if_pos ⟨by omega, by omega⟩]
  refine ⟨_, rfl, ?_⟩
  simp only [Rect.Has, Rect.mem_pixels]
  omega

/-- What the framebuffer is to have: in each row, the pixels of the row of the backbuffer. -/
def shownByte (g : Graphics) (b : Nat → BitVec 32) (i : Nat) : BitVec 8 :=
  pixelByte (b (i / g.fbPitch.toNat * g.fbWidth.toNat + i % g.fbPitch.toNat / 4))
    (i % g.fbPitch.toNat % 4)

/-- A byte of a row. -/
theorem shownByte_row (hpitch : 4 * g.fbWidth.toNat ≤ g.fbPitch.toNat) {row k : Nat}
    (hk : k < 4 * g.fbWidth.toNat) : shownByte g b (row * g.fbPitch.toNat + k) =
      backbufferByte b (4 * (row * g.fbWidth.toNat) + k) := by
  have hpos : 0 < g.fbPitch.toNat := by omega
  have hdiv : (row * g.fbPitch.toNat + k) / g.fbPitch.toNat = row := by
    rw [Nat.mul_comm, Nat.mul_add_div hpos, Nat.div_eq_of_lt (by omega), Nat.add_zero]
  have hmod : (row * g.fbPitch.toNat + k) % g.fbPitch.toNat = k := by
    rw [Nat.mul_comm, Nat.mul_add_mod, Nat.mod_eq_of_lt (by omega)]
  rw [shownByte, hdiv, hmod, backbufferByte, Nat.mul_add_div (by decide), Nat.mul_add_mod]

/-- The offsets of a row, which do not wrap. -/
theorem rowOffset_toNat (n : BitVec 32) {row col : Nat} (hrow : row < 2 ^ 31) (hcol : col < 2 ^ 33) :
    (BitVec.ofInt 64 row * n.setWidth 64 + BitVec.ofNat 64 col).toNat = row * n.toNat + col := by
  have hmul : row * n.toNat < 2 ^ 31 * 2 ^ 32 := Nat.mul_lt_mul_of_lt_of_lt hrow n.isLt
  rw [BitVec.toNat_add, BitVec.toNat_mul, BitVec.ofInt_natCast, BitVec.toNat_ofNat,
    BitVec.toNat_ofNat, BitVec.toNat_setWidth, Nat.mod_eq_of_lt (by omega : row < 2 ^ 64),
    Nat.mod_eq_of_lt (by omega : col < 2 ^ 64), Nat.mod_eq_of_lt (by omega : n.toNat < 2 ^ 64),
    Nat.mod_eq_of_lt (by omega : row * n.toNat < 2 ^ 64), Nat.mod_eq_of_lt (by omega)]

theorem swapRow_eq (h : g.Inside rect) {row : Nat} (hrow : row < rect.h.toNat) :
    swapRow g b rect row =
      ⟨(rect.y.toNat + row) * g.fbPitch.toNat + 4 * rect.x.toNat, 4 * rect.w.toNat,
        fun k => backbufferByte b (4 * ((rect.y.toNat + row) * g.fbWidth.toNat + rect.x.toNat) + k)⟩ := by
  obtain ⟨-, hcol, hline⟩ := h.place hrow (show 0 < rect.w.toNat by have := h.width; omega)
  have hwidth := (h.fits (screenRect_fits _ _) rfl rfl).right.2
  have hleft := h.left
  have hw := h.width
  have hy : int32 (rect.y + row) = (rect.y.toNat + row : Nat) := by
    have hsum : rect.y + row = ((rect.y.toNat + row : Nat) : Int) := by
      have := h.top
      omega
    rw [hsum]
    exact int32_eq ⟨by omega, by omega⟩
  have hnat : ∀ n : Int, 0 ≤ n → BitVec.ofInt 64 n = BitVec.ofNat 64 n.toNat := fun n hn => by
    obtain ⟨m, rfl⟩ := Int.eq_ofNat_of_zero_le hn
    exact BitVec.ofInt_natCast 64 m
  have hfour : ∀ n : Nat, BitVec.ofNat 64 n * 4#64 = BitVec.ofNat 64 (4 * n) := fun n => by
    rw [BitVec.mul_comm, ← BitVec.ofNat_mul]
  simp only [swapRow, hy, hnat _ hleft, hnat _ hw.le, hfour]
  rw [rowOffset_toNat g.fbPitch hline (by omega), rowOffset_toNat g.fbWidth hline (by omega),
    BitVec.toNat_ofNat, Nat.mod_eq_of_lt (by omega)]

/-- **A row agrees with what the framebuffer is to have.** -/
theorem swapRow_agrees (hpitch : 4 * g.fbWidth.toNat ≤ g.fbPitch.toNat) (h : g.Inside rect) {row : Nat}
    (hrow : row < rect.h.toNat) : (swapRow g b rect row).Agrees (shownByte g b) := by
  rw [swapRow_eq h hrow]
  intro k hk
  dsimp only at hk ⊢
  -- the last place of the row is shown
  have hw := h.width
  have hlast : rect.x.toNat + (rect.w.toNat - 1) < g.fbWidth.toNat :=
    (h.place hrow (show rect.w.toNat - 1 < rect.w.toNat by omega)).1.1
  rw [Nat.add_assoc, shownByte_row hpitch (by omega), Nat.mul_add, Nat.add_assoc]

/-- **The rows show the backbuffer**, in every geometry. -/
theorem graphicsSwapRects_shows (hpitch : 4 * g.fbWidth.toNat ≤ g.fbPitch.toNat) (haddr : g.fbAddr ≠ 0)
    {rects : List Rect} (hrects : ∀ rect ∈ rects, rect.Bounded ∧ rect.Fits)
    (hcovers : ∀ x y, g.Shows x y → ∃ rect ∈ rects, rect.Has x y) (hshows : g.Shows x y) :
    framebufferPixel g (graphicsSwapRects { g with backbuffer := some b } rects fb) x y =
      b (y * g.fbWidth.toNat + x) := by
  have hpitchLt := g.fbPitch.isLt
  have hwidth : g.fbWidth.toNat < 2 ^ 31 := by omega
  -- the last line is in a rectangle
  have hheight : g.fbHeight.toNat < 2 ^ 31 := by
    obtain ⟨rect, hrect, -, -, hbottom⟩ :=
      hcovers x (g.fbHeight.toNat - 1) ⟨hshows.1, by have := hshows.2; omega⟩
    have hfits := (hrects rect hrect).2.bottom.2
    simp only at hbottom
    omega
  obtain ⟨runs, hruns⟩ : ∃ runs, runs = rects.flatMap fun rect =>
      match clipRect g rect with
      | none => []
      | some rect => (List.range rect.h.toNat).map (swapRow g b rect) := ⟨_, rfl⟩
  have hmem : ∀ r, r ∈ runs ↔ ∃ rect ∈ rects, ∃ clipped, clipRect g rect = some clipped ∧
      ∃ row < clipped.h.toNat, swapRow g b clipped row = r := by
    intro r
    rw [hruns, List.mem_flatMap]
    refine exists_congr fun rect => and_congr_right fun _ => ?_
    cases clipRect g rect with
    | none => simp
    | some clipped => simp
  have hswap : graphicsSwapRects { g with backbuffer := some b } rects fb = copyAll fb runs := by
    rw [hruns]
    exact if_neg haddr
  have hagrees : ∀ r ∈ runs, r.Agrees (shownByte g b) := by
    intro r hr
    obtain ⟨rect, hrect, clipped, hclip, row, hrow, rfl⟩ := (hmem r).mp hr
    obtain ⟨hbounded, hfits⟩ := hrects rect hrect
    exact swapRow_agrees hpitch (clipRect_some hwidth hheight hbounded hfits hclip) hrow
  refine framebufferPixel_eq fun k hk => ?_
  have hx := hshows.1
  rw [hswap, copyAll_apply hagrees, if_pos, Nat.add_assoc, shownByte_row hpitch (by omega),
    ← Nat.add_assoc, ← Nat.mul_add]
  · exact backbufferByte_pixel b _ hk
  · -- the row of the rectangle that has the place
    obtain ⟨rect, hrect, hhas⟩ := hcovers x y hshows
    obtain ⟨hbounded, hfits⟩ := hrects rect hrect
    obtain ⟨clipped, hclip, hin⟩ := clipRect_has hwidth hheight hbounded hfits hshows hhas
    have hinside := clipRect_some hwidth hheight hbounded hfits hclip
    obtain ⟨i, hi, j, hj, he⟩ := (Rect.Has.iff hinside).mp hin
    obtain ⟨rfl, rfl⟩ := Prod.mk.inj he
    refine ⟨_, (hmem _).mpr ⟨rect, hrect, clipped, hclip, i, hi, rfl⟩, ?_⟩
    rw [swapRow_eq hinside hi, CopyRun.Covers]
    dsimp only
    omega

end Rows

/-- **Both ways of blitting show the backbuffer, just if** the size of the framebuffer fits 32 bits and
its rows are not padded (or there is one row at most, or nothing is shown). -/
theorem blits_iff_swapFits {g : Graphics} (hpitch : 4 * g.fbWidth.toNat ≤ g.fbPitch.toNat)
    (haddr : g.fbAddr ≠ 0) : g.Blits ↔ g.SwapFits := by
  constructor
  · intro hblits
    by_contra hfits
    obtain ⟨b, fb, x, y, hshows, hwrong⟩ := graphicsSwap_fails hpitch haddr hfits
    exact hwrong ((hblits b fb).1 x y hshows)
  · exact fun hfits b fb => ⟨fun x y hshows => graphicsSwap_shows hpitch haddr hfits hshows,
      fun rects hrects hcovers x y hshows =>
        graphicsSwapRects_shows hpitch haddr hrects hcovers hshows⟩

/-- A screen of 1024 columns and 768 rows, with tight rows. -/
def tightScreen : Graphics := ⟨0xFD000000, none, 1024, 768, 4096⟩

/-- A screen of one column and two rows, which are padded. -/
def paddedScreen : Graphics := ⟨0xFD000000, none, 1, 2, 8⟩

/-- Where the rows are tight, both show the backbuffer. -/
theorem blits_iff_swapFits_tight : tightScreen.Blits :=
  (blits_iff_swapFits (by decide) (by decide)).mpr (Or.inr (Or.inr ⟨by decide, Or.inr (by decide)⟩))

/-- **Padded rows**: the second row shows what is behind the second row of the backbuffer. -/
theorem graphicsSwap_padded : 4 * paddedScreen.fbWidth.toNat ≤ paddedScreen.fbPitch.toNat ∧
    ¬ paddedScreen.Blits := by
  refine ⟨by decide, fun hblits => ?_⟩
  have hsecond := (hblits (fun i => if i = 1 then 7 else 0) fun _ => 0).1 0 1 ⟨by decide, by decide⟩
  exact absurd hsecond (by decide)

end ZohoOs
