import ZohoOs.Lib.TextRaster
import Mathlib.Data.List.ReduceOption

/-!
# Characters

`graphics.c`: the font, and how a character is drawn into a buffer of pixels.

## Main definitions

* `font8x8Basic`: the glyphs of the characters that have one
* `graphicsDrawChar`

## Main results

* `graphicsDrawChar_apply`: the pixels that it sets are those of the glyph, in the block of the character
-/

namespace ZohoOs

open Raster TextRaster

/-- `font8x8_basic`: the glyphs that are not blank by default, and the space. -/
def font8x8Basic : List (Nat × List Nat) :=
  [(0x20, [0x00, 0x00, 0x00, 0x00, 0x00, 0x00, 0x00, 0x00]),
   (0x41, [0x18, 0x3C, 0x66, 0x7E, 0x66, 0x66, 0x66, 0x00]),
   (0x42, [0x7C, 0x66, 0x66, 0x7C, 0x66, 0x66, 0x7C, 0x00]),
   (0x43, [0x3C, 0x66, 0x60, 0x60, 0x60, 0x66, 0x3C, 0x00]),
   (0x44, [0x78, 0x6C, 0x66, 0x66, 0x66, 0x6C, 0x78, 0x00]),
   (0x45, [0x7E, 0x60, 0x60, 0x7C, 0x60, 0x60, 0x7E, 0x00]),
   (0x46, [0x7E, 0x60, 0x60, 0x7C, 0x60, 0x60, 0x60, 0x00]),
   (0x47, [0x3C, 0x66, 0x60, 0x6E, 0x66, 0x66, 0x3C, 0x00]),
   (0x48, [0x66, 0x66, 0x66, 0x7E, 0x66, 0x66, 0x66, 0x00]),
   (0x49, [0x3C, 0x18, 0x18, 0x18, 0x18, 0x18, 0x3C, 0x00]),
   (0x4A, [0x1E, 0x0C, 0x0C, 0x0C, 0x0C, 0x6C, 0x38, 0x00]),
   (0x4B, [0x66, 0x6C, 0x78, 0x70, 0x78, 0x6C, 0x66, 0x00]),
   (0x4C, [0x60, 0x60, 0x60, 0x60, 0x60, 0x60, 0x7E, 0x00]),
   (0x4D, [0x63, 0x77, 0x7F, 0x6B, 0x63, 0x63, 0x63, 0x00]),
   (0x4E, [0x63, 0x73, 0x7B, 0x6F, 0x67, 0x63, 0x63, 0x00]),
   (0x4F, [0x3C, 0x66, 0x66, 0x66, 0x66, 0x66, 0x3C, 0x00]),
   (0x50, [0x7C, 0x66, 0x66, 0x7C, 0x60, 0x60, 0x60, 0x00]),
   (0x51, [0x3C, 0x66, 0x66, 0x66, 0x66, 0x3C, 0x0E, 0x00]),
   (0x52, [0x7C, 0x66, 0x66, 0x7C, 0x78, 0x6C, 0x66, 0x00]),
   (0x53, [0x3C, 0x66, 0x60, 0x3C, 0x06, 0x66, 0x3C, 0x00]),
   (0x54, [0x7E, 0x18, 0x18, 0x18, 0x18, 0x18, 0x18, 0x00]),
   (0x55, [0x66, 0x66, 0x66, 0x66, 0x66, 0x66, 0x3C, 0x00]),
   (0x56, [0x66, 0x66, 0x66, 0x66, 0x66, 0x3C, 0x18, 0x00]),
   (0x57, [0x63, 0x63, 0x63, 0x6B, 0x7F, 0x77, 0x63, 0x00]),
   (0x58, [0x66, 0x66, 0x3C, 0x18, 0x3C, 0x66, 0x66, 0x00]),
   (0x59, [0x66, 0x66, 0x66, 0x3C, 0x18, 0x18, 0x18, 0x00]),
   (0x5A, [0x7E, 0x06, 0x0C, 0x18, 0x30, 0x60, 0x7E, 0x00]),
   (0x30, [0x3C, 0x66, 0x6E, 0x76, 0x66, 0x66, 0x3C, 0x00]),
   (0x31, [0x18, 0x38, 0x18, 0x18, 0x18, 0x18, 0x3C, 0x00]),
   (0x32, [0x3C, 0x66, 0x06, 0x0C, 0x18, 0x30, 0x7E, 0x00]),
   (0x33, [0x3C, 0x66, 0x06, 0x1C, 0x06, 0x66, 0x3C, 0x00]),
   (0x34, [0x0C, 0x1C, 0x2C, 0x4C, 0x7E, 0x0C, 0x0C, 0x00]),
   (0x35, [0x7E, 0x60, 0x60, 0x7C, 0x06, 0x06, 0x7C, 0x00]),
   (0x36, [0x3C, 0x66, 0x60, 0x7C, 0x66, 0x66, 0x3C, 0x00]),
   (0x37, [0x7E, 0x06, 0x0C, 0x18, 0x18, 0x18, 0x18, 0x00]),
   (0x38, [0x3C, 0x66, 0x66, 0x3C, 0x66, 0x66, 0x3C, 0x00]),
   (0x39, [0x3C, 0x66, 0x66, 0x3E, 0x06, 0x66, 0x3C, 0x00]),
   (0x3E, [0x60, 0x30, 0x18, 0x0C, 0x18, 0x30, 0x60, 0x00]),
   (0x3A, [0x00, 0x18, 0x18, 0x00, 0x18, 0x18, 0x00, 0x00]),
   (0x2C, [0x00, 0x00, 0x00, 0x00, 0x00, 0x18, 0x18, 0x30]),
   (0x2E, [0x00, 0x00, 0x00, 0x00, 0x00, 0x18, 0x18, 0x00]),
   (0x61, [0x00, 0x00, 0x3C, 0x06, 0x3E, 0x66, 0x3E, 0x00]),
   (0x62, [0x60, 0x60, 0x7C, 0x66, 0x66, 0x66, 0x7C, 0x00]),
   (0x63, [0x00, 0x00, 0x3C, 0x60, 0x60, 0x66, 0x3C, 0x00]),
   (0x64, [0x06, 0x06, 0x3E, 0x66, 0x66, 0x66, 0x3E, 0x00]),
   (0x65, [0x00, 0x00, 0x3C, 0x66, 0x7E, 0x60, 0x3C, 0x00]),
   (0x66, [0x0E, 0x18, 0x3E, 0x18, 0x18, 0x18, 0x18, 0x00]),
   (0x67, [0x00, 0x00, 0x3E, 0x66, 0x66, 0x3E, 0x06, 0x3C]),
   (0x68, [0x60, 0x60, 0x7C, 0x66, 0x66, 0x66, 0x66, 0x00]),
   (0x69, [0x18, 0x00, 0x38, 0x18, 0x18, 0x18, 0x3C, 0x00]),
   (0x6A, [0x06, 0x00, 0x06, 0x06, 0x06, 0x06, 0x06, 0x3C]),
   (0x6B, [0x60, 0x60, 0x66, 0x6C, 0x78, 0x6C, 0x66, 0x00]),
   (0x6C, [0x38, 0x18, 0x18, 0x18, 0x18, 0x18, 0x3C, 0x00]),
   (0x6D, [0x00, 0x00, 0x66, 0x7F, 0x7F, 0x6B, 0x63, 0x00]),
   (0x6E, [0x00, 0x00, 0x7C, 0x66, 0x66, 0x66, 0x66, 0x00]),
   (0x6F, [0x00, 0x00, 0x3C, 0x66, 0x66, 0x66, 0x3C, 0x00]),
   (0x70, [0x00, 0x00, 0x7C, 0x66, 0x66, 0x7C, 0x60, 0x60]),
   (0x71, [0x00, 0x00, 0x3E, 0x66, 0x66, 0x3E, 0x06, 0x06]),
   (0x72, [0x00, 0x00, 0x7C, 0x66, 0x60, 0x60, 0x60, 0x00]),
   (0x73, [0x00, 0x00, 0x3E, 0x60, 0x3C, 0x06, 0x7C, 0x00]),
   (0x74, [0x18, 0x18, 0x3E, 0x18, 0x18, 0x18, 0x0E, 0x00]),
   (0x75, [0x00, 0x00, 0x66, 0x66, 0x66, 0x66, 0x3E, 0x00]),
   (0x76, [0x00, 0x00, 0x66, 0x66, 0x66, 0x3C, 0x18, 0x00]),
   (0x77, [0x00, 0x00, 0x63, 0x6B, 0x7F, 0x3E, 0x36, 0x00]),
   (0x78, [0x00, 0x00, 0x66, 0x3C, 0x18, 0x3C, 0x66, 0x00]),
   (0x79, [0x00, 0x00, 0x66, 0x66, 0x66, 0x3E, 0x06, 0x3C]),
   (0x7A, [0x00, 0x00, 0x7E, 0x0C, 0x18, 0x30, 0x7E, 0x00])]

/-- `font8x8_basic[c][i]`. -/
def fontRow (c : BitVec 8) (i : Nat) : Nat :=
  ((font8x8Basic.lookup c.toNat).bind fun rows => rows[i]?).getD 0

/-- The character has a pixel in row `i` and column `j` of its block. -/
def HasPixel (c : BitVec 8) (i j : Nat) : Prop := c < 128#8 ∧ (fontRow c i).testBit (7 - j) = true

instance (c : BitVec 8) (i j : Nat) : Decidable (HasPixel c i j) :=
  inferInstanceAs (Decidable (_ ∧ _))

/-- The indices that `graphics_draw_char` writes to, row by row. -/
def charPixels (w x y : BitVec 32) (c : BitVec 8) : List Nat :=
  (grid 8 8 fun i j =>
    let px := x + BitVec.ofNat 32 j
    let py := y + BitVec.ofNat 32 i
    if (fontRow c i).testBit (7 - j) ∧ px < w then some (py * w + px).toNat else none).reduceOption

/-- `graphics_draw_char`, in a buffer that is not `NULL`. -/
def graphicsDrawChar (buf : Nat → BitVec 32) (w x y : BitVec 32) (c : BitVec 8) (color : BitVec 32) :
    Nat → BitVec 32 :=
  if c ≥ 128#8 then buf else fill buf (charPixels w x y c) color

/-- A space has no pixel, and neither has the character 0. -/
theorem not_hasPixel {c : BitVec 8} (hc : c = 0#8 ∨ c = 32#8) (i j : Nat) : ¬ HasPixel c i j := by
  have hrow : fontRow c i = 0 := by
    rcases hc with rfl | rfl
    · rfl
    · have hlookup : font8x8Basic.lookup (32#8).toNat = some (List.replicate 8 0) := rfl
      rw [fontRow, hlookup, Option.bind_some, List.getElem?_replicate]
      split <;> rfl
  rintro ⟨_, hbit⟩
  rw [hrow, Nat.zero_testBit] at hbit
  exact Bool.false_ne_true hbit

section Block

variable {w x y : BitVec 32} {row col h : Nat}

/-- The coordinates of a block do not wrap around where the block is in a raster of less than `2 ^ 32`
pixels. -/
theorem block_toNat (hx : x.toNat = col * 8) (hy : y.toNat = row * 8) (hw : col * 8 + 8 ≤ w.toNat)
    (hh : row * 8 + 8 ≤ h) (hmem : w.toNat * h < 2 ^ 32) {i j : Nat} (hi : i < 8) (hj : j < 8) :
    (x + BitVec.ofNat 32 j).toNat = col * 8 + j ∧ (y + BitVec.ofNat 32 i).toNat = row * 8 + i ∧
      ((y + BitVec.ofNat 32 i) * w + (x + BitVec.ofNat 32 j)).toNat =
        (row * 8 + i) * w.toNat + (col * 8 + j) := by
  have hle : h ≤ w.toNat * h := Nat.le_mul_of_pos_left h (by omega)
  have hrows : (row * 8 + i + 1) * w.toNat ≤ h * w.toNat := Nat.mul_le_mul_right _ (by omega)
  rw [Nat.add_mul, Nat.one_mul, Nat.mul_comm h] at hrows
  have hpx : (x + BitVec.ofNat 32 j).toNat = col * 8 + j := by
    rw [BitVec.toNat_add, BitVec.toNat_ofNat, hx]
    have := w.isLt
    omega
  have hpy : (y + BitVec.ofNat 32 i).toNat = row * 8 + i := by
    rw [BitVec.toNat_add, BitVec.toNat_ofNat, hy]
    omega
  refine ⟨hpx, hpy, ?_⟩
  rw [BitVec.toNat_add, BitVec.toNat_mul, hpx, hpy, Nat.mod_add_mod]
  exact Nat.mod_eq_of_lt (by omega)

/-- **`graphics_draw_char`** sets the pixels of the glyph, in the block of the character. -/
theorem graphicsDrawChar_apply (hx : x.toNat = col * 8) (hy : y.toNat = row * 8)
    (hw : col * 8 + 8 ≤ w.toNat) (hh : row * 8 + 8 ≤ h) (hmem : w.toNat * h < 2 ^ 32)
    (buf : Nat → BitVec 32) (c : BitVec 8) (color : BitVec 32) (p : Nat) :
    graphicsDrawChar buf w x y c color p =
      if InCell w.toNat 8 row col p ∧ HasPixel c (p / w.toNat % 8) (p % w.toNat % 8) then color
      else buf p := by
  rw [graphicsDrawChar]
  split
  · rename_i hc
    rw [if_neg fun h => BitVec.not_lt.mpr hc h.2.1]
  · rename_i hc
    rw [fill_apply]
    refine if_congr ?_ rfl rfl
    rw [charPixels, List.reduceOption_mem_iff, mem_grid]
    constructor
    · rintro ⟨i, hi, j, hj, hp⟩
      obtain ⟨_, _, hindex⟩ := block_toNat hx hy hw hh hmem hi hj
      -- a dot of the glyph is a bit of its row
      simp only [Option.ite_none_right_eq_some, Option.some.injEq] at hp
      rw [hindex, dot_eq_iff hi hj (by omega)] at hp
      obtain ⟨⟨hbit, _⟩, hcell, rfl, rfl⟩ := hp
      exact ⟨hcell, BitVec.not_le.mp hc, hbit⟩
    -- conversely the place in the cell says which dot it is
    · rintro ⟨hcell, _, hbit⟩
      have hi : p / w.toNat % 8 < 8 := Nat.mod_lt _ (by omega)
      have hj : p % w.toNat % 8 < 8 := Nat.mod_lt _ (by omega)
      obtain ⟨hpx, _, hindex⟩ := block_toNat hx hy hw hh hmem hi hj
      refine ⟨_, hi, _, hj, ?_⟩
      simp only [Option.ite_none_right_eq_some, Option.some.injEq]
      refine ⟨⟨hbit, BitVec.lt_def.mpr (by omega)⟩, ?_⟩
      rw [hindex]
      exact (dot_eq_iff hi hj (by omega)).mpr ⟨hcell, rfl, rfl⟩

end Block

end ZohoOs
