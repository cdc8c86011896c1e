import Mathlib.Data.Set.Basic
import Mathlib.Data.List.Basic
import Mathlib.Tactic.Common
import ZohoOs.Lib.Indices

/-!
# Rectangles of the window manager

`rect_t` and its operations in `window.c`, with the pixels a rectangle stands for.

## Main definitions

* `int32`: 32-bit signed arithmetic
* `rectUnion`, `rectIntersect`: the bounding box of two rectangles, and what they share
* `Rect.pixels`: the pixels of a rectangle

## Main results

* `mem_pixels_rectIntersect`: the pixels two rectangles share
* `Rect.OnScreen.mem_rectUnion`: the bounding box has the pixels of both
-/

namespace ZohoOs

/-- The value a 32-bit signed integer holds. -/
def int32 (n : Int) : Int := n.bmod (2 ^ 32)

/-- A value of a 32-bit signed integer. -/
def IsInt32 (n : Int) : Prop := -2 ^ 31 ≤ n ∧ n < 2 ^ 31

theorem int32_eq {n : Int} (h : IsInt32 n) : int32 n = n := by
  obtain ⟨hlo, hhi⟩ := h
  exact Int.bmod_eq_of_le_mul_two (by omega) (by omega)

/-- `rect_t`. -/
structure Rect where
  x : Int
  y : Int
  w : Int
  h : Int
  deriving DecidableEq

/-- `a.x + a.w`. -/
def Rect.right (a : Rect) : Int := int32 (a.x + a.w)

/-- `a.y + a.h`. -/
def Rect.bottom (a : Rect) : Int := int32 (a.y + a.h)

/-- `rect_union`. -/
def rectUnion (a b : Rect) : Rect :=
  let x₁ := if a.x < b.x then a.x else b.x
  let y₁ := if a.y < b.y then a.y else b.y
  let x₂ := if a.right > b.right then a.right else b.right
  let y₂ := if a.bottom > b.bottom then a.bottom else b.bottom
  ⟨x₁, y₁, int32 (x₂ - x₁), int32 (y₂ - y₁)⟩

/-- `rect_intersect`: the rectangle it stores where it returns 1. -/
def rectIntersect (a b : Rect) : Option Rect :=
  let x₁ := if a.x > b.x then a.x else b.x
  let y₁ := if a.y > b.y then a.y else b.y
  let x₂ := if a.right < b.right then a.right else b.right
  let y₂ := if a.bottom < b.bottom then a.bottom else b.bottom
  if x₂ ≤ x₁ || y₂ ≤ y₁ then none else some ⟨x₁, y₁, int32 (x₂ - x₁), int32 (y₂ - y₁)⟩

/-- `screen_rect`, of the width and height of the framebuffer. -/
def screenRect (width height : BitVec 32) : Rect := ⟨0, 0, width.toInt, height.toInt⟩

/-! ## Pixels -/

/-- The pixels of a rectangle. -/
def Rect.pixels (r : Rect) : Set (Int × Int) :=
  {p | (r.x ≤ p.1 ∧ p.1 < r.x + r.w) ∧ r.y ≤ p.2 ∧ p.2 < r.y + r.h}

theorem Rect.mem_pixels {r : Rect} {p : Int × Int} :
    p ∈ r.pixels ↔ (r.x ≤ p.1 ∧ p.1 < r.x + r.w) ∧ r.y ≤ p.2 ∧ p.2 < r.y + r.h := Iff.rfl

instance (r : Rect) (p : Int × Int) : Decidable (p ∈ r.pixels) :=
  inferInstanceAs (Decidable ((_ ∧ _) ∧ _ ∧ _))

/-- The fields of a rectangle and its far corner are 32-bit integers. -/
structure Rect.Fits (r : Rect) : Prop where
  x : IsInt32 r.x
  y : IsInt32 r.y
  right : IsInt32 (r.x + r.w)
  bottom : IsInt32 (r.y + r.h)

/-- A rectangle with a pixel, none of them at a negative coordinate. -/
structure Rect.OnScreen (screen r : Rect) : Prop where
  left : 0 ≤ r.x
  top : 0 ≤ r.y
  width : 0 < r.w
  height : 0 < r.h
  right : r.x + r.w ≤ screen.w
  bottom : r.y + r.h ≤ screen.h

section Pixels

variable {a b c : Rect}

theorem Rect.Fits.right_eq (h : a.Fits) : a.right = a.x + a.w := int32_eq h.right

theorem Rect.Fits.bottom_eq (h : a.Fits) : a.bottom = a.y + a.h := int32_eq h.bottom

theorem screenRect_fits (width height : BitVec 32) : (screenRect width height).Fits := by
  have hw := BitVec.toInt_lt (x := width)
  have hw' := BitVec.le_toInt width
  have hh := BitVec.toInt_lt (x := height)
  have hh' := BitVec.le_toInt height
  constructor <;> simp only [IsInt32, screenRect] <;> omega

theorem ite_gt_eq_max (m n : Int) : (if m > n then m else n) = max m n := by
  split <;> omega

theorem ite_lt_eq_min (m n : Int) : (if m < n then m else n) = min m n := by
  split <;> omega

theorem Rect.OnScreen.fits {screen : Rect} (hscreen : screen.Fits) (hx : screen.x = 0)
    (hy : screen.y = 0) (h : Rect.OnScreen screen a) : a.Fits := by
  have := hscreen.right
  have := hscreen.bottom
  obtain ⟨_, _, _, _, _, _⟩ := h
  simp only [IsInt32] at *
  constructor <;> simp only [IsInt32] <;> omega

/-- Where both rectangles are free of overflow and one has no negative coordinate, the intersection
is the rectangle from the greater of the near corners to the lesser of the far ones. -/
theorem rectIntersect_of_fits (ha : a.Fits) (hb : b.Fits) (hx : 0 ≤ b.x) (hy : 0 ≤ b.y) :
    rectIntersect a b =
      if min (a.x + a.w) (b.x + b.w) ≤ max a.x b.x ∨ min (a.y + a.h) (b.y + b.h) ≤ max a.y b.y
      then none
      else some ⟨max a.x b.x, max a.y b.y, min (a.x + a.w) (b.x + b.w) - max a.x b.x,
        min (a.y + a.h) (b.y + b.h) - max a.y b.y⟩ := by
  simp only [rectIntersect, ha.right_eq, ha.bottom_eq, hb.right_eq, hb.bottom_eq, ite_gt_eq_max,
    ite_lt_eq_min, Bool.or_eq_true, decide_eq_true_eq]
  have hright := hb.right
  have hbottom := hb.bottom
  simp only [IsInt32] at hright hbottom
  split
  next => rfl
  next h =>
    rw [int32_eq ⟨by omega, by omega⟩, int32_eq ⟨by omega, by omega⟩]

/-- **The intersection has the pixels two rectangles share.** -/
theorem mem_pixels_rectIntersect (ha : a.Fits) (hb : b.Fits) (hx : 0 ≤ b.x) (hy : 0 ≤ b.y)
    (h : rectIntersect a b = some c) (p : Int × Int) :
    p ∈ c.pixels ↔ p ∈ a.pixels ∧ p ∈ b.pixels := by
  rw [rectIntersect_of_fits ha hb hx hy] at h
  split at h
  next => cases h
  next =>
    obtain rfl := Option.some.inj h
    simp only [Rect.mem_pixels]
    omega

/-- Rectangles that share no pixel do not intersect. -/
theorem notMem_of_rectIntersect_eq_none (ha : a.Fits) (hb : b.Fits) (hx : 0 ≤ b.x) (hy : 0 ≤ b.y)
    (h : rectIntersect a b = none) (p : Int × Int) (hp : p ∈ a.pixels) : p ∉ b.pixels := by
  rw [rectIntersect_of_fits ha hb hx hy] at h
  split at h
  next hsep =>
    simp only [Rect.mem_pixels] at hp ⊢
    omega
  next => cases h

/-- Clipping to the screen leaves a rectangle on it. -/
theorem onScreen_of_rectIntersect {width height : BitVec 32} (ha : a.Fits)
    (h : rectIntersect a (screenRect width height) = some c) :
    Rect.OnScreen (screenRect width height) c := by
  rw [rectIntersect_of_fits ha (screenRect_fits width height) le_rfl le_rfl] at h
  split at h
  next => cases h
  next hmeet =>
    obtain rfl := Option.some.inj h
    simp only [screenRect] at hmeet ⊢
    constructor <;> simp only <;> omega

/-- The bounding box of rectangles on the screen, without overflow. -/
theorem rectUnion_of_onScreen {width height : BitVec 32}
    (ha : Rect.OnScreen (screenRect width height) a)
    (hb : Rect.OnScreen (screenRect width height) b) :
    rectUnion a b = ⟨min a.x b.x, min a.y b.y, max (a.x + a.w) (b.x + b.w) - min a.x b.x,
      max (a.y + a.h) (b.y + b.h) - min a.y b.y⟩ := by
  have hscreen := screenRect_fits width height
  have hright := hscreen.right
  have hbottom := hscreen.bottom
  have hfa := ha.fits hscreen rfl rfl
  have hfb := hb.fits hscreen rfl rfl
  simp only [rectUnion, hfa.right_eq, hfa.bottom_eq, hfb.right_eq, hfb.bottom_eq, ite_gt_eq_max,
    ite_lt_eq_min]
  obtain ⟨_, _, _, _, _, _⟩ := ha
  obtain ⟨_, _, _, _, _, _⟩ := hb
  simp only [IsInt32, screenRect] at *
  rw [int32_eq ⟨by omega, by omega⟩, int32_eq ⟨by omega, by omega⟩]

theorem Rect.OnScreen.rectUnion {width height : BitVec 32}
    (ha : Rect.OnScreen (screenRect width height) a)
    (hb : Rect.OnScreen (screenRect width height) b) :
    Rect.OnScreen (screenRect width height) (rectUnion a b) := by
  rw [rectUnion_of_onScreen ha hb]
  obtain ⟨_, _, _, _, _, _⟩ := ha
  obtain ⟨_, _, _, _, _, _⟩ := hb
  constructor <;> simp only <;> omega

/-- **The bounding box has the pixels of both rectangles.** -/
theorem Rect.OnScreen.mem_rectUnion {width height : BitVec 32}
    (ha : Rect.OnScreen (screenRect width height) a)
    (hb : Rect.OnScreen (screenRect width height) b) {p : Int × Int}
    (hp : p ∈ a.pixels ∨ p ∈ b.pixels) : p ∈ (ZohoOs.rectUnion a b).pixels := by
  rw [rectUnion_of_onScreen ha hb]
  simp only [Rect.mem_pixels] at hp ⊢
  omega

end Pixels

end ZohoOs
