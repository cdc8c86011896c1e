import ZohoOs.Lib.Raster
import ZohoOs.Window.BufferSize

/-!
# The backbuffer

`graphics.c`: the geometry of the framebuffer, and what draws into the backbuffer.

## Main definitions

* `Graphics`: the state, with the backbuffer by index
* `clipRect`, `graphicsPutPixel`, `graphicsClearRect`
* `PutPixel`, `graphicsDrawRect`: a call that puts a pixel, and the calls that draw a rectangle
* `Graphics.pixel`: the pixel at a place of the screen

## Main results

* `pixel_graphicsPutPixel`, `pixel_graphicsClearRect`: what they do to each pixel of the screen
* `pixel_putAll`: the last call that puts a pixel decides
-/

namespace ZohoOs

open LastWrite Raster

/-- The state of `graphics.c`. The backbuffer is `NULL` where `kmalloc` failed. -/
structure Graphics where
  fbAddr : BitVec 64
  backbuffer : Option (Nat → BitVec 32)
  fbWidth : BitVec 32
  fbHeight : BitVec 32
  fbPitch : BitVec 32

/-- `clip_rect`: the rectangle it leaves where it returns 1. -/
def clipRect (g : Graphics) (rect : Rect) : Option Rect :=
  let x := if rect.x < 0 then 0 else rect.x
  let y := if rect.y < 0 then 0 else rect.y
  let x₂ := if rect.right > g.fbWidth.toInt then g.fbWidth.toInt else rect.right
  let y₂ := if rect.bottom > g.fbHeight.toInt then g.fbHeight.toInt else rect.bottom
  let w := int32 (x₂ - x)
  let h := int32 (y₂ - y)
  if w > 0 ∧ h > 0 then some ⟨x, y, w, h⟩ else none

/-- `backbuffer[index] = color`. -/
def Graphics.store (g : Graphics) (index : Nat) (color : BitVec 32) : Graphics :=
  { g with backbuffer := g.backbuffer.map fun b => Function.update b index color }

/-- `graphics_put_pixel`. -/
def graphicsPutPixel (x y color : BitVec 32) (g : Graphics) : Graphics :=
  if x < g.fbWidth ∧ y < g.fbHeight then g.store (y * g.fbWidth + x).toNat color else g

/-- The same colour at many indices. -/
def Graphics.storeAll (g : Graphics) (indices : List Nat) (color : BitVec 32) : Graphics :=
  indices.foldl (fun g index => g.store index color) g

/-- The index `graphics_clear_rect` writes to, in row `py` and column `px` of a rectangle. -/
def clearIndex (g : Graphics) (rect : Rect) (py px : Nat) : BitVec 64 :=
  BitVec.ofInt 64 (int32 (rect.y + py)) * g.fbWidth.setWidth 64 + BitVec.ofInt 64 rect.x +
    BitVec.ofNat 64 px

/-- `graphics_clear_rect`. -/
def graphicsClearRect (rect : Rect) (color : BitVec 32) (g : Graphics) : Graphics :=
  match clipRect g rect with
  | none => g
  | some rect =>
    g.storeAll (grid rect.w.toNat rect.h.toNat fun py px => (clearIndex g rect py px).toNat) color

/-- A call of `graphics_put_pixel`. -/
structure PutPixel where
  x : BitVec 32
  y : BitVec 32
  color : BitVec 32
  deriving DecidableEq

def PutPixel.run (p : PutPixel) (g : Graphics) : Graphics := graphicsPutPixel p.x p.y p.color g

/-- The calls of `graphics_put_pixel` that `graphics_draw_rect` makes. -/
def graphicsDrawRect (x y w h color : BitVec 32) : List PutPixel :=
  grid w.toNat h.toNat fun i j => ⟨x + BitVec.ofNat 32 j, y + BitVec.ofNat 32 i, color⟩

/-! ## Pixels of the screen -/

/-- The backbuffer that `graphics_init` allocates, of `fb_pitch * fb_height` bytes in 32 bits, has room
for the pixels of the screen. -/
def Graphics.Holds (g : Graphics) : Prop :=
  4 * (g.fbWidth.toNat * g.fbHeight.toNat) ≤ (g.fbPitch * g.fbHeight).toNat

/-- The pixel at a place of the screen. -/
def Graphics.pixel (g : Graphics) (x y : Nat) : Option (BitVec 32) :=
  g.backbuffer.map fun b => b (y * g.fbWidth.toNat + x)

/-- The place is on the screen. -/
def Graphics.Shows (g : Graphics) (x y : Nat) : Prop := x < g.fbWidth.toNat ∧ y < g.fbHeight.toNat

/-- The two screens have the same geometry. -/
structure Graphics.SameGeometry (g g' : Graphics) : Prop where
  fbWidth : g'.fbWidth = g.fbWidth
  fbHeight : g'.fbHeight = g.fbHeight
  fbPitch : g'.fbPitch = g.fbPitch

section Pixels

variable {g g' g'' : Graphics} {x y x' y' : Nat}

theorem Graphics.SameGeometry.refl (g : Graphics) : g.SameGeometry g := ⟨rfl, rfl, rfl⟩

theorem Graphics.SameGeometry.trans (h : g.SameGeometry g') (h' : g'.SameGeometry g'') :
    g.SameGeometry g'' :=
  ⟨h'.fbWidth.trans h.fbWidth, h'.fbHeight.trans h.fbHeight, h'.fbPitch.trans h.fbPitch⟩

theorem Graphics.SameGeometry.holds (h : g.SameGeometry g') (hg : g.Holds) : g'.Holds := by
  rw [Graphics.Holds, h.fbWidth, h.fbHeight, h.fbPitch]
  exact hg

theorem Graphics.SameGeometry.shows (h : g.SameGeometry g') : g'.Shows x y ↔ g.Shows x y := by
  rw [Graphics.Shows, Graphics.Shows, h.fbWidth, h.fbHeight]

theorem Graphics.store_geometry (g : Graphics) (index : Nat) (color : BitVec 32) :
    g.SameGeometry (g.store index color) := ⟨rfl, rfl, rfl⟩

/-- The index of a place of the screen. -/
theorem Graphics.Shows.index_lt (h : g.Shows x y) :
    y * g.fbWidth.toNat + x < g.fbWidth.toNat * g.fbHeight.toNat := by
  obtain ⟨hx, hy⟩ := h
  have hrow : (y + 1) * g.fbWidth.toNat ≤ g.fbHeight.toNat * g.fbWidth.toNat :=
    Nat.mul_le_mul_right _ hy
  rw [Nat.mul_comm g.fbWidth.toNat]
  rw [Nat.succ_mul] at hrow
  omega

theorem Graphics.Holds.screen_lt (h : g.Holds) : g.fbWidth.toNat * g.fbHeight.toNat < 2 ^ 30 := by
  have hlt := (g.fbPitch * g.fbHeight).isLt
  rw [Graphics.Holds] at h
  omega

/-- Two places of the screen have two indices. -/
theorem Graphics.Shows.index_inj (h : g.Shows x y) (h' : g.Shows x' y') :
    y' * g.fbWidth.toNat + x' = y * g.fbWidth.toNat + x ↔ (x', y') = (x, y) := by
  have hpos : 0 < g.fbWidth.toNat := Nat.lt_of_le_of_lt (Nat.zero_le x) h.1
  constructor
  · intro he
    -- row and column are the quotient and the remainder of the index
    have hdiv := congrArg (· / g.fbWidth.toNat) he
    have hmod := congrArg (· % g.fbWidth.toNat) he
    simp only [Nat.mul_comm _ g.fbWidth.toNat, Nat.mul_add_div hpos, Nat.div_eq_of_lt h.1,
      Nat.div_eq_of_lt h'.1, Nat.add_zero] at hdiv
    simp only [Nat.mul_comm _ g.fbWidth.toNat, Nat.mul_add_mod, Nat.mod_eq_of_lt h.1,
      Nat.mod_eq_of_lt h'.1] at hmod
    rw [hdiv, hmod]
  · intro he
    obtain ⟨rfl, rfl⟩ := Prod.mk.inj he
    rfl

/-- Writing the pixel of a place changes no other. -/
theorem pixel_store (h : g.Shows x y) (h' : g.Shows x' y') (color : BitVec 32) :
    (g.store (y' * g.fbWidth.toNat + x') color).pixel x y =
      if (x', y') = (x, y) then (g.pixel x y).map fun _ => color else g.pixel x y := by
  simp only [Graphics.pixel, Graphics.store, Option.map_map]
  cases g.backbuffer with
  | none => simp
  | some b =>
    simp only [Option.map_some, Function.comp_apply, Function.update_apply]
    split
    · rename_i he
      rw [if_pos ((h.index_inj h').mp he.symm)]
    · rename_i hne
      rw [if_neg fun he => hne ((h.index_inj h').mpr he).symm]

/-- **`graphics_put_pixel`** sets the pixel of its place, and no other. -/
theorem pixel_graphicsPutPixel (hg : g.Holds) (h : g.Shows x y) (px py color : BitVec 32) :
    (graphicsPutPixel px py color g).pixel x y =
      if (px.toNat, py.toNat) = (x, y) then (g.pixel x y).map fun _ => color else g.pixel x y := by
  rw [graphicsPutPixel]
  split
  · rename_i hin
    have h' : g.Shows px.toNat py.toNat := hin
    have hlt := h'.index_lt
    have hscreen := hg.screen_lt
    -- the backbuffer holds the screen, so the index of a place does not wrap around
    have hindex : (py * g.fbWidth + px).toNat = py.toNat * g.fbWidth.toNat + px.toNat := by
      rw [BitVec.toNat_add, BitVec.toNat_mul, Nat.mod_add_mod, Nat.mod_eq_of_lt (by omega)]
    rw [hindex]
    exact pixel_store h h' color
  · rename_i hout
    rw [if_neg]
    intro he
    obtain ⟨rfl, rfl⟩ := Prod.mk.inj he
    exact hout h

theorem graphicsPutPixel_geometry (px py color : BitVec 32) (g : Graphics) :
    g.SameGeometry (graphicsPutPixel px py color g) := by
  rw [graphicsPutPixel]
  split
  · exact g.store_geometry _ _
  · exact Graphics.SameGeometry.refl g

/-! ## Many calls -/

/-- The place a call is for. -/
def PutPixel.place (p : PutPixel) : Nat × Nat := (p.x.toNat, p.y.toNat)

/-- Calls of `graphics_put_pixel`, one after another. -/
def Graphics.putAll (g : Graphics) (calls : List PutPixel) : Graphics :=
  calls.foldl (fun g p => p.run g) g

theorem putAll_geometry (calls : List PutPixel) (g : Graphics) : g.SameGeometry (g.putAll calls) := by
  induction calls generalizing g with
  | nil => exact Graphics.SameGeometry.refl g
  | cons p calls ih => exact (graphicsPutPixel_geometry p.x p.y p.color g).trans (ih _)

/-- **The last call for a place** decides about its pixel. -/
theorem pixel_putAll (hg : g.Holds) (h : g.Shows x y) (calls : List PutPixel) :
    (g.putAll calls).pixel x y = (lastWrite PutPixel.place calls (x, y)).elim (g.pixel x y)
      fun p => (g.pixel x y).map fun _ => p.color := by
  induction calls using List.reverseRecOn with
  | nil => rfl
  | append_singleton calls p ih =>
    have hsame := putAll_geometry calls g
    have hlast : g.putAll (calls ++ [p]) = p.run (g.putAll calls) := by
      rw [Graphics.putAll, List.foldl_append]
      rfl
    rw [hlast, PutPixel.run, pixel_graphicsPutPixel (hsame.holds hg) (hsame.shows.mpr h), ih,
      lastWrite_concat]
    by_cases hp : p.place = (x, y)
    · rw [if_pos hp, if_pos (show (p.x.toNat, p.y.toNat) = (x, y) from hp)]
      -- the call covers what the earlier ones wrote there
      cases lastWrite PutPixel.place calls (x, y) with
      | none => rfl
      | some p' => simp only [Option.elim_some, Option.map_map, Function.comp_def]
    · rw [if_neg hp, if_neg (show (p.x.toNat, p.y.toNat) ≠ (x, y) from hp)]

end Pixels

/-! ## Rectangles on the screen -/

/-- A rectangle on the screen has the place. -/
def Rect.Has (rect : Rect) (x y : Nat) : Prop := ((x : Int), (y : Int)) ∈ rect.pixels

instance (rect : Rect) (x y : Nat) : Decidable (rect.Has x y) := inferInstanceAs (Decidable (_ ∈ _))

section Rectangles

variable {g : Graphics} {rect : Rect} {x y : Nat}

theorem toInt_of_nonneg {n : BitVec 32} (h : 0 ≤ n.toInt) : n.toInt = n.toNat := by
  have hlt := n.isLt
  rw [BitVec.toInt_eq_toNat_cond] at h ⊢
  split at h <;> omega

/-- The rectangle is on the screen. -/
abbrev Graphics.Inside (g : Graphics) (rect : Rect) : Prop :=
  Rect.OnScreen (screenRect g.fbWidth g.fbHeight) rect

/-- What is on the screen is not clipped. -/
theorem clipRect_inside (h : g.Inside rect) : clipRect g rect = some rect := by
  have hfits := h.fits (screenRect_fits _ _) rfl rfl
  have hright := hfits.right
  have hbottom := hfits.bottom
  obtain ⟨hx, hy, hw, hh, hright', hbottom'⟩ := h
  simp only [screenRect] at hright' hbottom'
  simp only [IsInt32] at hright hbottom
  -- the corners are cut back to themselves, so the sizes come out as they were
  have hwidth : int32 (rect.x + rect.w - rect.x) = rect.w := by
    rw [add_sub_cancel_left]
    exact int32_eq ⟨by omega, by omega⟩
  have hheight : int32 (rect.y + rect.h - rect.y) = rect.h := by
    rw [add_sub_cancel_left]
    exact int32_eq ⟨by omega, by omega⟩
  simp only [clipRect, hfits.right_eq, hfits.bottom_eq, if_neg (not_lt.mpr hx), if_neg (not_lt.mpr hy),
    if_neg (not_lt.mpr hright'), if_neg (not_lt.mpr hbottom'), hwidth, hheight]
  exact if_pos ⟨hw, hh⟩

/-- The places of a rectangle on the screen, by row and column. -/
theorem Graphics.Inside.place (h : g.Inside rect) {i j : Nat} (hi : i < rect.h.toNat)
    (hj : j < rect.w.toNat) :
    g.Shows (rect.x.toNat + j) (rect.y.toNat + i) ∧ rect.x.toNat + j < 2 ^ 31 ∧
      rect.y.toNat + i < 2 ^ 31 := by
  obtain ⟨hx, hy, hw, hh, hright, hbottom⟩ := h
  simp only [screenRect] at hright hbottom
  have hwidth := BitVec.toInt_lt (x := g.fbWidth)
  have hheight := BitVec.toInt_lt (x := g.fbHeight)
  have hnat := toInt_of_nonneg (n := g.fbWidth) (by omega)
  have hnat' := toInt_of_nonneg (n := g.fbHeight) (by omega)
  refine ⟨⟨?_, ?_⟩, ?_, ?_⟩ <;> omega

theorem Rect.Has.iff (h : g.Inside rect) : rect.Has x y ↔
    ∃ i < rect.h.toNat, ∃ j < rect.w.toNat, (rect.x.toNat + j, rect.y.toNat + i) = (x, y) := by
  obtain ⟨hx, hy, hw, hh, -, -⟩ := h
  rw [Rect.Has, Rect.mem_pixels]
  constructor
  · rintro ⟨⟨hleft, hright⟩, htop, hbottom⟩
    exact ⟨y - rect.y.toNat, by omega, x - rect.x.toNat, by omega, by ext <;> omega⟩
  · rintro ⟨i, hi, j, hj, he⟩
    obtain ⟨rfl, rfl⟩ := Prod.mk.inj he
    omega

/-- The places of a rectangle on the screen are on the screen. -/
theorem Rect.Has.shows (h : g.Inside rect) (hp : rect.Has x y) : g.Shows x y := by
  obtain ⟨i, hi, j, hj, he⟩ := (Rect.Has.iff h).mp hp
  obtain ⟨rfl, rfl⟩ := Prod.mk.inj he
  exact (h.place hi hj).1

theorem clearIndex_toNat (h : g.Inside rect) {py px : Nat} (hi : py < rect.h.toNat)
    (hj : px < rect.w.toNat) : (clearIndex g rect py px).toNat =
      (rect.y.toNat + py) * g.fbWidth.toNat + (rect.x.toNat + px) := by
  obtain ⟨-, hcol, hrow⟩ := h.place hi hj
  have hx : rect.x = rect.x.toNat := (Int.toNat_of_nonneg h.left).symm
  have hy : int32 (rect.y + py) = (rect.y.toNat + py : Nat) := by
    have hsum : rect.y + py = ((rect.y.toNat + py : Nat) : Int) := by
      have := h.top
      omega
    rw [hsum]
    exact int32_eq ⟨by omega, by omega⟩
  have hindex := bufferIndex_toNat g.fbWidth hrow (show rect.x.toNat < 2 ^ 31 by omega)
  have hmul : (rect.y.toNat + py) * g.fbWidth.toNat < 2 ^ 31 * 2 ^ 32 :=
    Nat.mul_lt_mul_of_lt_of_lt hrow g.fbWidth.isLt
  rw [clearIndex, hy, hx, BitVec.toNat_add, hindex, BitVec.toNat_ofNat,
    Nat.mod_eq_of_lt (by omega : px < 2 ^ 64), Nat.mod_eq_of_lt (by omega), ← hx, Nat.add_assoc]

theorem pixel_storeAll (indices : List Nat) (color : BitVec 32) :
    (g.storeAll indices color).pixel x y =
      if y * g.fbWidth.toNat + x ∈ indices then (g.pixel x y).map fun _ => color
      else g.pixel x y := by
  induction indices generalizing g with
  | nil => rfl
  | cons index indices ih =>
    have hfirst : (g.store index color).pixel x y =
        if index = y * g.fbWidth.toNat + x then (g.pixel x y).map fun _ => color
        else g.pixel x y := by
      simp only [Graphics.pixel, Graphics.store, Option.map_map, Function.comp_def,
        Function.update_apply, eq_comm (a := index)]
      split <;> rfl
    have hrest : (g.storeAll (index :: indices) color).pixel x y =
        if y * g.fbWidth.toNat + x ∈ indices then ((g.store index color).pixel x y).map fun _ => color
        else (g.store index color).pixel x y := ih
    rw [hrest, hfirst]
    by_cases hindex : index = y * g.fbWidth.toNat + x
    · rw [if_pos hindex, if_pos (List.mem_cons.mpr (Or.inl hindex.symm)), Option.map_map]
      split <;> rfl
    · rw [if_neg hindex]
      exact if_congr (by rw [List.mem_cons, or_iff_right (Ne.symm hindex)]) rfl rfl

theorem storeAll_geometry (indices : List Nat) (color : BitVec 32) (g : Graphics) :
    g.SameGeometry (g.storeAll indices color) := by
  induction indices generalizing g with
  | nil => exact Graphics.SameGeometry.refl g
  | cons index indices ih => exact (g.store_geometry index color).trans (ih _)

theorem graphicsClearRect_geometry (rect : Rect) (color : BitVec 32) (g : Graphics) :
    g.SameGeometry (graphicsClearRect rect color g) := by
  unfold graphicsClearRect
  split
  · exact Graphics.SameGeometry.refl g
  · exact storeAll_geometry _ color g

theorem graphicsClearRect_eq (h : g.Inside rect) (color : BitVec 32) :
    graphicsClearRect rect color g = g.storeAll
      (grid rect.w.toNat rect.h.toNat fun py px => (clearIndex g rect py px).toNat) color := by
  have hclip := clipRect_inside h
  unfold graphicsClearRect
  generalize clipRect g rect = clipped at hclip ⊢
  subst hclip
  rfl

/-- **`graphics_clear_rect`** sets the pixels of the rectangle, and no other. -/
theorem pixel_graphicsClearRect (h : g.Inside rect) (hshows : g.Shows x y) (color : BitVec 32) :
    (graphicsClearRect rect color g).pixel x y =
      if rect.Has x y then (g.pixel x y).map fun _ => color else g.pixel x y := by
  rw [graphicsClearRect_eq h, pixel_storeAll]
  refine if_congr ?_ rfl rfl
  rw [mem_grid, Rect.Has.iff h]
  refine exists_congr fun i => and_congr_right fun hi => exists_congr fun j =>
    and_congr_right fun hj => ?_
  rw [clearIndex_toNat h hi hj]
  exact hshows.index_inj (h.place hi hj).1

/-- **Calls along a rectangle**, one for each of its places: one of them is for a place of the rectangle,
and none for another. -/
theorem calls_at (h : g.Inside rect) {f : Nat → Nat → PutPixel} (color : Nat → Nat → BitVec 32)
    (hf : ∀ i < rect.h.toNat, ∀ j < rect.w.toNat, f i j =
      ⟨BitVec.ofNat 32 (rect.x.toNat + j), BitVec.ofNat 32 (rect.y.toNat + i),
        color (rect.x.toNat + j) (rect.y.toNat + i)⟩) :
    (grid rect.w.toNat rect.h.toNat f).filter (fun p => p.place = (x, y)) =
      if rect.Has x y then [⟨BitVec.ofNat 32 x, BitVec.ofNat 32 y, color x y⟩] else [] := by
  have hplace : ∀ i < rect.h.toNat, ∀ j < rect.w.toNat,
      (f i j).place = (rect.x.toNat + j, rect.y.toNat + i) := by
    intro i hi j hj
    obtain ⟨-, hcol, hrow⟩ := h.place hi hj
    rw [hf i hi j hj, PutPixel.place, BitVec.toNat_ofNat, BitVec.toNat_ofNat,
      Nat.mod_eq_of_lt (by omega), Nat.mod_eq_of_lt (by omega)]
  by_cases hp : rect.Has x y
  · obtain ⟨i, hi, j, hj, he⟩ := (Rect.Has.iff h).mp hp
    obtain ⟨rfl, rfl⟩ := Prod.mk.inj he
    rw [if_pos hp, filter_grid (a := i) (b := j), if_pos ⟨hi, hj⟩, hf i hi j hj]
    intro i' hi' j' hj'
    rw [decide_eq_true_iff, hplace i' hi' j' hj', Prod.mk.injEq]
    omega
  · rw [if_neg hp, List.filter_eq_nil_iff]
    intro p hcall
    obtain ⟨i, hi, j, hj, rfl⟩ := mem_grid.mp hcall
    rw [decide_eq_true_iff, hplace i hi j hj]
    exact fun he => hp ((Rect.Has.iff h).mpr ⟨i, hi, j, hj, he⟩)

theorem ofInt_eq_ofNat {n : Int} (hn : 0 ≤ n) : BitVec.ofInt 32 n = BitVec.ofNat 32 n.toNat := by
  obtain ⟨m, rfl⟩ := Int.eq_ofNat_of_zero_le hn
  exact BitVec.ofInt_natCast 32 m

/-- **`graphics_draw_rect`** has one call for each place of the rectangle, and no other. -/
theorem graphicsDrawRect_at (h : g.Inside rect) (color : BitVec 32) :
    (graphicsDrawRect (BitVec.ofInt 32 rect.x) (BitVec.ofInt 32 rect.y) (BitVec.ofInt 32 rect.w)
      (BitVec.ofInt 32 rect.h) color).filter (fun p => p.place = (x, y)) =
        if rect.Has x y then [⟨BitVec.ofNat 32 x, BitVec.ofNat 32 y, color⟩] else [] := by
  have hfits := h.fits (screenRect_fits _ _) rfl rfl
  have hright := hfits.right
  have hbottom := hfits.bottom
  simp only [IsInt32] at hright hbottom
  have hleft := h.left
  have htop := h.top
  have hw : (BitVec.ofInt 32 rect.w).toNat = rect.w.toNat := by
    rw [ofInt_eq_ofNat h.width.le, BitVec.toNat_ofNat]
    exact Nat.mod_eq_of_lt (by omega)
  have hh : (BitVec.ofInt 32 rect.h).toNat = rect.h.toNat := by
    rw [ofInt_eq_ofNat h.height.le, BitVec.toNat_ofNat]
    exact Nat.mod_eq_of_lt (by omega)
  rw [graphicsDrawRect, hw, hh]
  refine calls_at h (fun _ _ => color) fun i _ j _ => ?_
  rw [ofInt_eq_ofNat hleft, ofInt_eq_ofNat htop, BitVec.ofNat_add, BitVec.ofNat_add]

end Rectangles

end ZohoOs
