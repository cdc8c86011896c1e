import ZohoOs.Graphics.Framebuffer
import ZohoOs.Window.WindowCalls

/-!
# Drawing the windows

The drawing functions of `window.c`, as the calls of `graphics_put_pixel` they make, and the redraw loop
of `window_draw_all`, up to the cursor.

## Main definitions

* `drawRectClipped`, `drawWindowClipped`: the calls for one window, each with the part it draws
* `windowStrokes`: the calls for the windows of a snapshot, from the back to the front
* `redraw`: the redraw loop
* `Layer`, `windowLayers`: the parts of a window, without a clip rectangle

## Main results

* `windowStrokes_at`: what is drawn at a place does not depend on the clip rectangle
* `redraw_eq_full`: redrawing the dirty rectangles is redrawing the screen, inside them
-/

namespace ZohoOs

open LastWrite Raster

/-- What a window is drawn from. -/
inductive WindowPart
  | shadow
  | body
  | title
  | border
  deriving DecidableEq

/-- `draw_rect_clipped`. -/
def drawRectClipped (clip target : Rect) (color : BitVec 32) : List PutPixel :=
  match rectIntersect clip target with
  | none => []
  | some rect =>
    graphicsDrawRect (BitVec.ofInt 32 rect.x) (BitVec.ofInt 32 rect.y) (BitVec.ofInt 32 rect.w)
      (BitVec.ofInt 32 rect.h) color

/-- `draw_window_buffer_clipped`, with the pixels of the buffers at each address. -/
def drawWindowBufferClipped (buffers : Nat → BitVec 64 → BitVec 32) (clip : Rect) (win : Window) :
    List PutPixel :=
  if win.buffer = 0 then drawRectClipped clip (windowBody win) win.bgColor
  else (bufferReads clip win).map fun read =>
    ⟨BitVec.ofInt 32 read.x, BitVec.ofInt 32 read.y, buffers win.buffer read.index⟩

/-- `draw_window_clipped`. -/
def drawWindowClipped (buffers : Nat → BitVec 64 → BitVec 32) (clip : Rect) (win : Window) :
    List (WindowPart × PutPixel) :=
  let x := win.x.toInt
  let y := win.y.toInt
  let w := win.w.toInt
  let h := win.h.toInt
  (drawRectClipped clip
      ⟨int32 (x + windowShadowOffset), int32 (y + windowShadowOffset), w, h⟩ 0xAA000000).map
        (Prod.mk .shadow) ++
    (drawWindowBufferClipped buffers clip win).map (Prod.mk .body) ++
    (drawRectClipped clip ⟨x, y, w, windowTitleHeight⟩ win.titleColor).map (Prod.mk .title) ++
    (drawRectClipped clip ⟨x, y, w, 1⟩ 0xFFFFFFFF).map (Prod.mk .border) ++
    (drawRectClipped clip ⟨x, int32 (y + h - 1), w, 1⟩ 0xFFFFFFFF).map (Prod.mk .border) ++
    (drawRectClipped clip ⟨x, y, 1, h⟩ 0xFFFFFFFF).map (Prod.mk .border) ++
    (drawRectClipped clip ⟨int32 (x + w - 1), y, 1, h⟩ 0xFFFFFFFF).map (Prod.mk .border)

/-- The window that `draw_window_snapshot_clipped` makes of a snapshot. -/
def WindowSnapshot.window (snap : WindowSnapshot) : Window where
  id := 0
  x := snap.x
  y := snap.y
  w := snap.w
  h := snap.h
  titleColor := snap.titleColor
  bgColor := snap.bgColor
  buffer := snap.buffer
  ownerPid := 0
  dirty := false
  destroyed := false
  refcount := 0
  eventQueue _ := ⟨0, 0, 0, 0⟩
  eventHead := 0
  eventTail := 0
  next := 0

/-- A call of `graphics_put_pixel`, with the window and the part it is for. -/
structure Stroke where
  window : Nat
  part : WindowPart
  call : PutPixel

/-- The inner loop of `window_draw_all`: the windows of a snapshot, the last one first. -/
def windowStrokes (buffers : Nat → BitVec 64 → BitVec 32) (snaps : List WindowSnapshot) (clip : Rect) :
    List Stroke :=
  snaps.zipIdx.reverse.flatMap fun entry =>
    (drawWindowClipped buffers clip entry.1.window).map fun part => ⟨entry.2, part.1, part.2⟩

/-- `DESKTOP_COLOR`. -/
abbrev desktopColor : BitVec 32 := 0xFF112233

/-- One rectangle of the redraw loop. -/
def redrawRect (buffers : Nat → BitVec 64 → BitVec 32) (snaps : List WindowSnapshot) (g : Graphics)
    (rect : Rect) : Graphics :=
  (graphicsClearRect rect desktopColor g).putAll
    ((windowStrokes buffers snaps rect).map Stroke.call)

/-- The redraw loop of `window_draw_all`. -/
def redraw (buffers : Nat → BitVec 64 → BitVec 32) (snaps : List WindowSnapshot) (g : Graphics)
    (rects : List Rect) : Graphics := rects.foldl (redrawRect buffers snaps) g

/-! ## Layers -/

/-- A part of a window: the rectangle it fills, and its colour at each place. -/
structure Layer where
  part : WindowPart
  rect : Rect
  color : Nat → Nat → BitVec 32

/-- The colour of the body, at a place of the screen. -/
def bodyColor (buffers : Nat → BitVec 64 → BitVec 32) (win : Window) (x y : Nat) : BitVec 32 :=
  if win.buffer = 0 then win.bgColor
  else buffers win.buffer
    (BitVec.ofInt 64 (int32 (y - int32 (win.y.toInt + windowTitleHeight))) * win.w.setWidth 64 +
      BitVec.ofInt 64 (int32 (x - win.x.toInt)))

/-- The layers of a window, in the order in which they are drawn. -/
def windowLayers (buffers : Nat → BitVec 64 → BitVec 32) (win : Window) : List Layer :=
  let x := win.x.toInt
  let y := win.y.toInt
  let w := win.w.toInt
  let h := win.h.toInt
  [⟨.shadow, ⟨int32 (x + windowShadowOffset), int32 (y + windowShadowOffset), w, h⟩,
      fun _ _ => 0xAA000000⟩,
    ⟨.body, windowBody win, bodyColor buffers win⟩,
    ⟨.title, ⟨x, y, w, windowTitleHeight⟩, fun _ _ => win.titleColor⟩,
    ⟨.border, ⟨x, y, w, 1⟩, fun _ _ => 0xFFFFFFFF⟩,
    ⟨.border, ⟨x, int32 (y + h - 1), w, 1⟩, fun _ _ => 0xFFFFFFFF⟩,
    ⟨.border, ⟨x, y, 1, h⟩, fun _ _ => 0xFFFFFFFF⟩,
    ⟨.border, ⟨int32 (x + w - 1), y, 1, h⟩, fun _ _ => 0xFFFFFFFF⟩]

/-- The place is between the edges of the rectangle, as `rect_intersect` computes them. -/
def Rect.Spans (rect : Rect) (x y : Nat) : Prop :=
  (rect.x ≤ x ∧ x < rect.right) ∧ rect.y ≤ y ∧ y < rect.bottom

instance (rect : Rect) (x y : Nat) : Decidable (rect.Spans x y) :=
  inferInstanceAs (Decidable ((_ ∧ _) ∧ _ ∧ _))

/-- The call for a layer, at a place. -/
def Layer.stroke (window x y : Nat) (layer : Layer) : Stroke :=
  ⟨window, layer.part, ⟨BitVec.ofNat 32 x, BitVec.ofNat 32 y, layer.color x y⟩⟩

/-- The calls for the windows of a snapshot at a place, without a clip rectangle. -/
def strokesAt (buffers : Nat → BitVec 64 → BitVec 32) (snaps : List WindowSnapshot) (x y : Nat) :
    List Stroke :=
  snaps.zipIdx.reverse.flatMap fun entry =>
    ((windowLayers buffers entry.1.window).filter fun layer => layer.rect.Spans x y).map
      (Layer.stroke entry.2 x y)

section Clipping

variable {g : Graphics} {clip target rect : Rect} {x y : Nat}
  {buffers : Nat → BitVec 64 → BitVec 32} {win : Window}

/-- **Clipping to a rectangle on the screen** leaves a rectangle on the screen, with the places that both
have. The other rectangle may wrap around. -/
theorem rectIntersect_inside (h : g.Inside clip) (hmeet : rectIntersect clip target = some rect) :
    g.Inside rect ∧ rect.x = max clip.x target.x ∧ rect.y = max clip.y target.y ∧
      (rect.Has x y ↔ clip.Has x y ∧ target.Spans x y) := by
  have hfits := h.fits (screenRect_fits _ _) rfl rfl
  obtain ⟨hx, hy, rfl⟩ := rectIntersect_some_lt hmeet
  have hright := hfits.right
  have hbottom := hfits.bottom
  rw [hfits.right_eq] at hx ⊢
  rw [hfits.bottom_eq] at hy ⊢
  obtain ⟨hleft, htop, hw, hh, hright', hbottom'⟩ := h
  simp only [IsInt32] at hright hbottom
  rw [int32_eq ⟨by omega, by omega⟩, int32_eq ⟨by omega, by omega⟩]
  refine ⟨?_, rfl, rfl, ?_⟩
  · constructor <;> simp only <;> omega
  · simp only [Rect.Has, Rect.mem_pixels, Rect.Spans]
    omega

theorem rectIntersect_none (h : g.Inside clip) (hmeet : rectIntersect clip target = none)
    (hp : clip.Has x y) : ¬ target.Spans x y := by
  have hfits := h.fits (screenRect_fits _ _) rfl rfl
  simp only [rectIntersect, hfits.right_eq, hfits.bottom_eq, ite_gt_eq_max, ite_lt_eq_min,
    Bool.or_eq_true, decide_eq_true_eq] at hmeet
  split at hmeet
  · simp only [Rect.Has, Rect.mem_pixels, Rect.Spans] at hp ⊢
    omega
  · cases hmeet

/-- **A clipped rectangle** has one call for each place of the clip rectangle in it. -/
theorem drawRectClipped_at (h : g.Inside clip) (color : BitVec 32) :
    (drawRectClipped clip target color).filter (fun p => p.place = (x, y)) =
      if clip.Has x y ∧ target.Spans x y then [⟨BitVec.ofNat 32 x, BitVec.ofNat 32 y, color⟩]
      else [] := by
  unfold drawRectClipped
  split
  · rename_i hmeet
    rw [if_neg fun hc => rectIntersect_none h hmeet hc.1 hc.2]
    rfl
  · rename_i rect hmeet
    obtain ⟨hinside, -, -, hhas⟩ := rectIntersect_inside (x := x) (y := y) h hmeet
    rw [graphicsDrawRect_at hinside]
    exact if_congr hhas rfl rfl

/-- **The clipped body** too, with the pixel of the buffer that belongs to the place. -/
theorem drawWindowBufferClipped_at (buffers : Nat → BitVec 64 → BitVec 32) (win : Window)
    (h : g.Inside clip) :
    (drawWindowBufferClipped buffers clip win).filter (fun p => p.place = (x, y)) =
      if clip.Has x y ∧ (windowBody win).Spans x y then
        [⟨BitVec.ofNat 32 x, BitVec.ofNat 32 y, bodyColor buffers win x y⟩] else [] := by
  by_cases hbuffer : win.buffer = 0
  · rw [drawWindowBufferClipped, if_pos hbuffer, bodyColor, if_pos hbuffer]
    exact drawRectClipped_at h win.bgColor
  · rw [drawWindowBufferClipped, if_neg hbuffer, bodyColor, if_neg hbuffer]
    unfold bufferReads
    split
    · rename_i hmeet
      rw [if_neg fun hc => rectIntersect_none h hmeet hc.1 hc.2]
      rfl
    · rename_i rect hmeet
      obtain ⟨hinside, hx, hy, hhas⟩ := rectIntersect_inside (x := x) (y := y) h hmeet
      dsimp only
      refine Eq.trans ?_ (if_congr hhas rfl rfl)
      refine (congrArg (List.filter _) (map_grid rect.w.toNat rect.h.toNat _ _)).trans ?_
      refine calls_at hinside (fun x y => buffers win.buffer
        (BitVec.ofInt 64 (int32 (y - int32 (win.y.toInt + windowTitleHeight))) * win.w.setWidth 64 +
          BitVec.ofInt 64 (int32 (x - win.x.toInt)))) fun i hi j hj => ?_
      -- the offsets into the buffer are those of the place
      obtain ⟨-, hcol, hrow⟩ := hinside.place hi hj
      have hleft := hinside.left
      have htop := hinside.top
      have hcol' : rect.x + j = (rect.x.toNat + j : Nat) := by omega
      have hrow' : rect.y + i = (rect.y.toNat + i : Nat) := by omega
      have hplace : ∀ n : Nat, n < 2 ^ 31 → BitVec.ofInt 32 (int32 n) = BitVec.ofNat 32 n := by
        intro n hn
        rw [int32_eq ⟨by omega, by omega⟩, BitVec.ofInt_natCast]
      dsimp only
      rw [int32_int32_add, int32_int32_add, hcol', hrow', hplace _ hcol, hplace _ hrow,
        sub_add_eq_add_sub, sub_add_eq_add_sub, hcol', hrow']

/-- The calls for a part of a window, at a place. -/
theorem partCalls_at {calls : List PutPixel} (k : Nat) (layer : Layer)
    (hcalls : calls.filter (fun p => p.place = (x, y)) =
      if clip.Has x y ∧ layer.rect.Spans x y then
        [⟨BitVec.ofNat 32 x, BitVec.ofNat 32 y, layer.color x y⟩] else []) :
    ((calls.map (Prod.mk layer.part)).map fun part => Stroke.mk k part.1 part.2).filter
        (fun s => s.call.place = (x, y)) =
      if clip.Has x y then (if layer.rect.Spans x y then [layer.stroke k x y] else []) else [] := by
  have hmap : ((calls.map (Prod.mk layer.part)).map fun part => Stroke.mk k part.1 part.2).filter
      (fun s => s.call.place = (x, y)) =
        (calls.filter fun p => p.place = (x, y)).map (Stroke.mk k layer.part) := by
    rw [List.map_map, List.filter_map]
    rfl
  rw [hmap, hcalls, ite_and]
  split_ifs <;> rfl

/-- **A window is drawn at a place** as its layers say, where the place is in the clip rectangle, and not
at all elsewhere. -/
theorem drawWindowClipped_at (h : g.Inside clip) (k : Nat) :
    ((drawWindowClipped buffers clip win).map fun part => Stroke.mk k part.1 part.2).filter
        (fun s => s.call.place = (x, y)) =
      if clip.Has x y then ((windowLayers buffers win).filter fun layer => layer.rect.Spans x y).map
        (Layer.stroke k x y) else [] := by
  -- the strokes of a window are those of its layers, one layer after another
  have hlayers : ∀ layers : List Layer,
      (layers.filter fun layer => layer.rect.Spans x y).map (Layer.stroke k x y) =
        layers.flatMap fun layer => if layer.rect.Spans x y then [layer.stroke k x y] else [] := by
    intro layers
    induction layers with
    | nil => rfl
    | cons layer layers ih =>
      rw [List.flatMap_cons, ← ih]
      by_cases hspans : layer.rect.Spans x y
      · rw [List.filter_cons_of_pos (by simpa using hspans), if_pos hspans]
        rfl
      · rw [List.filter_cons_of_neg (by simpa using hspans), if_neg hspans]
        rfl
  -- a part in one colour is a layer that is clipped
  have hrect : ∀ (part : WindowPart) (target : Rect) (color : BitVec 32),
      (((drawRectClipped clip target color).map (Prod.mk part)).map
        fun part => Stroke.mk k part.1 part.2).filter (fun s => s.call.place = (x, y)) =
          if clip.Has x y then (if target.Spans x y then
            [Layer.stroke k x y ⟨part, target, fun _ _ => color⟩] else []) else [] :=
    fun part target color => partCalls_at k ⟨part, target, fun _ _ => color⟩
      (drawRectClipped_at h color)
  have hbody := partCalls_at k ⟨.body, windowBody win, bodyColor buffers win⟩
    (drawWindowBufferClipped_at buffers win (x := x) (y := y) h)
  rw [drawWindowClipped, hlayers]
  simp only [List.map_append, List.filter_append, hrect, hbody]
  by_cases hp : clip.Has x y
  · simp only [if_pos hp, windowLayers, List.flatMap_cons, List.flatMap_nil, List.append_nil,
      List.append_assoc]
  · simp only [if_neg hp, List.append_nil]

/-- **What is drawn at a place does not depend on the clip rectangle** the place is in. -/
theorem windowStrokes_at (buffers : Nat → BitVec 64 → BitVec 32) (h : g.Inside clip)
    (snaps : List WindowSnapshot) :
    (windowStrokes buffers snaps clip).filter (fun s => s.call.place = (x, y)) =
      if clip.Has x y then strokesAt buffers snaps x y else [] := by
  rw [windowStrokes, strokesAt, List.filter_flatMap]
  simp only [drawWindowClipped_at h]
  split
  · rfl
  · rw [List.flatMap_eq_nil_iff]
    exact fun _ _ => rfl

end Clipping

/-! ## The redraw loop -/

section Redraw

variable {g : Graphics} {rect : Rect} {rects : List Rect} {x y : Nat}
  {buffers : Nat → BitVec 64 → BitVec 32} {snaps : List WindowSnapshot}

/-- What a place shows. -/
def sceneColor (buffers : Nat → BitVec 64 → BitVec 32) (snaps : List WindowSnapshot) (x y : Nat) :
    BitVec 32 :=
  (strokesAt buffers snaps x y).getLast?.elim desktopColor fun s => s.call.color

theorem redrawRect_geometry (buffers : Nat → BitVec 64 → BitVec 32) (snaps : List WindowSnapshot)
    (g : Graphics) (rect : Rect) : g.SameGeometry (redrawRect buffers snaps g rect) :=
  (graphicsClearRect_geometry rect desktopColor g).trans (putAll_geometry _ _)

/-- **Redrawing a rectangle** shows the scene in it, and leaves the other pixels. -/
theorem pixel_redrawRect (hg : g.Holds) (h : g.Inside rect) (hshows : g.Shows x y) :
    (redrawRect buffers snaps g rect).pixel x y =
      if rect.Has x y then (g.pixel x y).map fun _ => sceneColor buffers snaps x y
      else g.pixel x y := by
  have hclear := graphicsClearRect_geometry rect desktopColor g
  -- the calls at the place, as strokes
  have hlast : lastWrite PutPixel.place ((windowStrokes buffers snaps rect).map Stroke.call) (x, y) =
      (if rect.Has x y then strokesAt buffers snaps x y else []).getLast?.map Stroke.call := by
    rw [lastWrite, ← windowStrokes_at buffers h, List.filter_map, List.getLast?_map]
    rfl
  rw [redrawRect, pixel_putAll (hclear.holds hg) (hclear.shows.mpr hshows),
    pixel_graphicsClearRect h hshows, hlast, sceneColor]
  by_cases hp : rect.Has x y
  · simp only [if_pos hp, Option.map_map]
    cases (strokesAt buffers snaps x y).getLast? <;> rfl
  · simp only [if_neg hp]
    rfl

/-- **The redraw loop** shows the scene in its rectangles, in any order and with any overlap. -/
theorem pixel_redraw (hg : g.Holds) (hrects : ∀ rect ∈ rects, g.Inside rect) (hshows : g.Shows x y) :
    (redraw buffers snaps g rects).pixel x y =
      if ∃ rect ∈ rects, rect.Has x y then (g.pixel x y).map fun _ => sceneColor buffers snaps x y
      else g.pixel x y := by
  refine foldl_repaint (fun g => Graphics.pixel g x y)
    (fun c => c.map fun _ => sceneColor buffers snaps x y) (I := g.SameGeometry) (fun c => ?_)
    (fun g' rect hg' _ => ?_) (fun g' rect hg' hrect => ?_) (Graphics.SameGeometry.refl g) hrects
  · rw [Option.map_map]
    rfl
  · exact hg'.trans (redrawRect_geometry buffers snaps g' rect)
  · refine pixel_redrawRect (hg'.holds hg) ?_ (hg'.shows.mpr hshows)
    rw [Graphics.Inside, hg'.fbWidth, hg'.fbHeight]
    exact hrect

/-- The sides of a window, with its title and its shadow, are free of overflow. -/
structure WindowSnapshot.Fits (snap : WindowSnapshot) : Prop where
  width : 0 ≤ snap.w.toInt
  height : windowTitleHeight ≤ snap.h.toInt
  right : snap.x.toInt + snap.w.toInt + windowShadowOffset < 2 ^ 31
  bottom : snap.y.toInt + snap.h.toInt + windowShadowOffset < 2 ^ 31

/-- **The body is drawn from within its buffer**, of `w * (h - 25)` pixels. -/
theorem WindowSnapshot.Fits.read_lt {snap : WindowSnapshot} (hfits : snap.Fits) (h : g.Inside rect)
    {read : BufferRead} (hread : read ∈ bufferReads rect snap.window) :
    read.index.toNat < snap.w.toNat * (snap.h.toNat - 25) := by
  obtain ⟨hwidth, hheight, hright, hbottom⟩ := hfits
  have hx := toInt_isInt32 snap.x
  have hy := toInt_isInt32 snap.y
  simp only [IsInt32, windowTitleHeight, windowShadowOffset] at *
  cases hmeet : rectIntersect rect (windowBody snap.window) with
  | none =>
    rw [bufferReads, hmeet] at hread
    cases hread
  | some shared =>
    obtain ⟨row, col, hrow, hcol, hindex⟩ := mem_bufferReads hmeet hread
    -- the place that is drawn lies between the edges of the body
    have hplace : (shared.x.toNat + col, shared.y.toNat + row) ∈
        {p : Nat × Nat | shared.Has p.1 p.2} := by
      have hinside := (rectIntersect_inside (x := 0) (y := 0) h hmeet).1
      exact (Rect.Has.iff hinside).mpr ⟨row, hrow, col, hcol, rfl⟩
    obtain ⟨hinside, -, -, hhas⟩ := rectIntersect_inside (x := shared.x.toNat + col)
      (y := shared.y.toNat + row) h hmeet
    obtain ⟨-, ⟨hleft, hright'⟩, htop, hbottom'⟩ := hhas.mp hplace
    have hshared := hinside.left
    have hshared' := hinside.top
    rw [windowBody_right] at hright'
    rw [windowBody_bottom] at hbottom'
    have hw := toInt_of_nonneg hwidth
    have hh := toInt_of_nonneg (hheight.trans' (by decide))
    have hsmall := (toInt_isInt32 snap.w).2
    have hsmall' := (toInt_isInt32 snap.h).2
    have hedge : int32 (snap.y.toInt + 25) = snap.y.toInt + 25 := int32_eq ⟨by omega, by omega⟩
    have hedges : int32 (snap.x.toInt + snap.w.toInt) = snap.x.toInt + snap.w.toInt ∧
        int32 (snap.y.toInt + snap.h.toInt) = snap.y.toInt + snap.h.toInt :=
      ⟨int32_eq ⟨by omega, by omega⟩, int32_eq ⟨by omega, by omega⟩⟩
    simp only [windowBody, WindowSnapshot.window, windowTitleHeight, hedge, hedges.1, hedges.2,
      int32_int32_add] at hleft hright' htop hbottom' hindex
    obtain ⟨i, hi⟩ : ∃ i : Nat, shared.y - (snap.y.toInt + 25) + row = i :=
      ⟨(shared.y - (snap.y.toInt + 25) + row).toNat, by omega⟩
    obtain ⟨j, hj⟩ : ∃ j : Nat, shared.x - snap.x.toInt + col = j :=
      ⟨(shared.x - snap.x.toInt + col).toNat, by omega⟩
    rw [hi, hj, int32_eq (n := i) ⟨by omega, by omega⟩, int32_eq (n := j) ⟨by omega, by omega⟩]
      at hindex
    rw [hindex, bufferIndex_toNat snap.w (by omega) (by omega)]
    -- the rows before it are full, and it lies in its own
    have hrows : (i + 1) * snap.w.toNat ≤ (snap.h.toNat - 25) * snap.w.toNat :=
      Nat.mul_le_mul_right _ (by omega)
    rw [Nat.succ_mul] at hrows
    rw [Nat.mul_comm snap.w.toNat]
    omega

/-- **Redrawing the dirty rectangles is redrawing the screen**, inside them; the other pixels are left,
and the bodies are drawn from within their buffers. -/
theorem redraw_eq_full (buffers : Nat → BitVec 64 → BitVec 32) (hg : g.Holds)
    (hsnaps : ∀ snap ∈ snaps, snap.Fits)
    (hrects : ∀ rect ∈ rects, g.Inside rect) :
    (∀ x y, g.Shows x y → (redraw buffers snaps g rects).pixel x y =
      if ∃ rect ∈ rects, rect.Has x y then
        (redraw buffers snaps g [screenRect g.fbWidth g.fbHeight]).pixel x y
      else g.pixel x y) ∧
    ∀ rect ∈ rects, ∀ snap ∈ snaps, ∀ read ∈ bufferReads rect snap.window,
      read.index.toNat < snap.w.toNat * (snap.h.toNat - 25) := by
  refine ⟨fun x y hshows => ?_, fun rect hrect snap hsnap read =>
    (hsnaps snap hsnap).read_lt (hrects rect hrect)⟩
  rw [pixel_redraw hg hrects hshows]
  by_cases hdirty : ∃ rect ∈ rects, rect.Has x y
  · rw [if_pos hdirty, if_pos hdirty]
    obtain ⟨rect, hrect, -⟩ := hdirty
    -- a screen with a rectangle on it is one itself
    obtain ⟨hleft, htop, hwidth, hheight, hright, hbottom⟩ := hrects rect hrect
    have hscreen : g.Inside (screenRect g.fbWidth g.fbHeight) :=
      ⟨le_rfl, le_rfl, by omega, by omega, (zero_add _).le, (zero_add _).le⟩
    have hall : ∃ rect ∈ [screenRect g.fbWidth g.fbHeight], rect.Has x y := by
      refine ⟨_, List.mem_singleton_self _, ?_⟩
      obtain ⟨hx, hy⟩ := hshows
      simp only [Rect.Has, Rect.mem_pixels, screenRect] at hright hbottom ⊢
      have hw := toInt_of_nonneg (n := g.fbWidth) (by omega)
      have hh := toInt_of_nonneg (n := g.fbHeight) (by omega)
      omega
    rw [pixel_redraw hg (fun r hr => List.mem_singleton.mp hr ▸ hscreen) hshows, if_pos hall]
  · rw [if_neg hdirty, if_neg hdirty]

end Redraw

/-- A screen of 8 by 8 pixels. -/
def smallScreen : Graphics := ⟨0xFD000000, some fun _ => 0, 8, 8, 32⟩

/-- A window at its left, with a buffer of 3 by 1 pixels, and lower than its title is high. -/
def smallWindow : WindowSnapshot := ⟨1, 1, 3, 26, 0xFF555555, 0xFFFFFFFF, 0x1000⟩

/-- Two rectangles that overlap, redrawn one after the other. -/
theorem redraw_eq_full_overlap :
    (redraw (fun _ _ => 7) [smallWindow] smallScreen [⟨0, 0, 4, 4⟩, ⟨2, 2, 4, 4⟩]).pixel 3 3 =
      (redraw (fun _ _ => 7) [smallWindow] smallScreen
        [screenRect smallScreen.fbWidth smallScreen.fbHeight]).pixel 3 3 := by
  have hfits : ∀ snap ∈ [smallWindow], snap.Fits := by
    intro snap hsnap
    obtain rfl := List.mem_singleton.mp hsnap
    constructor <;> decide
  have hrects : ∀ rect ∈ [(⟨0, 0, 4, 4⟩ : Rect), ⟨2, 2, 4, 4⟩], smallScreen.Inside rect := by
    intro rect hrect
    simp only [List.mem_cons, List.not_mem_nil, or_false] at hrect
    rcases hrect with rfl | rfl <;> constructor <;> decide
  have hholds : smallScreen.Holds := Nat.le_of_ble_eq_true rfl
  have hredraw := (redraw_eq_full (fun _ _ => 7) hholds hfits hrects).1 3 3 ⟨by decide, by decide⟩
  rwa [if_pos ⟨_, List.mem_cons_self, by decide⟩] at hredraw

end ZohoOs
