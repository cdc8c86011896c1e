import Mathlib.Data.List.Induction
import ZohoOs.Window.Rect

/-!
# Dirty rectangles

The table of screen rectangles to redraw in `window.c`. A rectangle is clipped to the screen, and
merged into the first entry it overlaps or appended; where the table is full it is merged into the
first entry and the other entries go.

## Main definitions

* `queueDirtyRect`: one call
* `queueDirtyRects`: the table after a sequence of calls
* `CollapseKeeps`: the first entry and the new rectangle span all that was queued

## Main results

* `queueDirtyRects_covers_iff`: the table covers what was queued, as long as this is so at every
  call that finds it full
-/

namespace ZohoOs

/-- `WINDOW_MAX_DIRTY_RECTS`. -/
abbrev windowMaxDirtyRects : Nat := 32

/-- The loop of `queue_dirty_rect`: the first entry that overlaps takes in the rectangle. -/
def mergeDirtyRect (clipped : Rect) : List Rect → Option (List Rect)
  | [] => none
  | rect :: rects =>
    match rectIntersect rect clipped with
    | some _ => some (rectUnion rect clipped :: rects)
    | none => (mergeDirtyRect clipped rects).map (rect :: ·)

/-- `queue_dirty_rect`, on `dirty_rects[0 .. dirty_count)`. -/
def queueDirtyRect (screen : Rect) (dirtyRects : List Rect) (rect : Rect) : List Rect :=
  match rectIntersect rect screen with
  | none => dirtyRects
  | some clipped =>
    match mergeDirtyRect clipped dirtyRects with
    | some merged => merged
    | none =>
      if dirtyRects.length < windowMaxDirtyRects then dirtyRects ++ [clipped]
      else dirtyRects.head?.toList.map fun first => rectUnion first clipped

/-- The table after a sequence of calls, from `dirty_count = 0` on. -/
def queueDirtyRects (screen : Rect) (rects : List Rect) : List Rect :=
  rects.foldl (queueDirtyRect screen) []

/-- What the table is to have: the pixels on the screen of every rectangle queued, in at most
`windowMaxDirtyRects` rectangles on the screen. -/
structure Covers (screen : Rect) (rects dirtyRects : List Rect) : Prop where
  pixels : ∀ rect ∈ rects, ∀ p ∈ rect.pixels, p ∈ screen.pixels →
    ∃ dirty ∈ dirtyRects, p ∈ dirty.pixels
  count : dirtyRects.length ≤ windowMaxDirtyRects
  inside : ∀ dirty ∈ dirtyRects, Rect.OnScreen screen dirty

/-- The table is full, and no entry overlaps. -/
def Collapses (dirtyRects : List Rect) (clipped : Rect) : Prop :=
  dirtyRects.length = windowMaxDirtyRects ∧
    ∀ dirty ∈ dirtyRects, rectIntersect dirty clipped = none

/-- Where a call finds the table full and no overlap, the first entry and the new rectangle span
what was queued before. -/
def CollapseKeeps (screen : Rect) (rects dirtyRects : List Rect) (rect : Rect) : Prop :=
  ∀ clipped first, rectIntersect rect screen = some clipped → dirtyRects.head? = some first →
    Collapses dirtyRects clipped →
    ∀ old ∈ rects, ∀ p ∈ old.pixels, p ∈ screen.pixels → p ∈ (rectUnion first clipped).pixels

section Merge

variable {width height : BitVec 32} {clipped : Rect} {rects merged : List Rect}

theorem mergeDirtyRect_eq_none :
    mergeDirtyRect clipped rects = none ↔ ∀ dirty ∈ rects, rectIntersect dirty clipped = none := by
  induction rects with
  | nil => simp [mergeDirtyRect]
  | cons rect rects ih =>
    rw [mergeDirtyRect, List.forall_mem_cons]
    cases h : rectIntersect rect clipped with
    | none => simp [ih]
    | some => simp

/-- **Merging keeps the pixels and adds those of the rectangle**, with as many entries as before. -/
theorem mergeDirtyRect_spec (h : mergeDirtyRect clipped rects = some merged)
    (hclipped : Rect.OnScreen (screenRect width height) clipped)
    (hrects : ∀ dirty ∈ rects, Rect.OnScreen (screenRect width height) dirty) :
    merged.length = rects.length ∧
      (∀ dirty ∈ merged, Rect.OnScreen (screenRect width height) dirty) ∧
      ∀ p, (p ∈ clipped.pixels ∨ ∃ dirty ∈ rects, p ∈ dirty.pixels) →
        ∃ dirty ∈ merged, p ∈ dirty.pixels := by
  induction rects generalizing merged with
  | nil => cases h
  | cons rect rects ih =>
    obtain ⟨hrect, hrest⟩ := List.forall_mem_cons.mp hrects
    rw [mergeDirtyRect] at h
    -- the first rectangle that it meets grows; the others stay
    cases hmeet : rectIntersect rect clipped with
    | some =>
      rw [hmeet] at h
      obtain rfl := Option.some.inj h
      refine ⟨rfl, ?_, fun p hp => ?_⟩
      · exact List.forall_mem_cons.mpr ⟨hrect.rectUnion hclipped, hrest⟩
      · rcases hp with hp | ⟨dirty, hdirty, hp⟩
        · exact ⟨_, List.mem_cons_self, hrect.mem_rectUnion hclipped (Or.inr hp)⟩
        · rcases List.mem_cons.mp hdirty with rfl | hdirty
          · exact ⟨_, List.mem_cons_self, hrect.mem_rectUnion hclipped (Or.inl hp)⟩
          · exact ⟨dirty, List.mem_cons_of_mem _ hdirty, hp⟩
    | none =>
      rw [hmeet] at h
      obtain ⟨tail, htail, rfl⟩ := Option.map_eq_some_iff.mp h
      obtain ⟨hlength, hinside, hpixels⟩ := ih htail hrest
      refine ⟨by simp [hlength], List.forall_mem_cons.mpr ⟨hrect, hinside⟩, fun p hp => ?_⟩
      rcases hp with hp | ⟨dirty, hdirty, hp⟩
      · obtain ⟨dirty, hdirty, hp⟩ := hpixels p (Or.inl hp)
        exact ⟨dirty, List.mem_cons_of_mem _ hdirty, hp⟩
      · rcases List.mem_cons.mp hdirty with rfl | hdirty
        · exact ⟨_, List.mem_cons_self, hp⟩
        · obtain ⟨dirty, hdirty, hp⟩ := hpixels p (Or.inr ⟨dirty, hdirty, hp⟩)
          exact ⟨dirty, List.mem_cons_of_mem _ hdirty, hp⟩

end Merge

/-! ## One call -/

section Step

variable {width height : BitVec 32} {rect clipped : Rect} {rects dirtyRects : List Rect}

theorem queueDirtyRect_of_clipped {screen : Rect} (h : rectIntersect rect screen = some clipped) :
    queueDirtyRect screen dirtyRects rect =
      match mergeDirtyRect clipped dirtyRects with
      | some merged => merged
      | none =>
        if dirtyRects.length < windowMaxDirtyRects then dirtyRects ++ [clipped]
        else dirtyRects.head?.toList.map fun first => rectUnion first clipped := by
  rw [queueDirtyRect, h]

/-- A call that finds the table full and no overlap leaves one entry. -/
theorem queueDirtyRect_of_collapses {screen first : Rect}
    (h : rectIntersect rect screen = some clipped) (hfirst : dirtyRects.head? = some first)
    (hcollapses : Collapses dirtyRects clipped) :
    queueDirtyRect screen dirtyRects rect = [rectUnion first clipped] := by
  obtain ⟨hfull, hapart⟩ := hcollapses
  rw [queueDirtyRect_of_clipped h, mergeDirtyRect_eq_none.mpr hapart]
  simp only
  rw [if_neg (by omega), hfirst]
  rfl

/-- **A call keeps the table within its bound and on the screen**, and all it covers except where it
collapses. -/
theorem queueDirtyRect_spec (hrect : rect.Fits)
    (hcount : dirtyRects.length ≤ windowMaxDirtyRects)
    (hinside : ∀ dirty ∈ dirtyRects, Rect.OnScreen (screenRect width height) dirty) :
    (queueDirtyRect (screenRect width height) dirtyRects rect).length ≤ windowMaxDirtyRects ∧
      (∀ dirty ∈ queueDirtyRect (screenRect width height) dirtyRects rect,
        Rect.OnScreen (screenRect width height) dirty) ∧
      ((∀ clipped, rectIntersect rect (screenRect width height) = some clipped →
          ¬ Collapses dirtyRects clipped) →
        ∀ p ∈ (screenRect width height).pixels,
          (p ∈ rect.pixels ∨ ∃ dirty ∈ dirtyRects, p ∈ dirty.pixels) →
          ∃ dirty ∈ queueDirtyRect (screenRect width height) dirtyRects rect, p ∈ dirty.pixels) := by
  have hscreen := screenRect_fits width height
  cases hclip : rectIntersect rect (screenRect width height) with
  | none =>
    -- Nothing of the rectangle is on the screen: the table stays.
    rw [queueDirtyRect, hclip]
    refine ⟨hcount, hinside, fun _ p hp hor => hor.resolve_left fun hmem => ?_⟩
    exact notMem_of_rectIntersect_eq_none hrect hscreen le_rfl le_rfl hclip p hmem hp
  | some clipped =>
    have hclipped := onScreen_of_rectIntersect hrect hclip
    have hpixels := mem_pixels_rectIntersect hrect hscreen le_rfl le_rfl hclip
    cases hmerge : mergeDirtyRect clipped dirtyRects with
    | some merged =>
      obtain ⟨hlength, hmerged, hcover⟩ := mergeDirtyRect_spec hmerge hclipped hinside
      rw [queueDirtyRect_of_clipped hclip, hmerge]
      refine ⟨by rw [hlength]; exact hcount, hmerged, fun _ p hp hor => hcover p ?_⟩
      exact hor.imp_left fun hmem => (hpixels p).mpr ⟨hmem, hp⟩
    | none =>
      by_cases hroom : dirtyRects.length < windowMaxDirtyRects
      · rw [queueDirtyRect_of_clipped hclip, hmerge]
        simp only
        rw [if_pos hroom]
        refine ⟨by rw [List.length_append]; exact hroom, fun dirty hdirty => ?_, fun _ p hp hor => ?_⟩
        · rcases List.mem_append.mp hdirty with hdirty | hdirty
          · exact hinside dirty hdirty
          · exact List.mem_singleton.mp hdirty ▸ hclipped
        · rcases hor with hmem | ⟨dirty, hdirty, hmem⟩
          · exact ⟨clipped, by simp, (hpixels p).mpr ⟨hmem, hp⟩⟩
          · exact ⟨dirty, List.mem_append_left _ hdirty, hmem⟩
      · -- The table is full: the union with its first entry is left, and the others are lost.
        have hcollapses : Collapses dirtyRects clipped :=
          ⟨by omega, mergeDirtyRect_eq_none.mp hmerge⟩
        obtain ⟨first, hfirst⟩ : ∃ first, dirtyRects.head? = some first := by
          cases dirtyRects with
          | nil => exact absurd (by decide) hroom
          | cons first tail => exact ⟨first, rfl⟩
        rw [queueDirtyRect_of_collapses hclip hfirst hcollapses]
        refine ⟨Nat.le_of_ble_eq_true rfl, fun dirty hdirty => ?_,
          fun hno => absurd hcollapses (hno clipped rfl)⟩
        obtain rfl := List.mem_singleton.mp hdirty
        exact (hinside first (List.mem_of_mem_head? hfirst)).rectUnion hclipped

/-- **A call keeps the queued pixels covered exactly when it keeps them where it collapses.** -/
theorem Covers.step_iff (h : Covers (screenRect width height) rects dirtyRects)
    (hrect : rect.Fits) :
    Covers (screenRect width height) (rects ++ [rect])
        (queueDirtyRect (screenRect width height) dirtyRects rect) ↔
      CollapseKeeps (screenRect width height) rects dirtyRects rect := by
  obtain ⟨hcount, hinside, hcover⟩ := queueDirtyRect_spec hrect h.count h.inside
  constructor
  · intro hcovers clipped first hclip hfirst hcollapses old hold p hp hscreen
    obtain ⟨dirty, hdirty, hmem⟩ := hcovers.pixels old (List.mem_append_left _ hold) p hp hscreen
    rw [queueDirtyRect_of_collapses hclip hfirst hcollapses] at hdirty
    exact List.mem_singleton.mp hdirty ▸ hmem
  · intro hkeeps
    refine ⟨fun old hold p hp hscreen => ?_, hcount, hinside⟩
    -- the rectangle is added or merged, or the list collapses to its bounding box
    by_cases hno : ∀ clipped, rectIntersect rect (screenRect width height) = some clipped →
        ¬ Collapses dirtyRects clipped
    · refine hcover hno p hscreen ?_
      rcases List.mem_append.mp hold with hold | hold
      · exact Or.inr (h.pixels old hold p hp hscreen)
      · exact Or.inl (List.mem_singleton.mp hold ▸ hp)
    · push Not at hno
      obtain ⟨clipped, hclip, hcollapses⟩ := hno
      obtain ⟨first, hfirst⟩ : ∃ first, dirtyRects.head? = some first := by
        cases dirtyRects with
        | nil => exact absurd hcollapses.1 (by decide)
        | cons first tail => exact ⟨first, rfl⟩
      rw [queueDirtyRect_of_collapses hclip hfirst hcollapses]
      refine ⟨_, List.mem_singleton_self _, ?_⟩
      rcases List.mem_append.mp hold with hold | hold
      · exact hkeeps clipped first hclip hfirst hcollapses old hold p hp hscreen
      · -- the rectangle that is queued is always in the bounding box
        obtain rfl := List.mem_singleton.mp hold
        refine (h.inside first (List.mem_of_mem_head? hfirst)).mem_rectUnion
          (onScreen_of_rectIntersect hrect hclip) (Or.inr ?_)
        exact (mem_pixels_rectIntersect hrect (screenRect_fits width height) le_rfl le_rfl hclip p).mpr
          ⟨hp, hscreen⟩

end Step

/-! ## Sequences of calls -/

theorem queueDirtyRects_concat (screen : Rect) (rects : List Rect) (rect : Rect) :
    queueDirtyRects screen (rects ++ [rect]) =
      queueDirtyRect screen (queueDirtyRects screen rects) rect := List.foldl_concat ..

/-- The table stays within its bound and on the screen. -/
theorem queueDirtyRects_inside (width height : BitVec 32) (rects : List Rect)
    (hfits : ∀ rect ∈ rects, rect.Fits) :
    (queueDirtyRects (screenRect width height) rects).length ≤ windowMaxDirtyRects ∧
      ∀ dirty ∈ queueDirtyRects (screenRect width height) rects,
        Rect.OnScreen (screenRect width height) dirty := by
  induction rects using List.reverseRecOn with
  | nil => exact ⟨Nat.zero_le _, fun _ h => absurd h List.not_mem_nil⟩
  | append_singleton rects rect ih =>
    obtain ⟨hcount, hinside⟩ := ih fun r hr => hfits r (List.mem_append_left _ hr)
    have hrect : rect.Fits := hfits rect (by simp)
    obtain ⟨hcount', hinside', -⟩ := queueDirtyRect_spec hrect hcount hinside
    rw [queueDirtyRects_concat]
    exact ⟨hcount', hinside'⟩

/-- **The table covers what was queued after every call exactly when no call loses queued pixels by
collapsing.** Its bound and the screen it keeps in any case. -/
theorem queueDirtyRects_covers_iff (width height : BitVec 32) (rects : List Rect)
    (hfits : ∀ rect ∈ rects, rect.Fits) :
    ((queueDirtyRects (screenRect width height) rects).length ≤ windowMaxDirtyRects ∧
      ∀ dirty ∈ queueDirtyRects (screenRect width height) rects,
        Rect.OnScreen (screenRect width height) dirty) ∧
    ((∀ calls, calls <+: rects → Covers (screenRect width height) calls
        (queueDirtyRects (screenRect width height) calls)) ↔
      ∀ calls rect, calls ++ [rect] <+: rects → CollapseKeeps (screenRect width height) calls
        (queueDirtyRects (screenRect width height) calls) rect) := by
  refine ⟨queueDirtyRects_inside width height rects hfits, ?_, ?_⟩
  · intro hcovers calls rect hcalls
    have hbefore := hcovers calls ((List.prefix_append calls [rect]).trans hcalls)
    have hafter := hcovers _ hcalls
    rw [queueDirtyRects_concat] at hafter
    exact (hbefore.step_iff (hfits rect (hcalls.subset (by simp)))).mp hafter
  · intro hkeeps calls
    induction calls using List.reverseRecOn with
    | nil => exact fun _ => ⟨fun _ h => absurd h List.not_mem_nil, Nat.zero_le _,
        fun _ h => absurd h List.not_mem_nil⟩
    | append_singleton calls rect ih =>
      intro hcalls
      have hbefore := ih ((List.prefix_append calls [rect]).trans hcalls)
      rw [queueDirtyRects_concat]
      exact (hbefore.step_iff (hfits rect (hcalls.subset (by simp)))).mpr
        (hkeeps calls rect hcalls)

/-- Rectangles of which some overlap, and one reaches over the screen on three sides. -/
def sampleRects : List Rect :=
  [⟨10, 10, 100, 100⟩, ⟨300, 300, 20, 20⟩, ⟨50, 60, 100, 100⟩, ⟨-5, 700, 2000, 100⟩, ⟨310, 310, 50, 50⟩]

/-- Those that overlap are merged. -/
theorem queueDirtyRects_covers_sample :
    queueDirtyRects (screenRect 1024 768) sampleRects =
        [⟨10, 10, 140, 150⟩, ⟨300, 300, 60, 60⟩, ⟨0, 700, 1024, 68⟩] ∧
      Covers (screenRect 1024 768) sampleRects (queueDirtyRects (screenRect 1024 768) sampleRects) := by
  have hfits : ∀ rect ∈ sampleRects, rect.Fits := by
    simp only [sampleRects, List.forall_mem_cons, List.not_mem_nil, false_implies, implies_true, and_true]
    refine ⟨?_, ?_, ?_, ?_, ?_⟩ <;> constructor <;> simp only [IsInt32] <;> omega
  refine ⟨by decide +kernel, ?_⟩
  refine (queueDirtyRects_covers_iff 1024 768 _ hfits).2.mpr (fun calls rect hcalls => ?_) _
    (List.prefix_refl _)
  intro clipped first _ _ hcollapses
  -- the table is never full
  have hshort : ∀ k < 6, (queueDirtyRects (screenRect 1024 768) (sampleRects.take k)).length ≠
      windowMaxDirtyRects := by decide +kernel
  have hprefix := (List.prefix_append calls [rect]).trans hcalls
  have hlength : calls.length ≤ 5 := hprefix.length_le
  have hfull := hcollapses.1
  rw [List.prefix_iff_eq_take.mp hprefix] at hfull
  exact absurd hfull (hshort _ (by omega))

/-- A row of 32 pixels with gaps fills the table, and the next pixel leaves it with the bounding box
of the first of the row and itself: the others are no longer covered. -/
theorem queueDirtyRects_loses :
    let rects := (List.range 32).map (fun i : Nat => (⟨2 * (i : Int), 0, 1, 1⟩ : Rect)) ++ [⟨0, 2, 1, 1⟩]
    (∀ rect ∈ rects, rect.Fits) ∧
      ¬ Covers (screenRect 1024 768) rects (queueDirtyRects (screenRect 1024 768) rects) := by
  intro rects
  refine ⟨fun rect hrect => ?_, fun hcovers => ?_⟩
  · rcases List.mem_append.mp hrect with hrect | hrect
    · obtain ⟨i, hi, rfl⟩ := List.mem_map.mp hrect
      have := List.mem_range.mp hi
      constructor <;> simp only [IsInt32] <;> omega
    · obtain rfl := List.mem_singleton.mp hrect
      constructor <;> simp only [IsInt32] <;> omega
  · have htable : queueDirtyRects (screenRect 1024 768) rects = [⟨0, 0, 1, 3⟩] := by decide +kernel
    obtain ⟨dirty, hdirty, hmem⟩ := hcovers.pixels ⟨2, 0, 1, 1⟩ (by decide) (2, 0) (by decide)
      (by decide)
    rw [htable] at hdirty
    obtain rfl := List.mem_singleton.mp hdirty
    exact absurd hmem (by decide)

end ZohoOs
