import ZohoOs.Window.Draw
import ZohoOs.Window.Lifetime

/-!
# What a click goes to

`find_window_hit` of `window.c` looks through the windows from the front to the back, and they are drawn
from the back to the front: the window it finds is the one that is seen.

## Main definitions

* `WindowSnapshot.Covers`: a place is in the outer rectangle of a window
* `HeldWindows`: the windows that `snapshot_window_list` holds
* `drawnAt`: what is drawn at a place, apart from the shadows

## Main results

* `findWindowHit_win`: the first window that covers the place
* `drawnAt_getLast`: the last that is drawn there belongs to it
* `findWindowHit_drawn`: clicks go to what is drawn
-/

namespace ZohoOs

open LinkedQueue

/-- The place is in the outer rectangle of the window, without the shadow. -/
def WindowSnapshot.Covers (x y : Nat) (snap : WindowSnapshot) : Prop :=
  (snap.x.toInt ≤ x ∧ x < snap.x.toInt + snap.w.toInt) ∧
    snap.y.toInt ≤ y ∧ y < snap.y.toInt + snap.h.toInt

instance (x y : Nat) (snap : WindowSnapshot) : Decidable (snap.Covers x y) :=
  inferInstanceAs (Decidable ((_ ∧ _) ∧ _ ∧ _))

/-- The windows that are held: each once, and none of them `NULL`. -/
structure HeldWindows (held : List (Nat × WindowSnapshot)) : Prop where
  nodup : (held.map Prod.fst).Nodup
  ne_null : ∀ entry ∈ held, entry.1 ≠ 0

/-- A window that is free of overflow and has a column. -/
structure WindowSnapshot.Visible (snap : WindowSnapshot) : Prop extends snap.Fits where
  column : 1 ≤ snap.w.toInt

/-- What a redraw of a rectangle draws at a place, apart from the shadows. -/
def drawnAt (buffers : Nat → BitVec 64 → BitVec 32) (snaps : List WindowSnapshot) (clip : Rect)
    (x y : Nat) : List Stroke :=
  (windowStrokes buffers snaps clip).filter fun s => s.call.place = (x, y) ∧ s.part ≠ .shadow

/-! ## Holding -/

/-- **`snapshot_window_list` holds the first windows of the list**, whatever their counts. -/
theorem snapshotFrom_fst {d : Desktop} {max curr : Nat} {l : List Nat} (h : Linked d.next 0 curr l) :
    (snapshotFrom max curr d).1.map Prod.fst = l.take max := by
  induction max generalizing curr d l with
  | zero => rfl
  | succ max ih =>
    cases l with
    | nil =>
      obtain rfl : curr = 0 := h
      rfl
    | cons win rest =>
      obtain ⟨rfl, hne, hrest⟩ := h
      have hnext : ∀ x, (retainWindow curr d).next x = d.next x := fun x => by
        rw [retainWindow, if_neg hne]
        exact d.updateWindow_field curr x _ (·.next) rfl
      have hfrom : Linked (retainWindow curr d).next 0 ((retainWindow curr d).next curr) rest := by
        rw [hnext]
        exact hrest.congr fun x _ => hnext x
      rw [snapshotFrom, if_neg hne, List.take_succ_cons, ← ih hfrom]
      rfl

theorem snapshotWindowList_held {d : Desktop} {l : List Nat}
    (h : Linked d.next 0 d.manager.windowList l) : HeldWindows (snapshotWindowList d).1 where
  nodup := by
    rw [snapshotWindowList, snapshotFrom_fst h]
    exact h.nodup.sublist (List.take_sublist _ _)
  ne_null entry hentry := by
    have hmem := List.mem_map_of_mem (f := Prod.fst) hentry
    rw [snapshotWindowList, snapshotFrom_fst h] at hmem
    exact h.ne_nil (List.mem_of_mem_take hmem)

section Places

variable {x y : Nat} {snap : WindowSnapshot} {held : List (Nat × WindowSnapshot)}

/-- The test of `find_window_hit` is the outer rectangle. -/
theorem hit_iff_covers (h : snap.Fits) (hx : x < 2 ^ 31) (hy : y < 2 ^ 31) :
    ((BitVec.ofNat 32 x).slt snap.x || !(BitVec.ofNat 32 x).slt (snap.x + snap.w)) = false ∧
      ((BitVec.ofNat 32 y).slt snap.y || !(BitVec.ofNat 32 y).slt (snap.y + snap.h)) = false ↔
    snap.Covers x y := by
  obtain ⟨hwidth, hheight, hright, hbottom⟩ := h
  have hX := toInt_isInt32 snap.x
  have hY := toInt_isInt32 snap.y
  simp only [IsInt32, windowTitleHeight, windowShadowOffset] at *
  have hplace : ∀ n : Nat, n < 2 ^ 31 → (BitVec.ofNat 32 n).toInt = n := fun n hn => by
    rw [← BitVec.ofInt_natCast]
    exact (BitVec.toInt_ofInt n).trans (int32_eq ⟨by omega, by omega⟩)
  have hr : (snap.x + snap.w).toInt = snap.x.toInt + snap.w.toInt :=
    (BitVec.toInt_add _ _).trans (int32_eq ⟨by omega, by omega⟩)
  have hb : (snap.y + snap.h).toInt = snap.y.toInt + snap.h.toInt :=
    (BitVec.toInt_add _ _).trans (int32_eq ⟨by omega, by omega⟩)
  simp only [BitVec.slt, hplace x hx, hplace y hy, hr, hb, Bool.or_eq_false_iff, Bool.not_eq_false',
    decide_eq_false_iff_not, decide_eq_true_eq, not_lt, WindowSnapshot.Covers]

/-- **`find_window_hit`** finds the first window that covers the place. -/
theorem findWindowHit_win (hheld : ∀ entry ∈ held, entry.2.Fits) (hx : x < 2 ^ 31) (hy : y < 2 ^ 31) :
    (findWindowHit (BitVec.ofNat 32 x) (BitVec.ofNat 32 y) held).win =
      (held.find? fun entry => entry.2.Covers x y).elim 0 Prod.fst := by
  induction held with
  | nil => rfl
  | cons entry rest ih =>
    obtain ⟨win, snap⟩ := entry
    obtain ⟨hsnap, hrest⟩ := List.forall_mem_cons.mp hheld
    have htest := hit_iff_covers hsnap hx hy
    rw [findWindowHit]
    by_cases hcovers : snap.Covers x y
    · obtain ⟨hcol, hrow⟩ := htest.mpr hcovers
      rw [List.find?_cons_of_pos (by simpa using hcovers), hcol, hrow]
      simp only [Bool.false_eq_true, if_false]
      split <;> rfl
    · rw [List.find?_cons_of_neg (by simpa using hcovers), ← ih hrest]
      split_ifs with hcol hrow
      · rfl
      · rfl
      · exact absurd (htest.mp ⟨Bool.eq_false_iff.mpr hcol, Bool.eq_false_iff.mpr hrow⟩) hcovers
      · exact absurd (htest.mp ⟨Bool.eq_false_iff.mpr hcol, Bool.eq_false_iff.mpr hrow⟩) hcovers

/-- **The body, the title and the borders** of a window fill its outer rectangle. -/
theorem windowLayers_covers (buffers : Nat → BitVec 64 → BitVec 32) (h : snap.Visible) :
    (∃ layer ∈ windowLayers buffers snap.window, layer.part ≠ .shadow ∧ layer.rect.Spans x y) ↔
      snap.Covers x y := by
  obtain ⟨⟨hwidth, hheight, hright, hbottom⟩, hcolumn⟩ := h
  have hX := toInt_isInt32 snap.x
  have hY := toInt_isInt32 snap.y
  have hW := toInt_isInt32 snap.w
  have hH := toInt_isInt32 snap.h
  simp only [IsInt32, windowTitleHeight, windowShadowOffset] at *
  -- no edge of a part wraps around
  have htitle : int32 (snap.y.toInt + 25) = snap.y.toInt + 25 := int32_eq ⟨by omega, by omega⟩
  have hr : int32 (snap.x.toInt + snap.w.toInt) = snap.x.toInt + snap.w.toInt :=
    int32_eq ⟨by omega, by omega⟩
  have hb : int32 (snap.y.toInt + snap.h.toInt) = snap.y.toInt + snap.h.toInt :=
    int32_eq ⟨by omega, by omega⟩
  have hr' : int32 (snap.x.toInt + snap.w.toInt - 1) = snap.x.toInt + snap.w.toInt - 1 :=
    int32_eq ⟨by omega, by omega⟩
  have hb' : int32 (snap.y.toInt + snap.h.toInt - 1) = snap.y.toInt + snap.h.toInt - 1 :=
    int32_eq ⟨by omega, by omega⟩
  have hline : int32 (snap.x.toInt + 1) = snap.x.toInt + 1 ∧
      int32 (snap.y.toInt + 1) = snap.y.toInt + 1 :=
    ⟨int32_eq ⟨by omega, by omega⟩, int32_eq ⟨by omega, by omega⟩⟩
  have hbody : (windowBody snap.window).right = snap.x.toInt + snap.w.toInt ∧
      (windowBody snap.window).bottom = snap.y.toInt + snap.h.toInt :=
    ⟨windowBody_right.trans hr, windowBody_bottom.trans hb⟩
  have hbodyPlace : (windowBody snap.window).x = snap.x.toInt ∧
      (windowBody snap.window).y = snap.y.toInt + 25 := ⟨rfl, htitle⟩
  constructor
  · rintro ⟨layer, hlayer, hpart, hspans⟩
    simp only [windowLayers, List.mem_cons, List.not_mem_nil, or_false] at hlayer
    rcases hlayer with rfl | rfl | rfl | rfl | rfl | rfl | rfl
    · exact absurd rfl hpart
    · simp only [Rect.Spans, hbody, hbodyPlace] at hspans
      simp only [WindowSnapshot.Covers]
      omega
    all_goals
      simp only [Rect.Spans, Rect.right, Rect.bottom, WindowSnapshot.window, windowTitleHeight, htitle,
        hr, hb, hr', hb', hline, sub_add_cancel] at hspans
      simp only [WindowSnapshot.Covers]
      omega
  · rintro ⟨hcol, hrow⟩
    by_cases habove : (y : Int) < snap.y.toInt + 25
    · refine ⟨⟨.title, ⟨snap.x.toInt, snap.y.toInt, snap.w.toInt, 25⟩, fun _ _ => snap.titleColor⟩,
        ?_, (fun h => by cases h), ?_⟩
      · simp [windowLayers, WindowSnapshot.window]
      · simp only [Rect.Spans, Rect.right, Rect.bottom, htitle, hr]
        omega
    · refine ⟨⟨.body, windowBody snap.window, bodyColor buffers snap.window⟩, ?_,
        (fun h => by cases h), ?_⟩
      · simp [windowLayers]
      · simp only [Rect.Spans, hbody, hbodyPlace]
        omega

/-- What is drawn of one window at a place, apart from the shadow. -/
theorem layerStrokes_getLast (buffers : Nat → BitVec 64 → BitVec 32) (k : Nat) (h : snap.Visible) :
    (((((windowLayers buffers snap.window).filter fun layer => layer.rect.Spans x y).map
      (Layer.stroke k x y)).filter fun s => s.part ≠ .shadow).getLast?.map Stroke.window) =
        if snap.Covers x y then some k else none := by
  obtain ⟨strokes, hstrokes⟩ : ∃ strokes, strokes =
      ((((windowLayers buffers snap.window).filter fun layer => layer.rect.Spans x y).map
        (Layer.stroke k x y)).filter fun s => s.part ≠ .shadow) := ⟨_, rfl⟩
  have hwindow : ∀ s ∈ strokes, s.window = k := by
    rw [hstrokes]
    intro s hs
    obtain ⟨layer, -, rfl⟩ := List.mem_map.mp (List.mem_filter.mp hs).1
    rfl
  have hnil : strokes = [] ↔ ¬ snap.Covers x y := by
    rw [← windowLayers_covers buffers h, hstrokes, List.filter_eq_nil_iff, List.forall_mem_map]
    simp only [List.mem_filter, decide_eq_true_eq, Layer.stroke, not_exists, not_and, and_imp]
    exact ⟨fun hall layer hmem hpart hspans => hall layer hmem hspans (decide_eq_true hpart),
      fun hall layer hmem hspans hpart => hall layer hmem (of_decide_eq_true hpart) hspans⟩
  rw [← hstrokes]
  by_cases hcovers : snap.Covers x y
  · rw [if_pos hcovers]
    cases hlast : strokes.getLast? with
    | none => exact absurd hcovers (hnil.mp (List.getLast?_eq_none_iff.mp hlast))
    | some s => rw [Option.map_some, hwindow s (List.mem_of_getLast? hlast)]
  · rw [if_neg hcovers, hnil.mpr hcovers]
    rfl

/-- **The last that is drawn at a place** belongs to the first window that covers it. -/
theorem drawnAt_getLast {g : Graphics} {clip : Rect} {snaps : List WindowSnapshot}
    (buffers : Nat → BitVec 64 → BitVec 32) (h : g.Inside clip) (hp : clip.Has x y)
    (hsnaps : ∀ snap ∈ snaps, snap.Visible) :
    (drawnAt buffers snaps clip x y).getLast?.map Stroke.window =
      snaps.findIdx? fun snap => snap.Covers x y := by
  -- without the shadows, what is drawn at a point are the strokes of the windows there
  have hdrawn : drawnAt buffers snaps clip x y =
      (strokesAt buffers snaps x y).filter fun s => s.part ≠ .shadow := by
    have hat := windowStrokes_at (x := x) (y := y) buffers h snaps
    rw [if_pos hp] at hat
    rw [← hat, drawnAt, List.filter_filter]
    exact List.filter_congr fun s _ => by simp [and_comm]
  -- the topmost window that is drawn is the first that covers the point
  have hsearch : ∀ (snaps : List WindowSnapshot) (k : Nat), (∀ snap ∈ snaps, snap.Visible) →
      ((snaps.zipIdx k).findSome? fun entry =>
        ((((windowLayers buffers entry.1.window).filter fun layer => layer.rect.Spans x y).map
          (Layer.stroke entry.2 x y)).filter fun s => s.part ≠ .shadow).getLast?).map Stroke.window =
            (snaps.findIdx? fun snap => snap.Covers x y).map (· + k) := by
    intro snaps
    induction snaps with
    | nil => exact fun _ _ => rfl
    | cons snap rest ih =>
      intro k hvisible
      obtain ⟨hsnap, hrest⟩ := List.forall_mem_cons.mp hvisible
      have hfirst := layerStrokes_getLast (x := x) (y := y) buffers k hsnap
      rw [List.zipIdx_cons, List.findSome?_cons, List.findIdx?_cons]
      by_cases hcovers : snap.Covers x y
      · rw [if_pos hcovers] at hfirst
        obtain ⟨s, hs, hwindow⟩ := Option.map_eq_some_iff.mp hfirst
        simp only [hs, hcovers, decide_true, if_true, Option.map_some, hwindow, Nat.zero_add]
      · rw [if_neg hcovers] at hfirst
        have hnone := Option.map_eq_none_iff.mp hfirst
        simp only [hnone, hcovers, decide_false, Bool.false_eq_true, if_false]
        rw [ih (k + 1) hrest, Option.map_map]
        congr 1
        funext i
        simp only [Function.comp_apply]
        omega
  rw [hdrawn, strokesAt, List.filter_flatMap, List.getLast?_flatMap, List.reverse_reverse,
    hsearch snaps 0 hsnaps]
  simp

/-- **Clicks go to what is drawn.** -/
theorem findWindowHit_drawn {g : Graphics} {clip : Rect} (buffers : Nat → BitVec 64 → BitVec 32)
    (hheld : HeldWindows held) (hvisible : ∀ entry ∈ held, entry.2.Visible) (h : g.Inside clip)
    (hp : clip.Has x y) :
    (∀ i (hi : i < held.length),
      (findWindowHit (BitVec.ofNat 32 x) (BitVec.ofNat 32 y) held).win = (held[i]).1 ↔
        ∃ s, (drawnAt buffers (held.map Prod.snd) clip x y).getLast? = some s ∧ s.window = i) ∧
    ((findWindowHit (BitVec.ofNat 32 x) (BitVec.ofNat 32 y) held).win = 0 ↔
      drawnAt buffers (held.map Prod.snd) clip x y = []) := by
  have hsnaps : ∀ snap ∈ held.map Prod.snd, snap.Visible := by
    intro snap hsnap
    obtain ⟨entry, hentry, rfl⟩ := List.mem_map.mp hsnap
    exact hvisible entry hentry
  -- both searches look for the first window that covers the place
  have hlast := drawnAt_getLast buffers h hp hsnaps
  rw [List.findIdx?_map] at hlast
  obtain ⟨hx, hy⟩ : x < 2 ^ 31 ∧ y < 2 ^ 31 := by
    obtain ⟨i, hi, j, hj, he⟩ := (Rect.Has.iff h).mp hp
    obtain ⟨rfl, rfl⟩ := Prod.mk.inj he
    exact (h.place hi hj).2
  have hwin := findWindowHit_win (fun entry hentry => (hvisible entry hentry).toFits) hx hy
  rw [hwin]
  have hidx : ∀ i, (∃ s, (drawnAt buffers (held.map Prod.snd) clip x y).getLast? = some s ∧
      s.window = i) ↔ held.findIdx? (fun entry => entry.2.Covers x y) = some i := by
    intro i
    rw [← Option.map_eq_some_iff, hlast]
    exact Iff.rfl
  refine ⟨fun i hi => ?_, ?_⟩
  · rw [hidx, List.findIdx?_eq_some_iff_getElem]
    cases hfind : held.find? (fun entry => entry.2.Covers x y) with
    | none =>
      have hnone := List.find?_eq_none.mp hfind
      refine iff_of_false (hheld.ne_null _ (List.getElem_mem hi)).symm ?_
      rintro ⟨_, hcovers, _⟩
      exact hnone _ (List.getElem_mem hi) hcovers
    | some entry =>
      obtain ⟨hcovers, j, hj, hentry, hbefore⟩ := List.find?_eq_some_iff_getElem.mp hfind
      constructor
      · -- an address tells which of the windows it is
        intro he
        have hij : j = i := by
          have hj' : j < (held.map Prod.fst).length := by simpa using hj
          have hi' : i < (held.map Prod.fst).length := by simpa using hi
          have hmap : (held.map Prod.fst)[j] = (held.map Prod.fst)[i] := by
            simp only [List.getElem_map, hentry]
            exact he
          exact (List.Nodup.getElem_inj_iff hheld.nodup).mp hmap
        subst hij
        exact ⟨hi, by rw [hentry]; exact hcovers, fun j' hj' => by simpa using hbefore j' hj'⟩
      · rintro ⟨_, hcovers', hbefore'⟩
        have hij : j = i := by
          rcases Nat.lt_trichotomy j i with hlt | heq | hgt
          · exact absurd (hentry ▸ hcovers) (hbefore' j hlt)
          · exact heq
          · exact absurd hcovers' (by simpa using hbefore i hgt)
        subst hij
        rw [hentry]
        rfl
  · have hnone : drawnAt buffers (held.map Prod.snd) clip x y = [] ↔
        ∀ entry ∈ held, ¬ entry.2.Covers x y := by
      rw [← List.getLast?_eq_none_iff, ← Option.map_eq_none_iff, hlast, List.findIdx?_eq_none_iff]
      simp only [Function.comp_apply, decide_eq_false_iff_not]
    rw [hnone]
    cases hfind : held.find? (fun entry => entry.2.Covers x y) with
    | none =>
      refine iff_of_true rfl fun entry hentry => ?_
      simpa using List.find?_eq_none.mp hfind entry hentry
    | some entry =>
      have hmem := List.mem_of_find?_eq_some hfind
      refine iff_of_false (hheld.ne_null entry hmem) fun hall => hall entry hmem ?_
      simpa using List.find?_some hfind

end Places

/-- Two windows, the first one in front. -/
def twoHeld : List (Nat × WindowSnapshot) :=
  [(0x1000018, smallWindow), (0x1000200, { smallWindow with x := 2, y := 2 })]

/-- Where both windows are, the last that is drawn is of the one in front. -/
theorem findWindowHit_drawn_front :
    ∃ s, (drawnAt (fun _ _ => 7) (twoHeld.map Prod.snd) ⟨0, 0, 8, 8⟩ 3 3).getLast? = some s ∧
      s.window = 0 := by
  have hvisible : ∀ entry ∈ twoHeld, entry.2.Visible := by
    intro entry hentry
    simp only [twoHeld, List.mem_cons, List.not_mem_nil, or_false] at hentry
    rcases hentry with rfl | rfl <;> exact ⟨by constructor <;> decide, by decide⟩
  have hscreen : smallScreen.Inside ⟨0, 0, 8, 8⟩ := by constructor <;> decide
  have hdrawn := findWindowHit_drawn (x := 3) (y := 3) (fun _ _ => 7) ⟨by decide, by decide⟩ hvisible
    hscreen (by decide)
  exact (hdrawn.1 0 (by decide)).mp rfl

end ZohoOs
