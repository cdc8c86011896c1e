import Mathlib.Algebra.Order.Ring.Int
import ZohoOs.Lib.LastWrite

/-!
# Rasters

What is drawn row by row, one dot after another, and pictures that are drawn again under clips.

## Main definitions

* `grid w h f`: the dots of a rectangle, row by row

## Main results

* `filter_grid`: a place has one dot in the rectangle, and none outside
* `foldl_repaint`: the order and the overlap of the regions do not matter
-/

namespace Raster

variable {α : Type*}

/-- The dots of a rectangle of `w` by `h`, row by row. -/
def grid (w h : ℕ) (f : ℕ → ℕ → α) : List α :=
  (List.range h).flatMap fun i => (List.range w).map fun j => f i j

theorem mem_grid {w h : ℕ} {f : ℕ → ℕ → α} {x : α} :
    x ∈ grid w h f ↔ ∃ i < h, ∃ j < w, f i j = x := by
  simp only [grid, List.mem_flatMap, List.mem_range, List.mem_map]

theorem map_grid {β : Type*} (w h : ℕ) (f : ℕ → ℕ → α) (g : α → β) :
    (grid w h f).map g = grid w h fun i j => g (f i j) := by
  simp only [grid, List.map_flatMap, List.map_map]
  rfl

/-- One number of a range is left where the others are filtered out. -/
theorem filter_range (n b : ℕ) : (List.range n).filter (fun j => j = b) = if b < n then [b] else [] := by
  induction n with
  | zero => rfl
  | succ n ih =>
    rw [List.range_succ, List.filter_append, ih]
    rcases Nat.lt_trichotomy b n with hlt | rfl | hgt
    · rw [if_pos hlt, if_pos (Nat.lt_succ_of_lt hlt), List.filter_cons_of_neg (by simp; omega)]
      rfl
    · rw [if_neg (Nat.lt_irrefl b), if_pos (Nat.lt_succ_self b), List.filter_cons_of_pos (by simp)]
      rfl
    · rw [if_neg (by omega), if_neg (by omega), List.filter_cons_of_neg (by simp; omega)]
      rfl

/-- **A place has one dot in a rectangle**, the one in its row and column. -/
theorem filter_grid {w h : ℕ} {f : ℕ → ℕ → α} {q : α → Bool} {a b : ℕ}
    (hq : ∀ i < h, ∀ j < w, q (f i j) = true ↔ i = a ∧ j = b) :
    (grid w h f).filter q = if a < h ∧ b < w then [f a b] else [] := by
  have hrow : ∀ i < h, ((List.range w).map fun j => f i j).filter q =
      if i = a ∧ b < w then [f a b] else [] := by
    intro i hi
    rw [List.filter_map]
    by_cases hia : i = a
    · subst hia
      have hcol : (List.range w).filter (q ∘ fun j => f i j) = (List.range w).filter (· = b) :=
        List.filter_congr fun j hj => by
          rw [Bool.eq_iff_iff, Function.comp_apply, hq i hi j (List.mem_range.mp hj)]
          simp
      rw [hcol, filter_range]
      split <;> simp [*]
    · rw [if_neg fun hc => hia hc.1, List.map_eq_nil_iff, List.filter_eq_nil_iff]
      exact fun j hj hc => hia ((hq i hi j (List.mem_range.mp hj)).mp hc).1
  rw [grid, List.filter_flatMap]
  -- the rows up to one, and the row of the place
  have hrows : ∀ n ≤ h, (List.range n).flatMap (fun i => ((List.range w).map fun j => f i j).filter q) =
      if a < n ∧ b < w then [f a b] else [] := by
    intro n
    induction n with
    | zero => exact fun _ => rfl
    | succ n ih =>
      intro hn
      rw [List.range_succ, List.flatMap_append, ih (by omega), List.flatMap_singleton, hrow n hn]
      rcases Nat.lt_trichotomy a n with hlt | rfl | hgt
      · rw [if_neg (by omega : ¬ (n = a ∧ b < w)), List.append_nil]
        exact if_congr (by omega) rfl rfl
      · rw [if_neg (by omega), List.nil_append]
        exact if_congr (by omega) rfl rfl
      · rw [if_neg (by omega), if_neg (by omega), if_neg (by omega)]
        rfl
  exact hrows h le_rfl

/-! ## Painting again -/

/-- **Painting regions over and over**: what is seen at a place is painted just if the place is in one of
the regions, and painting again changes nothing. -/
theorem foldl_repaint {S R C : Type*} {step : S → R → S} (view : S → C) (paint : C → C)
    {region : R → Prop} [DecidablePred region] {I : S → Prop} {ok : R → Prop}
    (hagain : ∀ c, paint (paint c) = paint c) (hkeep : ∀ s r, I s → ok r → I (step s r))
    (hstep : ∀ s r, I s → ok r → view (step s r) = if region r then paint (view s) else view s)
    {s : S} (hs : I s) {rs : List R} (hrs : ∀ r ∈ rs, ok r) :
    view (rs.foldl step s) = if ∃ r ∈ rs, region r then paint (view s) else view s := by
  induction rs generalizing s with
  | nil =>
    rw [if_neg fun ⟨r, hr, _⟩ => (List.not_mem_nil hr).elim]
    rfl
  | cons r rs ih =>
    obtain ⟨hr, hrest⟩ := List.forall_mem_cons.mp hrs
    rw [List.foldl_cons, ih (hkeep s r hs hr) hrest, hstep s r hs hr]
    have hcons : (∃ x ∈ r :: rs, region x) ↔ region r ∨ ∃ x ∈ rs, region x := by
      simp only [List.mem_cons, exists_eq_or_imp]
    by_cases hp : region r
    · rw [if_pos hp, hagain, ite_self, if_pos (hcons.mpr (Or.inl hp))]
    · rw [if_neg hp]
      exact if_congr ⟨fun h => hcons.mpr (Or.inr h), fun h => (hcons.mp h).resolve_left hp⟩ rfl rfl

end Raster
