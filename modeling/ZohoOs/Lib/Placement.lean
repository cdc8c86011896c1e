import Mathlib.Data.List.Nodup
import Mathlib.Data.Fintype.BigOperators
import Mathlib.Algebra.BigOperators.Group.Finset.Basic

/-!
# Items at places

Lists of items at places, no item twice: what adding an item at a place and taking one from a place
keep, and how often an item occurs.

## Main definitions

* `Apart place`: no place repeats an item and no two places share one

## Main results

* `Apart.put`, `Apart.shrink`: adding and taking
* `Apart.sum_count`: an item at some place occurs once in all
-/

namespace Placement

variable {ι α : Type*} {place : ι → List α}

/-- No place repeats an item, and no two places share one. -/
structure Apart (place : ι → List α) : Prop where
  nodup : ∀ i, (place i).Nodup
  disjoint : ∀ i j, i ≠ j → ∀ a ∈ place i, a ∉ place j

theorem Apart.eq_of_mem (h : Apart place) {i j : ι} {a : α} (hi : a ∈ place i)
    (hj : a ∈ place j) : i = j := by
  by_contra hne
  exact h.disjoint i j hne a hi hj

/-- **An item at some place occurs once in all.** -/
theorem Apart.sum_count [Fintype ι] [DecidableEq α] (h : Apart place) {i : ι} {a : α}
    (ha : a ∈ place i) : ∑ j, (place j).count a = 1 := by
  rw [Finset.sum_eq_single i]
  · exact List.count_eq_one_of_mem (h.nodup i) ha
  · exact fun j _ hj => List.count_eq_zero.mpr (h.disjoint i j (Ne.symm hj) a ha)
  · exact fun hi => absurd (Finset.mem_univ i) hi

variable [DecidableEq ι]

theorem mem_update {i j : ι} {l : List α} {a : α} :
    a ∈ Function.update place i l j ↔ (j = i ∧ a ∈ l) ∨ (j ≠ i ∧ a ∈ place j) := by
  by_cases h : j = i
  · subst h
    simp
  · simp [h]

/-- The list at one place is another, of items that are nowhere else. -/
theorem Apart.update (h : Apart place) {i : ι} {l : List α} (hl : l.Nodup)
    (hnew : ∀ a ∈ l, ∀ j, j ≠ i → a ∉ place j) : Apart (Function.update place i l) := by
  constructor
  · intro j
    by_cases hj : j = i
    · subst hj
      rwa [Function.update_self]
    · rw [Function.update_of_ne hj]
      exact h.nodup j
  · intro j k hne a ha hk
    rcases mem_update.mp ha with ⟨rfl, hal⟩ | ⟨hj, haj⟩
    · rcases mem_update.mp hk with ⟨rfl, -⟩ | ⟨hk, hmem⟩
      · exact hne rfl
      · exact hnew a hal k hk hmem
    · rcases mem_update.mp hk with ⟨rfl, hmem⟩ | ⟨-, hmem⟩
      · exact hnew a hmem j hj haj
      · exact h.disjoint j k hne a haj hmem

/-- Keeping only some items of a place. -/
theorem Apart.shrink (h : Apart place) {i : ι} {l : List α} (hl : l.Sublist (place i)) :
    Apart (Function.update place i l) :=
  h.update (hl.nodup (h.nodup i)) fun a ha j hj => h.disjoint i j (Ne.symm hj) a (hl.subset ha)

/-- Adding an item that is nowhere, behind what is kept of a place. -/
theorem Apart.put (h : Apart place) {i : ι} {a : α} {l : List α} (hl : l.Sublist (place i))
    (ha : ∀ j, a ∉ place j) : Apart (Function.update place i (l ++ [a])) := by
  refine h.update ?_ fun b hb j hj => ?_
  · refine List.nodup_append.mpr ⟨hl.nodup (h.nodup i), List.nodup_singleton a, fun b hb c hc => ?_⟩
    rintro rfl
    exact ha i (List.mem_singleton.mp hc ▸ hl.subset hb)
  · rcases List.mem_append.mp hb with hb | hb
    · exact h.disjoint i j (Ne.symm hj) b (hl.subset hb)
    · exact List.mem_singleton.mp hb ▸ ha j

/-- An item taken from a place is nowhere any more. -/
theorem Apart.not_mem_rest (h : Apart place) {i : ι} {a : α} {l : List α} (hi : place i = a :: l)
    (j : ι) : a ∉ Function.update place i l j := by
  have hnodup := hi ▸ h.nodup i
  intro hmem
  rcases mem_update.mp hmem with ⟨-, hmem⟩ | ⟨hj, hmem⟩
  · exact (List.nodup_cons.mp hnodup).1 hmem
  · exact h.disjoint i j (Ne.symm hj) a (hi ▸ List.mem_cons_self) hmem

end Placement
