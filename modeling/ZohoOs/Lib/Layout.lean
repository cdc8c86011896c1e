import Mathlib.Data.List.Basic

/-!
# Lists laid out in memory

A list of values at consecutive addresses of a memory, as a packet in its buffer.

## Main definitions

* `Holds mem off xs`: the memory holds `xs` from `off` on

## Main results

* `holds_append`: a layout is that of its parts
* `Holds.map_range`: reading back what is held
-/

namespace Layout

variable {α : Type*} {mem : Nat → α} {off : Nat} {xs ys : List α}

/-- The memory holds the values `xs`, from `off` on. -/
def Holds (mem : Nat → α) (off : Nat) (xs : List α) : Prop :=
  ∀ i x, xs[i]? = some x → mem (off + i) = x

theorem holds_nil : Holds mem off [] := fun i x h => by simp at h

theorem holds_cons {x : α} : Holds mem off (x :: xs) ↔ mem off = x ∧ Holds mem (off + 1) xs := by
  constructor
  · intro h
    refine ⟨h 0 x rfl, fun i y hy => ?_⟩
    rw [Nat.add_assoc, Nat.add_comm 1 i]
    exact h (i + 1) y hy
  · rintro ⟨hx, h⟩ i y hy
    cases i with
    | zero => exact hx.trans (Option.some.inj hy)
    | succ i =>
      rw [← h i y hy, Nat.add_assoc, Nat.add_comm 1 i]

/-- **A layout is that of its parts**, one behind the other. -/
theorem holds_append : Holds mem off (xs ++ ys) ↔
    Holds mem off xs ∧ Holds mem (off + xs.length) ys := by
  induction xs generalizing off with
  | nil => simp [holds_nil]
  | cons x xs ih =>
    rw [List.cons_append, holds_cons, holds_cons, ih, and_assoc, List.length_cons, Nat.add_assoc,
      Nat.add_comm 1]

/-- Reading back what is held. -/
theorem Holds.map_range (h : Holds mem off xs) :
    ((List.range xs.length).map fun i => mem (off + i)) = xs := by
  refine List.ext_getElem (by simp) fun i h₁ h₂ => ?_
  rw [List.getElem_map, List.getElem_range]
  exact h i _ (List.getElem?_eq_getElem h₂)

theorem Holds.vector {n : Nat} {v : Vector α n} (h : Holds mem off v.toList) :
    (Vector.ofFn fun i : Fin n => mem (off + i)) = v := by
  ext i hi
  rw [Vector.getElem_ofFn]
  refine h i _ ?_
  rw [List.getElem?_eq_getElem (by simpa using hi), Vector.getElem_toList]

/-- The start of a memory that has a list in front. -/
theorem holds_of_forall (h : ∀ i (hi : i < xs.length), mem i = xs[i]) : Holds mem 0 xs := by
  intro i x hx
  obtain ⟨hi, rfl⟩ := List.getElem?_eq_some_iff.mp hx
  rw [Nat.zero_add, h i hi]

end Layout
