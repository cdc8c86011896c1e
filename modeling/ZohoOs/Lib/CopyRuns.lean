import Mathlib.Algebra.Order.Ring.Int
import ZohoOs.Lib.Raster

/-!
# Copies into a memory

Runs of cells that are copied into a memory, one run after another.

## Main definitions

* `CopyRun`: where a run goes, and what it copies
* `CopyRun.Agrees T r`: the run copies what the memory `T` has there

## Main results

* `copyAll_apply`: runs that agree with one memory leave it where they go, in any order and with any
  overlap
-/

namespace CopyRuns

variable {α : Type*}

/-- `n` cells are copied to `dst` and behind. -/
structure CopyRun (α : Type*) where
  dst : ℕ
  n : ℕ
  src : ℕ → α

namespace CopyRun

/-- The cell is in the run. -/
def Covers (r : CopyRun α) (i : ℕ) : Prop := r.dst ≤ i ∧ i < r.dst + r.n

instance (r : CopyRun α) (i : ℕ) : Decidable (r.Covers i) := inferInstanceAs (Decidable (_ ∧ _))

/-- The memory after the copy. -/
def apply (m : ℕ → α) (r : CopyRun α) : ℕ → α := fun i =>
  if r.Covers i then r.src (i - r.dst) else m i

/-- The run copies what the memory has there. -/
def Agrees (T : ℕ → α) (r : CopyRun α) : Prop := ∀ k < r.n, r.src k = T (r.dst + k)

theorem Agrees.apply {T m : ℕ → α} {r : CopyRun α} (h : r.Agrees T) (i : ℕ) :
    r.apply m i = if r.Covers i then T i else m i := by
  rw [CopyRun.apply]
  split
  · rename_i hi
    obtain ⟨hle, hlt⟩ := hi
    rw [h (i - r.dst) (by omega), Nat.add_sub_cancel' hle]
  · rfl

end CopyRun

/-- The memory after some copies, one after another. -/
def copyAll (m : ℕ → α) (rs : List (CopyRun α)) : ℕ → α := rs.foldl CopyRun.apply m

/-- **Runs that agree with a memory** leave it in the cells they cover, and the others as they were. -/
theorem copyAll_apply {T m : ℕ → α} {rs : List (CopyRun α)} (h : ∀ r ∈ rs, r.Agrees T) (i : ℕ) :
    copyAll m rs i = if ∃ r ∈ rs, r.Covers i then T i else m i :=
  Raster.foldl_repaint (fun m : ℕ → α => m i) (fun _ => T i) (I := fun _ => True) (fun _ => rfl)
    (fun _ _ _ _ => trivial) (fun _ _ _ hr => hr.apply i) trivial h

end CopyRuns
