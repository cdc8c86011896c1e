import Mathlib.Algebra.Order.Ring.Int

/-!
# Arrays of fixed sizes

An index of an array of `k` entries is a number below `k`, and a literal is one just if the array is
not empty. The facts are stated once, for the sizes the arrays have.
-/

namespace Indices

instance (priority := 1100) neZero_one : NeZero 1 := ⟨by decide⟩

instance (priority := 1100) neZero_two : NeZero 2 := ⟨by decide⟩

/-- A descriptor table, or an event queue. -/
instance (priority := 1100) neZero_sixteen : NeZero 16 := ⟨by decide⟩

/-- A receive ring. -/
instance (priority := 1100) neZero_ring : NeZero 128 := ⟨by decide⟩

/-- A page table in words, or a disk sector in bytes. -/
instance (priority := 1100) neZero_page : NeZero 512 := ⟨by decide⟩

end Indices
