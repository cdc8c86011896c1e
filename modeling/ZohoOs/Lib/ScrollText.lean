import Mathlib.Algebra.Order.Ring.Int
import Mathlib.Logic.Function.Basic

/-!
# Text in cells that scroll

A text stands in consecutive cells, and a window shows some of them. When the window scrolls, cells at its
top are lost, and the others move up.

## Main definitions

* `Spells cells top start n text`: the `n` characters of the text stand in the cells from `start` on, as
  far as a window that starts at `top` shows them

## Main results

* `Spells.put`, `Spells.erase`: a character is put behind the text, and the last one is erased
* `Spells.scroll`: the window scrolls
-/

namespace ScrollText

variable {α : Type*}

/-- **The cells of a window spell a text**, as far as the window shows it. -/
def Spells (cells : ℕ → α) (top start n : ℕ) (text : ℕ → α) : Prop :=
  ∀ k < n, top ≤ start + k → cells (start + k - top) = text k

variable {cells cells' text : ℕ → α} {top start n pos : ℕ}

theorem Spells.zero : Spells cells top start 0 text := fun k hk => absurd hk (Nat.not_lt_zero k)

/-- A character is put behind the text. -/
theorem Spells.put (h : Spells cells top start n text) (hpos : top + pos = start + n) (c : α) :
    Spells (Function.update cells pos c) top start (n + 1) (Function.update text n c) := by
  intro k hk hshown
  rcases Nat.lt_succ_iff_lt_or_eq.mp hk with hlt | rfl
  · rw [Function.update_of_ne (by omega), Function.update_of_ne (by omega)]
    exact h k hlt hshown
  · rw [Function.update_self, ← hpos, Nat.add_sub_cancel_left, Function.update_self]

/-- The last character is erased. -/
theorem Spells.erase (h : Spells cells top start (n + 1) text) (hpos : top + pos = start + n) (c : α) :
    Spells (Function.update cells pos c) top start n text := by
  intro k hk hshown
  rw [Function.update_of_ne (by omega)]
  exact h k (Nat.lt_succ_of_lt hk) hshown

/-- The window scrolls by some cells, and the cells that are kept show all of the text that was shown
below them. -/
theorem Spells.scroll {by_ kept : ℕ} (h : Spells cells top start n text)
    (hmove : ∀ i < kept, cells' i = cells (i + by_)) (hend : start + n ≤ top + by_ + kept) :
    Spells cells' (top + by_) start n text := by
  intro k hk hshown
  rw [hmove _ (by omega), ← h k hk (by omega)]
  congr 1
  omega

end ScrollText
