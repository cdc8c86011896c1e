import Mathlib.Algebra.Order.Ring.Int
import Mathlib.Logic.Function.Basic
import Mathlib.Data.List.Basic

/-!
# Ring buffers

A queue in an array of `k` slots: it starts at the slot `head`, goes round, and ends before the slot
`tail`. One slot stays free, so that the two ends tell a full queue from an empty one.

## Main definitions

* `Holds slots head tail q`: the slots from `head` up to `tail` are the queue `q`

## Main results

* `Holds.full_iff`, `Holds.empty_iff`: what the two ends say about the length
* `Holds.push`, `Holds.pop`: a new last element, and the first one taken
-/

namespace Ring

variable {α : Type*} {k : ℕ} [NeZero k] {slots : Fin k → α} {head tail : ℕ} {q : List α} {a : α}

/-- The slots from `head` up to `tail` are the queue, and a slot is left. -/
structure Holds (slots : Fin k → α) (head tail : ℕ) (q : List α) : Prop where
  head_lt : head < k
  length_lt : q.length < k
  tail_eq : tail = (head + q.length) % k
  slot : ∀ i b, q[i]? = some b → slots (Fin.ofNat k (head + i)) = b

theorem Holds.nil (hhead : head < k) : Holds slots head head [] where
  head_lt := hhead
  length_lt := Nat.lt_of_le_of_lt (Nat.zero_le head) hhead
  tail_eq := (Nat.mod_eq_of_lt hhead).symm
  slot i b hb := by cases hb

theorem Holds.tail_lt (h : Holds slots head tail q) : tail < k := by
  rw [h.tail_eq]
  exact Nat.mod_lt _ (Nat.lt_of_le_of_lt (Nat.zero_le head) h.head_lt)

omit [NeZero k] in
/-- A sum of two numbers below `k` goes round at most once. -/
theorem add_mod {m n : ℕ} (hm : m < k) (hn : n ≤ k) :
    (m + n) % k = if m + n < k then m + n else m + n - k := by
  split
  · exact Nat.mod_eq_of_lt ‹_›
  · rw [Nat.mod_eq_sub_mod (by omega)]
    exact Nat.mod_eq_of_lt (by omega)

/-- **The ends meet where the queue is empty.** -/
theorem Holds.empty_iff (h : Holds slots head tail q) : head = tail ↔ q = [] := by
  have hlt := h.length_lt
  have hhead := h.head_lt
  rw [h.tail_eq, add_mod hhead hlt.le, ← List.length_eq_zero_iff]
  split <;> omega

/-- **The tail is one slot behind the head where the queue is full.** -/
theorem Holds.full_iff (h : Holds slots head tail q) :
    (tail + 1) % k = head ↔ q.length + 1 = k := by
  have hlt := h.length_lt
  have hhead := h.head_lt
  rw [h.tail_eq, Nat.mod_add_mod, Nat.add_assoc, add_mod hhead hlt]
  split <;> omega

/-- **A new last element**, where there is room. -/
theorem Holds.push (h : Holds slots head tail q) (hroom : (tail + 1) % k ≠ head) :
    Holds (Function.update slots (Fin.ofNat k tail) a) head ((tail + 1) % k) (q ++ [a]) := by
  have hlt := h.length_lt
  have hhead := h.head_lt
  have hnext : q.length + 1 < k := Nat.lt_of_le_of_ne hlt fun he => hroom (h.full_iff.mpr he)
  refine ⟨hhead, by rw [List.length_append]; exact hnext, ?_, fun i b hb => ?_⟩
  · rw [h.tail_eq, Nat.mod_add_mod, List.length_append, List.length_singleton, Nat.add_assoc]
  · rcases Nat.lt_or_ge i q.length with hi | hi
    · rw [List.getElem?_append_left hi] at hb
      rw [Function.update_of_ne, h.slot i b hb]
      -- the slots of the queue are other slots than the next one
      intro he
      have hval := congrArg Fin.val he
      rw [Fin.val_ofNat, Fin.val_ofNat, h.tail_eq, Nat.mod_mod, add_mod hhead (by omega),
        add_mod hhead hlt.le] at hval
      split at hval <;> split at hval <;> omega
    · rw [List.getElem?_append_right hi] at hb
      obtain ⟨hzero, rfl⟩ : i - q.length = 0 ∧ a = b := by
        cases hsub : i - q.length with
        | zero => exact ⟨rfl, by simpa [hsub] using hb⟩
        | succ n => simp [hsub] at hb
      have hslot : Fin.ofNat k (head + i) = Fin.ofNat k tail := by
        apply Fin.ext
        rw [Fin.val_ofNat, Fin.val_ofNat, h.tail_eq, Nat.mod_mod]
        congr 1
        omega
      rw [hslot, Function.update_self]

/-- **The first element** is in the slot at the head, and the rest starts behind it. -/
theorem Holds.pop (h : Holds slots head tail (a :: q)) :
    slots (Fin.ofNat k head) = a ∧ Holds slots ((head + 1) % k) tail q := by
  have hlt := h.length_lt
  have hhead := h.head_lt
  rw [List.length_cons] at hlt
  refine ⟨h.slot 0 a rfl, Nat.mod_lt _ (by omega), by omega, ?_, fun i b hb => ?_⟩
  · rw [h.tail_eq, Nat.mod_add_mod, List.length_cons]
    congr 1
    omega
  · rw [← h.slot (i + 1) b hb]
    congr 1
    apply Fin.ext
    rw [Fin.val_ofNat, Fin.val_ofNat, Nat.mod_add_mod]
    congr 1
    omega

end Ring
