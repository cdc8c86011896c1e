import Mathlib.Data.BitVec

/-!
# Moves in a memory

A move reads some cells at one address and then writes them at another. Addresses wrap, and the two
regions may overlap: that the move of a region is the moves of its parts, one after another, depends on
the way from the destination to the source.

## Main definitions

* `move`: the memory after a move

## Main results

* `move_move_forward`: a region is moved in two parts, the lower one first
* `move_move_backward`: a region is moved in two parts, the upper one first
* `exists_ne_move`: a cell of the source that the first of the moves writes over is lost
-/

namespace MemoryMoves

variable {w : ℕ} {α : Type*}

/-! ### The way between two addresses -/

theorem toNat_sub_ofNat_of_le {o : BitVec w} {a : ℕ} (h : a ≤ o.toNat) :
    (o - BitVec.ofNat w a).toNat = o.toNat - a := by
  have ha : (BitVec.ofNat w a).toNat = a := by
    rw [BitVec.toNat_ofNat, Nat.mod_eq_of_lt (h.trans_lt o.isLt)]
  rw [BitVec.toNat_sub_of_le (by rwa [BitVec.le_def, ha]), ha]

theorem toNat_sub_ofNat_of_lt {o : BitVec w} {a : ℕ} (h : o.toNat < a) (ha : a ≤ 2 ^ w) :
    (o - BitVec.ofNat w a).toNat = 2 ^ w - a + o.toNat := by
  rw [BitVec.toNat_sub, BitVec.toNat_ofNat]
  obtain ha | rfl := ha.lt_or_eq
  · rw [Nat.mod_eq_of_lt ha, Nat.mod_eq_of_lt (by omega)]
  · rw [Nat.mod_self, Nat.sub_zero, Nat.add_mod_left, Nat.mod_eq_of_lt o.isLt, Nat.sub_self, Nat.zero_add]

theorem ofNat_sub_toNat_add {o : BitVec w} {a : ℕ} (h : o.toNat ≤ a) :
    BitVec.ofNat w (a - o.toNat) + o = BitVec.ofNat w a :=
  calc BitVec.ofNat w (a - o.toNat) + o
      = BitVec.ofNat w (a - o.toNat) + BitVec.ofNat w o.toNat := by
        rw [BitVec.ofNat_toNat, BitVec.setWidth_eq]
    _ = BitVec.ofNat w a := by rw [← BitVec.ofNat_add, Nat.sub_add_cancel h]

/-! ### Moves -/

/-- `k` cells are read at `s`, and then written at `d`. -/
def move (m : BitVec w → α) (d s : BitVec w) (k : ℕ) : BitVec w → α := fun x =>
  if (x - d).toNat < k then m (s + (x - d)) else m x

theorem move_of_lt {m : BitVec w → α} {d s x : BitVec w} {k : ℕ} (h : (x - d).toNat < k) :
    move m d s k x = m (s + (x - d)) := if_pos h

theorem move_of_le {m : BitVec w → α} {d s x : BitVec w} {k : ℕ} (h : k ≤ (x - d).toNat) :
    move m d s k x = m x := if_neg h.not_gt

@[simp] theorem move_zero (m : BitVec w → α) (d s : BitVec w) : move m d s 0 = m := rfl

@[simp] theorem move_self (m : BitVec w → α) (d : BitVec w) (k : ℕ) : move m d d k = m := by
  funext x
  rw [move, add_sub_cancel, ite_self]

theorem move_one (m : BitVec w → α) (d s : BitVec w) : move m d s 1 = Function.update m d (m s) := by
  funext x
  rw [Function.update_apply]
  split
  · rename_i hx
    rw [hx, move_of_lt (by rw [sub_self]; exact Nat.one_pos), sub_self, add_zero]
  · rename_i hx
    have hway : (x - d).toNat ≠ 0 := fun h => hx (sub_eq_zero.mp (BitVec.eq_of_toNat_eq h))
    exact move_of_le (by omega)

/-- **A region is moved upwards**: its lower part first, and then the rest. The moves write over no cell
that a later one reads where the destination is not ahead of the source within the region. -/
theorem move_move_forward (m : BitVec w → α) {d s : BitVec w} {a b : ℕ}
    (h : (s - d).toNat + (a + b) ≤ 2 ^ w) :
    move (move m d s a) (d + BitVec.ofNat w a) (s + BitVec.ofNat w a) b = move m d s (a + b) := by
  funext x
  by_cases hlow : (x - d).toNat < a
  · have hway : (x - (d + BitVec.ofNat w a)).toNat = 2 ^ w - a + (x - d).toNat := by
      rw [← sub_sub, toNat_sub_ofNat_of_lt hlow (by omega)]
    rw [move_of_le (by omega), move_of_lt hlow, move_of_lt (by omega)]
  have hway : (x - (d + BitVec.ofNat w a)).toNat = (x - d).toNat - a := by
    rw [← sub_sub, toNat_sub_ofNat_of_le (by omega)]
  -- in the upper part, the second move reads what the first one left
  by_cases hup : (x - d).toNat < a + b
  · have hread : s + BitVec.ofNat w a + (x - (d + BitVec.ofNat w a)) = s + (x - d) := by
      rw [← sub_sub, add_add_sub_cancel]
    -- the cell that is read is behind the lower part of the destination
    have hintact : a ≤ (s + (x - d) - d).toNat := by
      rw [add_sub_right_comm, BitVec.toNat_add_of_lt (by omega)]
      omega
    rw [move_of_lt (by omega), hread, move_of_le hintact, move_of_lt hup]
  · rw [move_of_le (by omega), move_of_le (by omega), move_of_le (by omega)]

/-- **A region is moved downwards**: its upper part first, and then the rest. -/
theorem move_move_backward (m : BitVec w → α) {d s : BitVec w} {a b : ℕ} (h : a + b ≤ (s - d).toNat) :
    move (move m (d + BitVec.ofNat w a) (s + BitVec.ofNat w a) b) d s a = move m d s (a + b) := by
  have hlt := (s - d).isLt
  funext x
  by_cases hlow : (x - d).toNat < a
  · have ha : BitVec.ofNat w a = BitVec.ofNat w (a - (x - d).toNat) + (x - d) :=
      (ofNat_sub_toNat_add hlow.le).symm
    -- the cell that is read is above the upper part of the destination, around the end of the memory
    have hintact : b ≤ (s + (x - d) - (d + BitVec.ofNat w a)).toNat := by
      rw [ha, ← add_assoc, add_sub_add_right_eq_sub, ← sub_sub, toNat_sub_ofNat_of_le (by omega)]
      omega
    rw [move_of_lt hlow, move_of_le hintact, move_of_lt (by omega)]
  have hway : (x - (d + BitVec.ofNat w a)).toNat = (x - d).toNat - a := by
    rw [← sub_sub, toNat_sub_ofNat_of_le (by omega)]
  rw [move_of_le (by omega)]
  by_cases hup : (x - d).toNat < a + b
  · rw [move_of_lt (by omega), move_of_lt hup, ← sub_sub, add_add_sub_cancel]
  · rw [move_of_le (by omega), move_of_le (by omega)]

/-! ### Cells that are lost -/

/-- A cell that is written and not read does not matter. -/
theorem move_update {m : BitVec w → α} {d s y : BitVec w} {k : ℕ} (c : α) (hd : (y - d).toNat < k)
    (hs : k ≤ (y - s).toNat) : move (Function.update m y c) d s k = move m d s k := by
  funext x
  by_cases hx : (x - d).toNat < k
  · have hne : s + (x - d) ≠ y := by
      rintro rfl
      rw [add_sub_cancel_left] at hs
      omega
    rw [move_of_lt hx, move_of_lt hx, Function.update_of_ne hne]
  · have hne : x ≠ y := fun h => hx (h ▸ hd)
    rw [move_of_le (by omega), move_of_le (by omega), Function.update_of_ne hne]

theorem move_update_ne {m : BitVec w → α} {d s y : BitVec w} {k : ℕ} {c : α} (hc : c ≠ m y)
    (hs : (y - s).toNat < k) : move (Function.update m y c) d s k ≠ move m d s k := by
  intro h
  have hway : d + (y - s) - d = y - s := add_sub_cancel_left d (y - s)
  have hcell := congrFun h (d + (y - s))
  rw [move_of_lt (by rwa [hway]), move_of_lt (by rwa [hway]), hway, add_sub_cancel,
    Function.update_self] at hcell
  exact hc hcell

/-- **A cell of the source is lost** where the first of the moves writes it and does not read it. Whatever
is done then, the region is not moved in every memory. -/
theorem exists_ne_move {c c' : α} (hc : c ≠ c') (f : (BitVec w → α) → BitVec w → α)
    {d s d' s' y : BitVec w} {k k' : ℕ} (hd : (y - d').toNat < k') (hs : k' ≤ (y - s').toNat)
    (hy : (y - s).toNat < k) : ∃ m, f (move m d' s' k') ≠ move m d s k := by
  by_contra hall
  push Not at hall
  -- two memories that differ in the cell only are the same after the first move
  exact move_update_ne (m := fun _ => c') (d := d) hc hy (by rw [← hall, ← hall, move_update c hd hs])

end MemoryMoves
