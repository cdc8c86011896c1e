import Mathlib.Data.Nat.ModEq

/-!
# One's-complement sums

A sum of digits of base `m + 1` is brought back to one digit by adding its carry, again and again.
What is left is the sum modulo `m`, with `m` in the place of zero: zero is left of the sum zero only.

## Main definitions

* `carried m s`: the digit a sum is carried to

## Main results

* `carried_carry`: adding the carry leaves it
* `carried_add_complement`: a sum with its complement is carried to `m`
-/

namespace OnesComplement

/-- The digit a sum is carried to, of base `m + 1`. -/
def carried (m s : Nat) : Nat := if s = 0 then 0 else (s - 1) % m + 1

variable {m s t : Nat}

@[simp] theorem carried_zero : carried m 0 = 0 := rfl

theorem carried_of_pos (hs : 0 < s) : carried m s = (s - 1) % m + 1 := by
  rw [carried, if_neg (Nat.ne_of_gt hs)]

/-- A digit is carried to itself. -/
theorem carried_of_le (hs : s ≤ m) : carried m s = s := by
  rcases Nat.eq_zero_or_pos s with rfl | hpos
  · rfl
  · rw [carried_of_pos hpos, Nat.mod_eq_of_lt (by omega)]
    omega

theorem carried_le (hm : 0 < m) : carried m s ≤ m := by
  rcases Nat.eq_zero_or_pos s with rfl | hpos
  · exact Nat.zero_le m
  · rw [carried_of_pos hpos]
    exact Nat.mod_lt _ hm

theorem carried_modEq : carried m s ≡ s [MOD m] := by
  rcases Nat.eq_zero_or_pos s with rfl | hpos
  · rfl
  · rw [carried_of_pos hpos]
    calc (s - 1) % m + 1 ≡ s - 1 + 1 [MOD m] := (Nat.mod_modEq _ _).add_right 1
      _ = s := Nat.sub_add_cancel hpos

/-- Two sums that are not zero are carried to one digit if they agree modulo `m`. -/
theorem carried_congr (hs : 0 < s) (ht : 0 < t) (h : s ≡ t [MOD m]) :
    carried m s = carried m t := by
  rw [carried_of_pos hs, carried_of_pos ht]
  have hpred : s - 1 ≡ t - 1 [MOD m] := by
    apply Nat.ModEq.add_right_cancel' 1
    rwa [Nat.sub_add_cancel hs, Nat.sub_add_cancel ht]
  exact congrArg (· + 1) hpred

/-- **Adding the carry** to the last digit leaves the digit a sum is carried to. -/
theorem carried_carry : carried m (s % (m + 1) + s / (m + 1)) = carried m s := by
  rcases Nat.eq_zero_or_pos s with rfl | hpos
  · simp only [Nat.zero_mod, Nat.zero_div, Nat.add_zero]
  have hsplit := Nat.mod_add_div s (m + 1)
  have hsum : 0 < s % (m + 1) + s / (m + 1) := by
    by_contra hzero
    obtain ⟨hmod, hdiv⟩ := Nat.add_eq_zero_iff.mp (Nat.eq_zero_of_not_pos hzero)
    rw [hmod, hdiv, Nat.mul_zero] at hsplit
    omega
  apply carried_congr hsum hpos
  -- the base is one more than the modulus
  have hbase : m + 1 ≡ 1 [MOD m] := by simp [Nat.ModEq]
  calc s % (m + 1) + s / (m + 1)
      = s % (m + 1) + 1 * (s / (m + 1)) := by rw [Nat.one_mul]
    _ ≡ s % (m + 1) + (m + 1) * (s / (m + 1)) [MOD m] :=
        ((hbase.symm).mul_right _).add_left _
    _ = s := hsplit

/-- **A sum with its complement** is carried to `m`, the second zero. -/
theorem carried_add_complement (hm : 0 < m) : carried m (s + (m - carried m s)) = m := by
  have hle := carried_le (s := s) hm
  rcases Nat.eq_zero_or_pos s with rfl | hpos
  · rw [carried_zero, Nat.zero_add, Nat.sub_zero, carried_of_le (Nat.le_refl m)]
  calc carried m (s + (m - carried m s))
      = carried m m := by
        apply carried_congr (by omega) hm
        calc s + (m - carried m s) ≡ carried m s + (m - carried m s) [MOD m] :=
              carried_modEq.symm.add_right _
          _ = m := Nat.add_sub_cancel' hle
    _ = m := carried_of_le (Nat.le_refl m)

end OnesComplement
