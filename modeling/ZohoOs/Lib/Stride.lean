import Mathlib.Data.List.Basic
import Mathlib.Data.Nat.Basic

/-!
# Walks with two strides

A loop goes through an interval of numbers, by a long stride where a test says so and by one
elsewhere. Where the test is one of the block a number lies in, the loop need not enter a block at its
first number: it carries its first offset through the long strides.

## Main definitions

* `visits`: the numbers the loop stops at
* `entry`, `Visited`: the offset a block is entered at, and the numbers reached in it

## Main results

* `visits_congr`: the test matters inside the interval only
* `visits_short`: without long strides, the loop stops at every number
* `mem_visits`: the numbers the loop stops at, one by one
* `exists_visit`: no block that lies in the interval is left out
-/

namespace Stride

/-- How far the loop goes on from `n`. -/
def stride (wide : ℕ → Bool) (k n : ℕ) : ℕ := if wide n then k else 1

/-- The numbers the loop stops at from `a` on, below `b`. -/
def visits (wide : ℕ → Bool) (k : ℕ) : ℕ → ℕ → ℕ → List ℕ
  | 0, _, _ => []
  | fuel + 1, a, b => if a < b then a :: visits wide k fuel (a + stride wide k a) b else []

section Visits

variable {wide wide' : ℕ → Bool} {k a b n fuel : ℕ}

theorem stride_pos (hk : 0 < k) (n : ℕ) : 0 < stride wide k n := by
  unfold stride
  split <;> omega

theorem visits_succ (h : a < b) :
    visits wide k (fuel + 1) a b = a :: visits wide k fuel (a + stride wide k a) b := if_pos h

theorem visits_nil (h : b ≤ a) : visits wide k fuel a b = [] := by
  cases fuel with
  | zero => rfl
  | succ fuel => exact if_neg (Nat.not_lt.mpr h)

/-- The test matters inside the interval only. -/
theorem visits_congr (h : ∀ n, a ≤ n → n < b → wide n = wide' n) :
    visits wide k fuel a b = visits wide' k fuel a b := by
  induction fuel generalizing a with
  | zero => rfl
  | succ fuel ih =>
    by_cases hab : a < b
    · have hstride : stride wide k a = stride wide' k a := by
        rw [stride, h a le_rfl hab, stride]
      rw [visits_succ hab, visits_succ hab, hstride, ih fun n hn => h n (by omega)]
    · rw [visits_nil (by omega), visits_nil (by omega)]

/-- With rounds for the whole interval, more of them change nothing. -/
theorem visits_fuel (hk : 0 < k) {fuel' : ℕ} (h : b ≤ a + fuel) (h' : b ≤ a + fuel') :
    visits wide k fuel a b = visits wide k fuel' a b := by
  induction fuel generalizing a fuel' with
  | zero => exact (visits_nil h).symm
  | succ fuel ih =>
    by_cases hab : a < b
    · have hpos : 0 < stride wide k a := stride_pos hk a
      cases fuel' with
      | zero => omega
      | succ fuel' =>
        have hnext : b ≤ a + stride wide k a + fuel' := by omega
        rw [visits_succ hab, visits_succ hab, ih (by omega) hnext]
    · rw [visits_nil (by omega), visits_nil (by omega)]

theorem visits_bounds (hn : n ∈ visits wide k fuel a b) : a ≤ n ∧ n < b := by
  induction fuel generalizing a with
  | zero => cases hn
  | succ fuel ih =>
    by_cases hab : a < b
    · rw [visits_succ hab] at hn
      rcases List.mem_cons.mp hn with rfl | hn
      · exact ⟨le_rfl, hab⟩
      · have hbounds := ih hn
        omega
    · rw [visits_nil (by omega)] at hn
      cases hn

/-- Where no long stride is taken, the loop stops at every number. -/
theorem visits_short (hwide : ∀ n, wide n = false) (hfuel : b ≤ a + fuel) :
    visits wide k fuel a b = List.range' a (b - a) := by
  induction fuel generalizing a with
  | zero =>
    rw [Nat.sub_eq_zero_of_le (by omega)]
    rfl
  | succ fuel ih =>
    by_cases hab : a < b
    · have hstride : stride wide k a = 1 := if_neg (by simp [hwide])
      rw [visits_succ hab, hstride, ih (by omega), show b - a = b - (a + 1) + 1 by omega]
      rfl
    · rw [visits_nil (by omega), Nat.sub_eq_zero_of_le (by omega)]
      rfl

end Visits

/-! ## Tests of blocks -/

/-- The offset at which block `m` is entered from `a`: that of `a` as long as all the blocks before
it are gone through by long strides, and 0 from then on. -/
def entry (big : ℕ → Bool) (k a m : ℕ) : ℕ :=
  if ∀ j < m, a / k ≤ j → big j = true then a % k else 0

/-- The loop from `a` stops at `n`: in a block that takes a long stride at the offset it is entered
at, and in the others from that offset on. -/
def Visited (big : ℕ → Bool) (k a n : ℕ) : Prop :=
  if big (n / k) then n % k = entry big k a (n / k) else entry big k a (n / k) ≤ n % k

section Blocks

variable {big : ℕ → Bool} {k a b m n fuel : ℕ}

theorem entry_self : entry big k a (a / k) = a % k :=
  if_pos fun _ hj hle => absurd hj (Nat.not_lt.mpr hle)

theorem visited_self : Visited big k a a := by
  unfold Visited
  rw [entry_self]
  split
  · rfl
  · exact le_rfl

/-- A long stride keeps the offset. -/
theorem entry_long (hk : 0 < k) (hbig : big (a / k) = true) :
    entry big k (a + k) m = entry big k a m := by
  have hdiv : (a + k) / k = a / k + 1 := Nat.add_div_right a hk
  have hmod : (a + k) % k = a % k := Nat.add_mod_right a k
  have hiff : (∀ j < m, a / k + 1 ≤ j → big j = true) ↔ ∀ j < m, a / k ≤ j → big j = true := by
    constructor
    · intro h j hj hle
      rcases Nat.eq_or_lt_of_le hle with rfl | hlt
      · exact hbig
      · exact h j hj hlt
    · intro h j hj hle
      exact h j hj (by omega)
  rw [entry, entry, hdiv, hmod, if_congr hiff rfl rfl]

/-- Behind a block without a long stride the offset is 0. -/
theorem entry_short (hbig : big (a / k) = false) (hm : a / k < m) : entry big k a m = 0 := by
  refine if_neg fun h => ?_
  rw [h (a / k) hm le_rfl] at hbig
  cases hbig

/-- What a long stride jumps over is not visited. -/
theorem not_visited_of_jump (hk : 0 < k) (hbig : big (a / k) = true) (han : a < n)
    (hn : n < a + k) : ¬ Visited big k a n := by
  -- it is behind `a` in the same block, or before `a` in the next one
  have hsplit : n / k = a / k ∧ a % k < n % k ∨ n / k = a / k + 1 ∧ n % k < a % k := by
    have ha := Nat.div_add_mod a k
    have hn' := Nat.div_add_mod n k
    have hlt := Nat.mod_lt a hk
    have hlt' := Nat.mod_lt n hk
    have hle : a / k ≤ n / k := Nat.div_le_div_right (Nat.le_of_lt han)
    have hle' : n / k ≤ a / k + 1 := by
      rw [← Nat.add_div_right a hk]
      exact Nat.div_le_div_right (Nat.le_of_lt hn)
    rcases Nat.eq_or_lt_of_le hle with heq | hlt''
    · rw [← heq] at hn'
      exact Or.inl ⟨heq.symm, by omega⟩
    · have heq : n / k = a / k + 1 := by omega
      rw [heq, Nat.mul_add, Nat.mul_one] at hn'
      exact Or.inr ⟨heq, by omega⟩
  unfold Visited
  rcases hsplit with ⟨hblock, hoff⟩ | ⟨hblock, hoff⟩
  · rw [hblock, hbig, if_pos rfl, entry_self]
    omega
  · -- the offset of `a` is carried into the block behind
    have hentry : entry big k a (a / k + 1) = a % k := by
      refine if_pos fun j hj hle => ?_
      obtain rfl : j = a / k := by omega
      exact hbig
    rw [hblock, hentry]
    split <;> omega

/-- From the next stop on, the loop visits what it visits from there. -/
theorem visited_next (hk : 0 < k) (hn : a + stride (fun n => big (n / k)) k a ≤ n) :
    Visited big k (a + stride (fun n => big (n / k)) k a) n ↔ Visited big k a n := by
  cases hbig : big (a / k) with
  -- a long stride skips a block, and enters the next one at the same place
  | true =>
    have hstride : stride (fun n => big (n / k)) k a = k := if_pos hbig
    rw [hstride, Visited, Visited, entry_long hk hbig]
  | false =>
    have hstride : stride (fun n => big (n / k)) k a = 1 := if_neg (by simp [hbig])
    rw [hstride] at hn ⊢
    have hle : a / k ≤ n / k := Nat.div_le_div_right (by omega)
    rcases Nat.eq_or_lt_of_le hle with hblock | hlt
    · -- still in the block of `a`, where every number behind is visited
      have hnext : (a + 1) / k = n / k := by
        refine le_antisymm (Nat.div_le_div_right hn) ?_
        rw [← hblock]
        exact Nat.div_le_div_right (Nat.le_succ a)
      have hmod : ∀ x, x / k = n / k → x ≤ n → x % k ≤ n % k := by
        intro x hx hxn
        have h₁ := Nat.div_add_mod x k
        have h₂ := Nat.div_add_mod n k
        rw [hx] at h₁
        omega
      have hall : ∀ x, x / k = n / k → x ≤ n → Visited big k x n := by
        intro x hx hxn
        rw [Visited, ← hblock, hbig, if_neg (by simp), hblock, ← hx, entry_self]
        exact hmod x hx hxn
      exact iff_of_true (hall _ hnext hn) (hall _ hblock (by omega))
    · -- both enter the blocks behind at 0
      have hentry : entry big k (a + 1) (n / k) = 0 := by
        by_cases hnext : (a + 1) / k = a / k
        · exact entry_short (hnext ▸ hbig) (hnext ▸ hlt)
        · have hmod : (a + 1) % k = 0 := by
            by_contra hne
            exact hnext (Nat.succ_div_of_not_dvd fun hdvd => hne (Nat.mod_eq_zero_of_dvd hdvd))
          rw [entry, hmod, ite_self]
      rw [Visited, Visited, hentry, entry_short hbig hlt]

/-- **The numbers the loop stops at.** -/
theorem mem_visits (hk : 0 < k) (hfuel : b ≤ a + fuel) :
    n ∈ visits (fun n => big (n / k)) k fuel a b ↔ a ≤ n ∧ n < b ∧ Visited big k a n := by
  induction fuel generalizing a with
  | zero =>
    constructor
    · rintro ⟨⟩
    · omega
  | succ fuel ih =>
    by_cases hab : a < b
    · have hpos : 0 < stride (fun n => big (n / k)) k a := stride_pos hk a
      rw [visits_succ hab, List.mem_cons, ih (by omega)]
      constructor
      · rintro (rfl | ⟨hle, hlt, hvis⟩)
        · exact ⟨le_rfl, hab, visited_self⟩
        · exact ⟨by omega, hlt, (visited_next hk hle).mp hvis⟩
      · rintro ⟨hle, hlt, hvis⟩
        -- the first visit is at `a` itself
        rcases Nat.eq_or_lt_of_le hle with rfl | han
        · exact Or.inl rfl
        · refine Or.inr ?_
          by_cases hnext : a + stride (fun n => big (n / k)) k a ≤ n
          · exact ⟨hnext, hlt, (visited_next hk hnext).mpr hvis⟩
          · -- Between two visits: a block is jumped over as a whole, a stride of 1 leaves none.
            refine absurd hvis ?_
            cases hbig : big (a / k) with
            | true =>
              have hstride : stride (fun n => big (n / k)) k a = k := if_pos hbig
              exact not_visited_of_jump hk hbig han (by omega)
            | false =>
              have hstride : stride (fun n => big (n / k)) k a = 1 := if_neg (by simp [hbig])
              omega
    · rw [visits_nil (by omega)]
      constructor
      · rintro ⟨⟩
      · omega

theorem entry_lt (hk : 0 < k) (a m : ℕ) : entry big k a m < k := by
  unfold entry
  split
  · exact Nat.mod_lt a hk
  · exact hk

/-- **No block that lies in the interval is left out.** -/
theorem exists_visit (hk : 0 < k) (hfuel : b ≤ a + fuel) (ha : a ≤ k * m) (hb : k * (m + 1) ≤ b) :
    ∃ n ∈ visits (fun n => big (n / k)) k fuel a b, n / k = m := by
  have hlt : entry big k a m < k := entry_lt hk a m
  have hdiv : (k * m + entry big k a m) / k = m := by
    rw [Nat.mul_add_div hk, Nat.div_eq_of_lt hlt, Nat.add_zero]
  have hmod : (k * m + entry big k a m) % k = entry big k a m := by
    rw [Nat.mul_add_mod, Nat.mod_eq_of_lt hlt]
  rw [Nat.mul_add, Nat.mul_one] at hb
  refine ⟨k * m + entry big k a m, (mem_visits hk hfuel).mpr ⟨by omega, by omega, ?_⟩, hdiv⟩
  rw [Visited, hdiv, hmod]
  split
  · rfl
  · exact le_rfl

end Blocks

end Stride
