import Mathlib.Algebra.GroupWithZero.Nat
import ZohoOs.Lib.Layout

/-!
# Numbers in memory

Numbers laid out with the lowest byte first, as the fields of a packed structure, and arrays of structures.

## Main definitions

* `leBytes n v`: the `n` bytes of a number
* `loadLe mem off n`: the number in the `n` bytes at an address
* `store mem off xs`: a memory with values stored in it

## Main results

* `loadLe_leBytes`: a number is read back, up to its size
* `holds_flatMap`: the elements of an array
* `holds_store`, `Holds.store_other`: a store, and what it leaves
-/

namespace Layout

section Arrays

variable {α : Type*} {mem : Nat → α} {off : Nat} {xs ys : List α}

/-- **An array is laid out** as its elements, each of the same size. -/
theorem holds_flatMap {n size : Nat} {f : Nat → List α} (hsize : ∀ i, (f i).length = size) :
    Holds mem off ((List.range n).flatMap f) ↔ ∀ i < n, Holds mem (off + size * i) (f i) := by
  have hlen : ∀ n, ((List.range n).flatMap f).length = size * n := fun n => by
    simp [List.length_flatMap, hsize, Nat.mul_comm]
  induction n with
  | zero => simp [holds_nil]
  | succ n ih =>
    rw [List.range_succ, List.flatMap_append, holds_append, hlen, List.flatMap_singleton]
    constructor
    · rintro ⟨hold, hlast⟩ i hi
      obtain hi | rfl := Nat.lt_succ_iff_lt_or_eq.mp hi
      · exact ih.mp hold i hi
      · exact hlast
    · exact fun h => ⟨ih.mpr fun i hi => h i (by omega), h n (by omega)⟩

/-- A memory with the values stored from `off` on. -/
def store (mem : Nat → α) (off : Nat) (xs : List α) : Nat → α :=
  fun a => if off ≤ a then xs[a - off]?.getD (mem a) else mem a

theorem holds_store (mem : Nat → α) (off : Nat) (xs : List α) : Holds (store mem off xs) off xs := by
  intro i x hx
  rw [store, if_pos (Nat.le_add_right off i), Nat.add_sub_cancel_left, hx, Option.getD_some]

/-- A store leaves what lies outside of it. -/
theorem store_of_out {a : Nat} (h : a < off ∨ off + xs.length ≤ a) : store mem off xs a = mem a := by
  rw [store]
  split
  · rw [List.getElem?_eq_none (by omega), Option.getD_none]
  · rfl

/-- What is held is what the memory has there. -/
theorem Holds.congr {mem' : Nat → α} (h : Holds mem off xs)
    (hsame : ∀ a, off ≤ a → a < off + xs.length → mem' a = mem a) : Holds mem' off xs := by
  intro i x hx
  have hi : i < xs.length := (List.getElem?_eq_some_iff.mp hx).1
  rw [hsame (off + i) (by omega) (by omega)]
  exact h i x hx

/-- A store leaves what is held apart from it. -/
theorem Holds.store_other {off' : Nat} (h : Holds mem off xs)
    (hapart : off + xs.length ≤ off' ∨ off' + ys.length ≤ off) : Holds (store mem off' ys) off xs :=
  h.congr fun a hlo hhi => store_of_out (by omega)

/-- A store of one value. -/
theorem Holds.store_set {i : Nat} (x : α) (h : Holds mem off xs) :
    Holds (store mem (off + i) [x]) off (xs.set i x) := by
  intro k y hk
  by_cases hik : i = k
  · subst hik
    have hy : y = x := by
      rw [List.getElem?_set_self'] at hk
      obtain ⟨-, -, rfl⟩ := Option.map_eq_some_iff.mp hk
      rfl
    rw [hy]
    exact holds_store mem (off + i) [x] 0 x rfl
  · rw [List.getElem?_set_ne hik] at hk
    rw [store_of_out (by rw [List.length_singleton]; omega)]
    exact h k y hk

end Arrays

section Numbers

variable {mem : Nat → BitVec 8} {off n v : Nat}

/-- The lowest `n` bytes of a number, the lowest one first. -/
def leBytes : Nat → Nat → List (BitVec 8)
  | 0, _ => []
  | n + 1, v => BitVec.ofNat 8 v :: leBytes n (v / 256)

@[simp] theorem leBytes_length (n v : Nat) : (leBytes n v).length = n := by
  induction n generalizing v with
  | zero => rfl
  | succ n ih => rw [leBytes, List.length_cons, ih]

/-- The number in `n` bytes of the memory, the lowest one first. -/
def loadLe (mem : Nat → BitVec 8) (off : Nat) : Nat → Nat
  | 0 => 0
  | n + 1 => (mem off).toNat + 256 * loadLe mem (off + 1) n

/-- **A number is read back**, up to the size it is stored in. -/
theorem loadLe_leBytes (h : Holds mem off (leBytes n v)) : loadLe mem off n = v % 256 ^ n := by
  induction n generalizing off v with
  | zero => rw [loadLe, Nat.pow_zero, Nat.mod_one]
  | succ n ih =>
    rw [leBytes, holds_cons] at h
    have hsplit : v % 256 ^ (n + 1) = v % 256 + 256 * (v / 256 % 256 ^ n) := by
      rw [Nat.pow_succ', Nat.mod_mul]
    rw [loadLe, h.1, ih h.2, BitVec.toNat_ofNat, hsplit]

theorem loadLe_of_lt (h : Holds mem off (leBytes n v)) (hv : v < 256 ^ n) : loadLe mem off n = v :=
  (loadLe_leBytes h).trans (Nat.mod_eq_of_lt hv)

end Numbers

end Layout
