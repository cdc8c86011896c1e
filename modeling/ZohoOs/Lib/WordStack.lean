import Mathlib.Algebra.GroupWithZero.Nat
import Mathlib.Data.List.Induction
import Mathlib.Logic.Function.Basic

/-!
# Stacks of words

A stack that grows down in a memory of 8-byte words, over any type of words.

## Main definitions

* `push`, `pushAll`: words pushed, on a stack pointer and a memory
* `word`: the words above a stack pointer
* `Kept`: two memories agree on a part of the stack
* `blockCopy`: a copy of a part of the memory to another place

## Main results

* `Kept.word_pushAll`: words pushed are popped in reverse
* `pushAll_other`: what is not in the words pushed is left
* `word_blockCopy`: the words of a copy
-/

namespace WordStack

variable {α : Type*}

/-- Memory in words of 8 bytes, by the address of each. -/
abbrev Words (α : Type*) := BitVec 64 → α

/-- One word pushed. -/
def push (m : BitVec 64 × Words α) (x : α) : BitVec 64 × Words α :=
  (m.1 - 8, Function.update m.2 (m.1 - 8) x)

/-- Words pushed one after the other. -/
def pushAll (top : BitVec 64) (xs : List α) (mem : Words α) : BitVec 64 × Words α :=
  xs.foldl push (top, mem)

/-- The `i`-th word above a stack pointer. -/
def word (mem : Words α) (sp : BitVec 64) (i : Nat) : α := mem (sp + 8 * BitVec.ofNat 64 i)

/-- The memories agree on the words from `bottom` up to `top`. -/
def Kept (bottom top : BitVec 64) (mem mem' : Words α) : Prop :=
  ∀ a, a - bottom < top - bottom → mem' a = mem a

/-- The `size` bytes at `src` copied to `dst`. -/
def blockCopy (dst src size : BitVec 64) (mem : Words α) : Words α :=
  fun a => if a - dst < size then mem (src + (a - dst)) else mem a

section Push

variable {top : BitVec 64} {xs : List α} {mem mem' : Words α}

theorem pushAll_concat (x : α) : pushAll top (xs ++ [x]) mem = push (pushAll top xs mem) x := by
  simp only [pushAll, List.foldl_append, List.foldl_cons, List.foldl_nil]

/-- The stack pointer after pushes. -/
theorem pushAll_sp : (pushAll top xs mem).1 = top - 8 * BitVec.ofNat 64 xs.length := by
  induction xs using List.reverseRecOn with
  | nil => simp [pushAll]
  | append_singleton xs x ih =>
    rw [pushAll_concat, push, ih, List.length_append, List.length_singleton]
    bv_omega

/-- **Each word pushed stands at its distance from the top.** -/
theorem pushAll_read {j : Nat} (hlen : xs.length < 2 ^ 32) (hj : j < xs.length) :
    (pushAll top xs mem).2 (top - 8 * BitVec.ofNat 64 (j + 1)) = xs[j] := by
  induction xs using List.reverseRecOn with
  | nil => simp at hj
  | append_singleton xs x ih =>
    simp only [List.length_append, List.length_singleton] at hlen hj
    rw [pushAll_concat, push, pushAll_sp]
    dsimp only
    by_cases hlast : j = xs.length
    · subst hlast
      rw [show top - 8 * BitVec.ofNat 64 (xs.length + 1) =
        top - 8 * BitVec.ofNat 64 xs.length - 8 by bv_omega, Function.update_self]
      simp
    · have hne : top - 8 * BitVec.ofNat 64 (j + 1) ≠ top - 8 * BitVec.ofNat 64 xs.length - 8 := by
        bv_omega
      rw [Function.update_of_ne hne, ih (by omega) (by omega), List.getElem_append_left]

/-- **The words pushed are popped in reverse**, as long as they are kept. -/
theorem Kept.word_pushAll {i : Nat} (h : Kept (pushAll top xs mem).1 top (pushAll top xs mem).2 mem')
    (hlen : xs.length < 2 ^ 32) (hi : i < xs.length) :
    word mem' (pushAll top xs mem).1 i = xs[xs.length - 1 - i] := by
  have haddr : (pushAll top xs mem).1 + 8 * BitVec.ofNat 64 i =
      top - 8 * BitVec.ofNat 64 (xs.length - 1 - i + 1) := by
    rw [pushAll_sp, show xs.length - 1 - i + 1 = xs.length - i by omega]
    bv_omega
  rw [word, h, haddr, pushAll_read hlen (by omega)]
  rw [pushAll_sp]
  bv_omega

/-- What is not in the words pushed is left. -/
theorem pushAll_other {a : BitVec 64} (hlen : xs.length < 2 ^ 32)
    (ha : ¬ a - (pushAll top xs mem).1 < 8 * BitVec.ofNat 64 xs.length) :
    (pushAll top xs mem).2 a = mem a := by
  induction xs using List.reverseRecOn with
  | nil => rfl
  | append_singleton xs x ih =>
    simp only [List.length_append, List.length_singleton] at hlen ha
    rw [pushAll_concat, push] at ha ⊢
    rw [pushAll_sp] at ha ih ⊢
    have hne : a ≠ top - 8 * BitVec.ofNat 64 xs.length - 8 := by
      rintro rfl
      bv_omega
    dsimp only at ha ⊢
    rw [Function.update_of_ne hne]
    exact ih (by omega) (by bv_omega)

end Push

/-- The words above a place, seen from below it. -/
theorem word_sub (mem : Words α) (sp : BitVec 64) (k i : Nat) :
    word mem (sp - 8 * BitVec.ofNat 64 k) (k + i) = word mem sp i := by
  rw [word, word, show sp - 8 * BitVec.ofNat 64 k + 8 * BitVec.ofNat 64 (k + i) =
    sp + 8 * BitVec.ofNat 64 i by bv_omega]

section Copy

variable {dst src size : BitVec 64} {mem : Words α}

/-- The words of a copy. -/
theorem word_blockCopy {i : Nat} (hi : 8 * BitVec.ofNat 64 i < size) :
    word (blockCopy dst src size mem) dst i = word mem src i := by
  have hsub : dst + 8 * BitVec.ofNat 64 i - dst = 8 * BitVec.ofNat 64 i := by bv_omega
  rw [word, blockCopy, hsub, if_pos hi, word]

end Copy

end WordStack
