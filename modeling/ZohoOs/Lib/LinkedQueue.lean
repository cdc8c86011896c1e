import Mathlib.Data.List.Basic
import Mathlib.Data.List.Nodup
import Mathlib.Logic.Function.Basic

/-!
# Linked queues

A queue in memory: nodes linked through a `next` function, from a head to `nil`, with a tail
pointer to the last node.

## Main definitions

* `Linked next nil a l`: the nodes from `a` along `next` to `nil` are those of `l`
* `IsQueue next nil head tail l`: a linked list with a tail pointer, which may have been lost

## Main results

* `Linked.nodup`, `Linked.unique`: a linked list repeats no node, and is the only one
* `Linked.push`, `Linked.unlink`: a node before the first one, and a node taken out
* `IsQueue.append`, `IsQueue.dequeue`: what adding at the tail and taking at the head do
-/

namespace LinkedQueue

variable {P : Type*} {next next' : P → P} {nil : P}

/-- The nodes from `a` along `next` to `nil`, in order. -/
def Linked (next : P → P) (nil : P) : P → List P → Prop
  | a, [] => a = nil
  | a, p :: l => a = p ∧ p ≠ nil ∧ Linked next nil (next p) l

theorem Linked.congr {a : P} {l : List P} (h : Linked next nil a l)
    (heq : ∀ p ∈ l, next' p = next p) : Linked next' nil a l := by
  induction l generalizing a with
  | nil => exact h
  | cons p l ih =>
    obtain ⟨ha, hp, hl⟩ := h
    refine ⟨ha, hp, ?_⟩
    rw [heq p List.mem_cons_self]
    exact ih hl fun x hx => heq x (List.mem_cons_of_mem _ hx)

theorem Linked.unique {a : P} {l m : List P} (h : Linked next nil a l)
    (k : Linked next nil a m) : l = m := by
  induction l generalizing a m with
  | nil =>
    cases m with
    | nil => rfl
    | cons q m =>
      obtain ⟨rfl, hq, -⟩ := k
      exact absurd h hq
  | cons p l ih =>
    obtain ⟨rfl, hp, hl⟩ := h
    cases m with
    | nil => exact absurd k hp
    | cons q m =>
      obtain ⟨rfl, -, hm⟩ := k
      rw [ih hl hm]

theorem Linked.ne_nil {a p : P} {l : List P} (h : Linked next nil a l) (hp : p ∈ l) : p ≠ nil := by
  induction l generalizing a with
  | nil => cases hp
  | cons q l ih =>
    obtain ⟨-, hq, hl⟩ := h
    rcases List.mem_cons.mp hp with rfl | hp
    · exact hq
    · exact ih hl hp

/-- From a node of the list on, the list is linked too. -/
theorem Linked.suffix {a p : P} {l m : List P} (h : Linked next nil a (l ++ p :: m)) :
    Linked next nil p (p :: m) := by
  induction l generalizing a with
  | nil =>
    obtain ⟨rfl, hp, hm⟩ := h
    exact ⟨rfl, hp, hm⟩
  | cons q l ih => exact ih h.2.2

/-- **A linked list repeats no node**: what follows a node is the same wherever it stands. -/
theorem Linked.nodup {a : P} {l : List P} (h : Linked next nil a l) : l.Nodup := by
  induction l generalizing a with
  | nil => exact List.nodup_nil
  | cons p l ih =>
    obtain ⟨rfl, hp, hl⟩ := h
    refine List.nodup_cons.mpr ⟨fun hmem => ?_, ih hl⟩
    obtain ⟨s, t, rfl⟩ := List.append_of_mem hmem
    have heq : t = s ++ a :: t := (hl.suffix.2.2).unique hl
    have hlen := congrArg List.length heq
    simp only [List.length_append, List.length_cons] at hlen
    omega

theorem Linked.next_last {a t : P} {l : List P} (h : Linked next nil a (l ++ [t])) :
    next t = nil := h.suffix.2.2

theorem Linked.single {p : P} (hp : p ≠ nil) (hnext : next p = nil) : Linked next nil p [p] :=
  ⟨rfl, hp, hnext⟩

/-- Linking a node behind the last one. -/
theorem Linked.append {a t p : P} {l : List P} (h : Linked next nil a (l ++ [t]))
    (hp : p ≠ nil) (hlast : next' t = p) (hend : next' p = nil)
    (heq : ∀ x ∈ l, next' x = next x) : Linked next' nil a (l ++ [t] ++ [p]) := by
  induction l generalizing a with
  | nil =>
    obtain ⟨ha, ht, -⟩ := h
    refine ⟨ha, ht, ?_⟩
    rw [hlast]
    exact Linked.single hp hend
  | cons q l ih =>
    obtain ⟨ha, hq, hl⟩ := h
    refine ⟨ha, hq, ?_⟩
    rw [heq q List.mem_cons_self]
    exact ih hl fun x hx => heq x (List.mem_cons_of_mem _ hx)

/-- Linking a node before the first one. -/
theorem Linked.push {a p : P} {l : List P} (h : Linked next nil a l) (hp : p ≠ nil)
    (hnext : next' p = a) (heq : ∀ x ∈ l, next' x = next x) : Linked next' nil p (p :: l) := by
  refine ⟨rfl, hp, ?_⟩
  rw [hnext]
  exact h.congr heq

/-- Taking a node out from behind another. -/
theorem Linked.unlink {a t p : P} {l m : List P} (h : Linked next nil a (l ++ t :: p :: m))
    (ht : next' t = next p) (heq : ∀ x ∈ l ++ m, next' x = next x) :
    Linked next' nil a (l ++ t :: m) := by
  induction l generalizing a with
  | nil =>
    obtain ⟨ha, hne, -, -, hm⟩ := h
    refine ⟨ha, hne, ?_⟩
    rw [ht]
    exact hm.congr heq
  | cons q l ih =>
    obtain ⟨ha, hq, hl⟩ := h
    refine ⟨ha, hq, ?_⟩
    rw [heq q List.mem_cons_self]
    exact ih hl fun x hx => heq x (List.mem_cons_of_mem _ hx)

/-- A linked list from `head`. The tail, unless it was lost, is its last node. -/
structure IsQueue (next : P → P) (nil head tail : P) (l : List P) : Prop where
  linked : Linked next nil head l
  last : tail ≠ nil → l.getLast? = some tail

theorem IsQueue.congr {head tail : P} {l : List P} (h : IsQueue next nil head tail l)
    (heq : ∀ p ∈ l, next' p = next p) : IsQueue next' nil head tail l :=
  ⟨h.linked.congr heq, h.last⟩

theorem IsQueue.empty : IsQueue next nil nil nil [] := ⟨rfl, fun h => absurd rfl h⟩

theorem IsQueue.single {p : P} (hp : p ≠ nil) (hnext : next p = nil) :
    IsQueue next nil p p [p] := ⟨Linked.single hp hnext, fun _ => rfl⟩

theorem IsQueue.tail_mem {head tail : P} {l : List P} (h : IsQueue next nil head tail l)
    (ht : tail ≠ nil) : tail ∈ l := List.mem_of_getLast? (h.last ht)

theorem IsQueue.next_tail {head tail : P} {l : List P} (h : IsQueue next nil head tail l)
    (ht : tail ≠ nil) : next tail = nil := by
  obtain ⟨s, rfl⟩ := List.getLast?_eq_some_iff.mp (h.last ht)
  exact h.linked.next_last

/-- Adding behind the tail. -/
theorem IsQueue.append {head tail p : P} {l : List P} (h : IsQueue next nil head tail l)
    (ht : tail ≠ nil) (hp : p ≠ nil) (hlast : next' tail = p) (hend : next' p = nil)
    (heq : ∀ x ∈ l, x ≠ tail → next' x = next x) : IsQueue next' nil head p (l ++ [p]) := by
  obtain ⟨s, rfl⟩ := List.getLast?_eq_some_iff.mp (h.last ht)
  have hnodup := h.linked.nodup
  refine ⟨h.linked.append hp hlast hend fun x hx => ?_, fun _ => by simp⟩
  refine heq x (List.mem_append_left _ hx) ?_
  rintro rfl
  exact (List.nodup_append.mp hnodup).2.2 x hx x (List.mem_singleton_self x) rfl

/-- The tail is lost when `nil` is added behind it. -/
theorem IsQueue.lost {head tail : P} {l : List P} (h : IsQueue next nil head tail l)
    (heq : ∀ x ∈ l, next' x = next x) : IsQueue next' nil head nil l :=
  ⟨h.linked.congr heq, fun ht => absurd rfl ht⟩

theorem IsQueue.head_eq_nil {head tail : P} {l : List P} (h : IsQueue next nil head tail l) :
    head = nil ↔ l = [] := by
  cases l with
  | nil => exact ⟨fun _ => rfl, fun _ => h.linked⟩
  | cons p l =>
    obtain ⟨rfl, hp, -⟩ := h.linked
    exact ⟨fun he => absurd he hp, fun he => by cases he⟩

/-- Taking the head. The tail is cleared with the last node. -/
theorem IsQueue.dequeue [DecidableEq P] {head tail p : P} {l : List P}
    (h : IsQueue next nil head tail (p :: l)) :
    IsQueue next nil (next p) (if next p = nil then nil else tail) l := by
  obtain ⟨rfl, hp, hl⟩ := h.linked
  refine ⟨hl, fun ht => ?_⟩
  by_cases hend : next head = nil
  · rw [if_pos hend] at ht
    exact absurd rfl ht
  · rw [if_neg hend] at ht ⊢
    cases l with
    | nil => exact absurd hl hend
    | cons q l =>
      have := h.last ht
      rwa [List.getLast?_cons_cons] at this

end LinkedQueue
