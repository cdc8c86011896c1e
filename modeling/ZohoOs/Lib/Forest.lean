import Mathlib.Data.Set.Insert

/-!
# Forests in a linked structure

Nodes linked by indexed edges, read from a set of roots. An edge is looked up by the root, by
the path from it (last index first), by the node and by an index, so that what counts as an edge
may depend on the depth and on the root.

## Main definitions

* `node edge r p`: the node reached from `r` along `p`
* `IsForest edge roots`: each node is reached from one root, along one path

## Main results

* `node_set`: what setting one edge does to every path
* `IsForest.congr`, `IsForest.set`, `IsForest.addRoot`: the changes that keep a forest
-/

namespace Forest

variable {N I : Type*}

/-- The node linked at an index of a node, which a root reaches along a path. -/
abbrev Edges (N I : Type*) := N → List I → N → I → Option N

/-- The node reached from `r` along a path. -/
def node (edge : Edges N I) (r : N) : List I → Option N
  | [] => some r
  | i :: p => (node edge r p).bind fun n => edge r p n i

@[simp] theorem node_nil (edge : Edges N I) (r : N) : node edge r [] = some r := rfl

theorem node_cons (edge : Edges N I) (r : N) (i : I) (p : List I) :
    node edge r (i :: p) = (node edge r p).bind fun n => edge r p n i := rfl

theorem node_cons_of_some {edge : Edges N I} {r n : N} {p : List I} (h : node edge r p = some n)
    (i : I) : node edge r (i :: p) = edge r p n i := by
  rw [node_cons, h, Option.bind_some]

theorem node_cons_eq_some {edge : Edges N I} {r n : N} {i : I} {p : List I} :
    node edge r (i :: p) = some n ↔ ∃ m, node edge r p = some m ∧ edge r p m i = some n := by
  rw [node_cons, Option.bind_eq_some_iff]

/-- Each node is reached from one of the roots only, along one path only. -/
def IsForest (edge : Edges N I) (roots : Set N) : Prop :=
  ∀ r ∈ roots, ∀ r' ∈ roots, ∀ p p' n,
    node edge r p = some n → node edge r' p' = some n → r = r' ∧ p = p'

/-- `n` is reached from one of the roots. -/
def Linked (edge : Edges N I) (roots : Set N) (n : N) : Prop :=
  ∃ r ∈ roots, ∃ p, node edge r p = some n

theorem IsForest.mono {edge : Edges N I} {roots roots' : Set N} (h : IsForest edge roots)
    (hsub : roots' ⊆ roots) : IsForest edge roots' :=
  fun r hr r' hr' => h r (hsub hr) r' (hsub hr')

/-! ## Changes that no root sees -/

theorem node_congr {edge edge' : Edges N I} {r : N}
    (h : ∀ p n i, node edge r p = some n → edge' r p n i = edge r p n i) (p : List I) :
    node edge' r p = node edge r p := by
  induction p with
  | nil => rfl
  | cons i p ih =>
    rw [node_cons, node_cons, ih]
    cases hn : node edge r p with
    | none => rfl
    | some n => exact h p n i hn

theorem IsForest.congr {edge edge' : Edges N I} {roots : Set N} (h : IsForest edge roots)
    (hcongr : ∀ r ∈ roots, ∀ p, node edge' r p = node edge r p) : IsForest edge' roots := by
  intro r hr r' hr' p p' n hn hn'
  rw [hcongr r hr] at hn
  rw [hcongr r' hr'] at hn'
  exact h r hr r' hr' p p' n hn hn'

/-! ## Setting one edge -/

section Set

variable [DecidableEq N] [DecidableEq I]

/-- `edge'` is `edge` with the edge at index `i₀` of node `n₀`, reached from `r₀` along `p₀`, set
to `x`. Neither the node it led to nor the one it leads to has edges of its own. -/
structure SetEdge (edge edge' : Edges N I) (roots : Set N) (r₀ : N) (p₀ : List I) (n₀ : N) (i₀ : I)
    (x : Option N) : Prop where
  root : r₀ ∈ roots
  node : node edge r₀ p₀ = some n₀
  self : edge' r₀ p₀ n₀ i₀ = x
  other : ∀ r ∈ roots, ∀ p n i, Forest.node edge r p = some n → ¬ (r = r₀ ∧ p = p₀ ∧ i = i₀) →
    edge' r p n i = edge r p n i
  childless : ∀ y i, edge r₀ p₀ n₀ i₀ = some y → edge r₀ (i₀ :: p₀) y i = none
  childless' : ∀ y i, x = some y → edge' r₀ (i₀ :: p₀) y i = none

variable {edge edge' : Edges N I} {roots : Set N} {r₀ : N} {p₀ : List I} {n₀ : N} {i₀ : I}
  {x : Option N}

/-- **Setting an edge** changes the one path that ends with it. -/
theorem node_set (h : SetEdge edge edge' roots r₀ p₀ n₀ i₀ x) {r : N} (hr : r ∈ roots)
    (p : List I) : node edge' r p = if r = r₀ ∧ p = i₀ :: p₀ then x else node edge r p := by
  -- by induction on the path: the node above decides which edge is followed
  induction p with
  | nil => simp
  | cons i p ih =>
    rw [node_cons, ih]
    by_cases hat : r = r₀ ∧ p = i₀ :: p₀
    · -- below the edge that is set: no edges before, none now
      obtain ⟨rfl, rfl⟩ := hat
      have hlen : i :: i₀ :: p₀ ≠ i₀ :: p₀ := fun he => by simpa using congrArg List.length he
      rw [if_pos ⟨rfl, rfl⟩, if_neg (fun hc => hlen hc.2)]
      have hold : node edge r (i :: i₀ :: p₀) = none := by
        rw [node_cons, node_cons_of_some h.node]
        cases he : edge r p₀ n₀ i₀ with
        | none => rfl
        | some y => exact h.childless y i he
      rw [hold]
      cases hx : x with
      | none => rfl
      | some y => exact h.childless' y i hx
    -- elsewhere, only the edge that is set may differ
    · rw [if_neg hat, node_cons]
      by_cases hset : r = r₀ ∧ i :: p = i₀ :: p₀
      · obtain ⟨rfl, he⟩ := hset
        obtain ⟨rfl, rfl⟩ := List.cons.inj he
        rw [if_pos ⟨rfl, rfl⟩, h.node]
        exact h.self
      · rw [if_neg hset]
        cases hn : Forest.node edge r p with
        | none => rfl
        | some n =>
          refine h.other r hr p n i hn fun hc => hset ?_
          exact ⟨hc.1, by rw [hc.2.1, hc.2.2]⟩

/-- A forest stays one when the edge leads to a node no root reaches, or to none. -/
theorem IsForest.set (hf : IsForest edge roots) (h : SetEdge edge edge' roots r₀ p₀ n₀ i₀ x)
    (hfresh : ∀ y, x = some y → ¬ Linked edge roots y) : IsForest edge' roots := by
  intro r hr r' hr' p p' n hn hn'
  rw [node_set h hr] at hn
  rw [node_set h hr'] at hn'
  split at hn
  · next hat =>
    split at hn'
    · next hat' => exact ⟨hat.1.trans hat'.1.symm, hat.2.trans hat'.2.symm⟩
    · exact absurd ⟨r', hr', p', hn'⟩ (hfresh n hn)
  · split at hn'
    · exact absurd ⟨r, hr, p, hn⟩ (hfresh n hn')
    · exact hf r hr r' hr' p p' n hn hn'

end Set

/-! ## A new root -/

/-- A forest stays one when a node no root reaches, without edges, becomes a root. -/
theorem IsForest.addRoot {edge edge' : Edges N I} {roots : Set N} (hf : IsForest edge roots) {x : N}
    (hcongr : ∀ r ∈ roots, ∀ p, node edge' r p = node edge r p) (hfresh : ¬ Linked edge roots x)
    (hx : ∀ p n, node edge' x p = some n → p = [] ∧ n = x) : IsForest edge' (insert x roots) := by
  rintro r (rfl | hr) r' (rfl | hr') p p' n hn hn'
  · exact ⟨rfl, (hx p n hn).1.trans (hx p' n hn').1.symm⟩
  · obtain ⟨rfl, rfl⟩ := hx p n hn
    rw [hcongr r' hr'] at hn'
    exact absurd ⟨r', hr', p', hn'⟩ hfresh
  · obtain ⟨rfl, rfl⟩ := hx p' n hn'
    rw [hcongr r hr] at hn
    exact absurd ⟨r, hr, p, hn⟩ hfresh
  · exact hf.congr hcongr r hr r' hr' p p' n hn hn'

theorem node_of_childless {edge : Edges N I} {x : N} (h : ∀ i, edge x [] x i = none) {p : List I}
    {n : N} (hn : node edge x p = some n) : p = [] ∧ n = x := by
  induction p generalizing n with
  | nil => exact ⟨rfl, by simpa using hn.symm⟩
  | cons i p ih =>
    obtain ⟨m, hm, he⟩ := node_cons_eq_some.mp hn
    obtain ⟨rfl, rfl⟩ := ih hm
    rw [h] at he
    exact absurd he (by simp)

end Forest
