import Mathlib.Algebra.BigOperators.Group.Finset.Piecewise
import Mathlib.Algebra.Order.BigOperators.Group.Finset
import ZohoOs.Memory.Translation

/-!
# The frames of a mapping

`vmm_map` takes a frame for each table over the page that is missing, and links no other table.

## Main definitions

* `tablesOver`, `Vmm.lacking`: the tables over a page, and how many of some tables are missing
* `LinkedTables`: these tables are there, and nothing else has changed below the root

## Main results

* `vmmMap_linked_huge`, `vmmMap_linked_page`: a call with enough frames, with and without `PAGE_HUGE`
-/

namespace ZohoOs

open Relation

/-! ## Tables over pages -/

/-- The paths to the tables over a page, below the root. -/
def tablesOver (q : PageNumber) : Finset (List (Fin 512)) := {[q.1], [q.2.1, q.1], q.path}

/-- The paths to the tables over these pages. -/
def tablesOverAll (l : List PageNumber) : Finset (List (Fin 512)) := l.toFinset.biUnion tablesOver

/-- The frames needed to have tables at the ends of these paths. -/
def Vmm.lacking (s : Vmm) (r : Nat) (P : Finset (List (Fin 512))) : Nat := ∑ p ∈ P, s.missing r p

section Lacking

variable {s s' : Vmm} {live : Finset Nat} {r : Nat} {P Q : Finset (List (Fin 512))}

theorem Vmm.lacking_congr (h : ∀ p, s'.table r p = s.table r p) : s'.lacking r P = s.lacking r P :=
  Finset.sum_congr rfl fun p _ => Vmm.missing_congr (h p)

theorem Vmm.lacking_tablesOver (s : Vmm) (r : Nat) (q : PageNumber) :
    s.lacking r (tablesOver q) = s.mapNeeds r q := by
  have h₁ : [q.1] ∉ ({[q.2.1, q.1], q.path} : Finset (List (Fin 512))) := by simp
  have h₂ : [q.2.1, q.1] ∉ ({q.path} : Finset (List (Fin 512))) := by simp
  rw [Vmm.lacking, tablesOver, Finset.sum_insert h₁, Finset.sum_insert h₂, Finset.sum_singleton,
    Vmm.mapNeeds, Nat.add_assoc]

/-- A table that is linked makes up for one that was missing. -/
theorem CanLink.lacking_le {p : List (Fin 512)} {t : Nat} {i : Fin 512}
    (h : CanLink s live r p t i) : s.lacking r P ≤ (s.link t i).lacking r P + 1 := by
  -- the one table that was missing and is there now is that at `i :: p`
  have hstep : ∀ p' ∈ P, s.missing r p' ≤
      (s.link t i).missing r p' + if p' = i :: p then 1 else 0 := by
    intro p' _
    have htable := h.link_table h.root p'
    by_cases hp : p' = i :: p
    · rw [if_pos hp, Vmm.missing]
      split <;> omega
    · rw [if_neg fun hc => hp hc.2] at htable
      rw [Vmm.missing_congr htable]
      exact Nat.le_add_right _ _
  have hone : ∑ p' ∈ P, (if p' = i :: p then 1 else 0) ≤ 1 := by
    rw [Finset.sum_ite_eq']
    split <;> omega
  calc s.lacking r P ≤ ∑ p' ∈ P, ((s.link t i).missing r p' + if p' = i :: p then 1 else 0) :=
        Finset.sum_le_sum hstep
    _ = (s.link t i).lacking r P + ∑ p' ∈ P, (if p' = i :: p then 1 else 0) :=
        Finset.sum_add_distrib
    _ ≤ (s.link t i).lacking r P + 1 := Nat.add_le_add_left hone _

/-- **Linking tables takes no more than what is lacking goes down by.** -/
theorem LinkSteps.available_lacking (h : LinkSteps live r s s') {n : Nat}
    (hav : s'.pmm.Available (n + s'.lacking r P)) : s.pmm.Available (n + s.lacking r P) := by
  induction h with
  | refl => exact hav
  | tail _ hstep ih =>
    apply ih
    cases hstep with
    | touch => exact hav
    | link hlink =>
      -- the table takes one frame
      rw [hlink.link_pmm] at hav
      have hle := hlink.lacking_le (P := P)
      exact (Pmm.available_of_alloc hlink.alloc hav).mono (by omega)

/-- With the tables over a page there, the rest lacks no more than before. -/
theorem Vmm.lacking_union_le (hmono : ∀ p t, s.table r p = some t → s'.table r p = some t)
    (hthere : ∀ p ∈ P, s'.table r p ≠ none) :
    s'.lacking r Q + s.lacking r P ≤ s.lacking r (P ∪ Q) := by
  have hzero : ∀ p ∈ P, s'.missing r p = 0 := by
    intro p hp
    rw [Vmm.missing, if_pos (Option.isSome_iff_ne_none.mpr (hthere p hp))]
  have hle : ∀ p, s'.missing r p ≤ s.missing r p := by
    intro p
    unfold Vmm.missing
    split
    · exact Nat.zero_le _
    · next hnone =>
      rw [if_neg fun hsome => hnone ?_]
      obtain ⟨t, ht⟩ := Option.isSome_iff_exists.mp hsome
      rw [hmono p t ht]
      rfl
  -- so that only the paths outside `P` count
  have hrest : s'.lacking r Q ≤ ∑ p ∈ Q \ P, s.missing r p := by
    have hsplit : s'.lacking r Q = ∑ p ∈ Q \ P, s'.missing r p := by
      refine (Finset.sum_subset Finset.sdiff_subset fun p hp hnot => hzero p ?_).symm
      by_contra hnp
      exact hnot (Finset.mem_sdiff.mpr ⟨hp, hnp⟩)
    rw [hsplit]
    exact Finset.sum_le_sum fun p _ => hle p
  have hunion : s.lacking r (P ∪ Q) = s.lacking r P + ∑ p ∈ Q \ P, s.missing r p := by
    rw [Vmm.lacking, ← Finset.union_sdiff_self_eq_union,
      Finset.sum_union Finset.disjoint_sdiff, Vmm.lacking]
  omega

/-- Nothing is lacking of what is there. -/
theorem Vmm.lacking_union_there (hthere : ∀ p ∈ P, s.table r p ≠ none) :
    s.lacking r (P ∪ Q) = s.lacking r Q := by
  refine (Finset.sum_subset Finset.subset_union_right fun p hp hnot => ?_).symm
  have hp' := (Finset.mem_union.mp hp).resolve_right hnot
  rw [Vmm.missing, if_pos (Option.isSome_iff_ne_none.mpr (hthere p hp'))]

/-- A page table is there together with the tables above it. -/
theorem Vmm.tablesOver_there {q : PageNumber} {pt : Nat} (hpt : s.table r q.path = some pt) :
    ∀ p ∈ tablesOver q, s.table r p ≠ none := by
  obtain ⟨pd, hpd, -⟩ := Vmm.table_cons_eq_some.mp hpt
  obtain ⟨pdpt, hpdpt, -⟩ := Vmm.table_cons_eq_some.mp hpd
  intro p hp
  simp only [tablesOver, Finset.mem_insert, Finset.mem_singleton] at hp
  rcases hp with rfl | rfl | rfl
  · rw [hpdpt]
    simp
  · rw [hpd]
    simp
  · rw [hpt]
    simp

end Lacking

/-! ## Tables a walk links -/

/-- The tables at `P` are there below `r`. The walk has taken a frame for each that was missing, and
changed no other table or entry. -/
structure LinkedTables (live : Finset Nat) (r : Nat) (P : Finset (List (Fin 512))) (s s' : Vmm) :
    Prop where
  steps : LinkSteps live r s s'
  there : ∀ p ∈ P, s'.table r p ≠ none
  table : ∀ p, p ∉ P → s'.table r p = s.table r p
  entry : ∀ p i, i :: p ∉ P → s'.entry r p i = s.entry r p i
  available : ∀ n, s.pmm.Available (n + s.lacking r P) → s'.pmm.Available n

section LinkedTables

variable {s s' s'' : Vmm} {live : Finset Nat} {r : Nat} {P Q : Finset (List (Fin 512))}

theorem Ensured.linked {p : List (Fin 512)} {i : Fin 512} {x : Nat}
    (h : Ensured live r p i s s' x) : LinkedTables live r {i :: p} s s' := by
  refine ⟨h.steps, fun p' hp' => ?_, fun p' hp' => ?_, fun p' j hne => ?_, fun n hav => ?_⟩
  · rw [Finset.mem_singleton.mp hp', h.table]
    simp
  · exact h.table_other p' fun hc => hp' (Finset.mem_singleton.mpr hc)
  · refine h.entry_other p' j ?_
    rintro ⟨rfl, rfl⟩
    exact hne (Finset.mem_singleton_self _)
  · rw [Vmm.lacking, Finset.sum_singleton] at hav
    exact h.available n hav

theorem LinkedTables.trans (h : LinkedTables live r P s s') (h' : LinkedTables live r Q s' s'')
    (hr : r ∈ s.roots live) : LinkedTables live r (P ∪ Q) s s'' := by
  have hr' : r ∈ s'.roots live := h.steps.roots ▸ hr
  refine ⟨h.steps.trans h'.steps, fun p hp => ?_, fun p hp => ?_, fun p i hp => ?_, fun n hav => ?_⟩
  · rcases Finset.mem_union.mp hp with hp | hp
    · -- what was linked stays
      obtain ⟨t, ht⟩ := Option.ne_none_iff_exists'.mp (h.there p hp)
      rw [h'.steps.table_mono hr' ht]
      simp
    · exact h'.there p hp
  · rw [Finset.mem_union, not_or] at hp
    rw [h'.table p hp.2, h.table p hp.1]
  · rw [Finset.mem_union, not_or] at hp
    rw [h'.entry p i hp.2, h.entry p i hp.1]
  · have hle : s'.lacking r Q + s.lacking r P ≤ s.lacking r (P ∪ Q) :=
      Vmm.lacking_union_le (fun p t ht => h.steps.table_mono hr ht) h.there
    apply h'.available
    apply h.available
    exact hav.mono (by omega)

end LinkedTables

/-! ## The walk with enough frames -/

section Walk

variable {s : Vmm} {live : Finset Nat} {b r : Nat} {q : PageNumber} {virt : BitVec 64}

/-- The walk down to the directory, with a frame for each table that is missing on the way. -/
theorem ensureNextTable_directory (h : Wf s live) (hb : b ∈ s.roots live)
    (hr : s.owner b (pml4Index virt) = r) (hq : pageNumber virt = q)
    (hav : s.pmm.Available (s.lacking r ({[q.1]} ∪ {[q.2.1, q.1]}))) :
    ∃ pdpt s₁ pd s₂, ensureNextTable s b (pml4Index virt) = (pdpt, s₁) ∧ pdpt ≠ 0 ∧
      ensureNextTable s₁ pdpt (pdptIndex virt) = (pd, s₂) ∧ pd ≠ 0 ∧
      LinkedTables live r ({[q.1]} ∪ {[q.2.1, q.1]}) s s₂ ∧ s₂.table r [q.2.1, q.1] = some pd := by
  have hroot := Vmm.owner_mem_roots (i := pml4Index virt) hb
  rw [hr] at hroot
  have hlack : s.lacking r ({[q.1]} ∪ {[q.2.1, q.1]}) =
      s.missing r [q.1] + s.missing r [q.2.1, q.1] := by
    rw [Vmm.lacking, Finset.sum_union (by simp), Finset.sum_singleton, Finset.sum_singleton]
  rw [hlack] at hav
  subst hq
  rcases ensureNextTable_root h hb (pml4Index virt) with ⟨s₁, pdpt, heq₁, h₁⟩ | ⟨-, -, hno⟩
  · rw [hr] at h₁
    have hroot₁ : r ∈ s₁.roots live := h₁.steps.roots ▸ hroot
    -- the frame for the second level is left by the first
    have hav₁ := h₁.available (s.missing r [pdptIndex virt, pml4Index virt])
      (hav.mono (Nat.le_of_eq (Nat.add_comm _ _)))
    rw [← Vmm.missing_congr (h₁.table_other [pdptIndex virt, pml4Index virt] (by simp))] at hav₁
    rcases ensureNextTable_spec (i := pdptIndex virt) (h₁.steps.wf h) hroot₁ h₁.table (by simp)
      (Vmm.own_of_ne_nil (by simp)) (by simp) with ⟨s₂, pd, heq₂, h₂⟩ | ⟨-, -, hno⟩
    · exact ⟨pdpt, s₁, pd, s₂, heq₁, h₁.ne_zero, heq₂, h₂.ne_zero, h₁.linked.trans h₂.linked hroot,
        h₂.table⟩
    · exact absurd (hav₁.mono (Nat.le_of_eq (Nat.zero_add _))) (hno 0)
  · rw [hr] at hno
    refine absurd (hav.mono ?_) (hno 0)
    simp only [pageNumber]
    omega

/-- **A 2 MiB leaf**: the walk links the two tables over the entry and writes it. -/
theorem vmmMap_linked_huge (h : Wf s live) (hb : b ∈ s.roots live)
    (hr : s.owner b (pml4Index virt) = r) (hq : pageNumber virt = q) {flags : BitVec 64}
    (hflags : hasFlag flags pageHuge = true)
    (hav : s.pmm.Available (s.lacking r ({[q.1]} ∪ {[q.2.1, q.1]}))) (phys : BitVec 64) :
    ∃ s₁ pd, LinkedTables live r ({[q.1]} ∪ {[q.2.1, q.1]}) s s₁ ∧
      s₁.table r [q.2.1, q.1] = some pd ∧
      vmmMap s b virt phys flags =
        s₁.write pd q.2.2.1 (phys &&& ~~~0x1FFFFF#64 ||| flags ||| pagePresent) := by
  obtain ⟨pdpt, s₁, pd, s₂, heq₁, hne₁, heq₂, hne₂, hlinked, hpd⟩ :=
    ensureNextTable_directory h hb hr hq hav
  refine ⟨s₂, pd, hlinked, hpd, ?_⟩
  subst hq
  unfold vmmMap
  simp only [heq₁, if_neg hne₁, heq₂, if_neg hne₂, hflags, if_true, pageNumber]

/-- **A page** that is not under a 2 MiB leaf: the walk links the three tables over it and writes
its entry. -/
theorem vmmMap_linked_page (h : Wf s live) (hb : b ∈ s.roots live)
    (hr : s.owner b (pml4Index virt) = r) (hq : pageNumber virt = q) {flags : BitVec 64}
    (hflags : hasFlag flags pageHuge = false) (hsmall : hasFlag (s.pde r q) pageHuge = false)
    (hav : s.pmm.Available (s.lacking r (tablesOver q))) (phys : BitVec 64) :
    ∃ s₁ pt, LinkedTables live r (tablesOver q) s s₁ ∧ s₁.table r q.path = some pt ∧
      vmmMap s b virt phys flags =
        s₁.write pt q.2.2.2 (phys &&& ~~~0xFFF#64 ||| flags ||| pagePresent) := by
  have hroot := Vmm.owner_mem_roots (i := pml4Index virt) hb
  rw [hr] at hroot
  have hover : tablesOver q = {[q.1]} ∪ {[q.2.1, q.1]} ∪ {q.path} := by
    rw [Finset.union_assoc]
    rfl
  have hlack : s.lacking r (tablesOver q) =
      s.lacking r ({[q.1]} ∪ {[q.2.1, q.1]}) + s.missing r q.path := by
    rw [hover, Vmm.lacking, Finset.sum_union (by simp), Finset.sum_singleton, Vmm.lacking]
  rw [hlack] at hav
  obtain ⟨pdpt, s₁, pd, s₂, heq₁, hne₁, heq₂, hne₂, hlinked, hpd⟩ :=
    ensureNextTable_directory h hb hr hq (hav.mono (Nat.le_add_right _ _))
  have hroot₂ : r ∈ s₂.roots live := hlinked.steps.roots ▸ hroot
  have hav₂ := hlinked.available (s.missing r q.path) (hav.mono (Nat.le_of_eq (Nat.add_comm _ _)))
  rw [← Vmm.missing_congr (hlinked.table q.path (by simp))] at hav₂
  -- the directory entry is still no leaf
  have hentry : s₂.entry r [q.2.1, q.1] q.2.2.1 = s.pde r q := hlinked.entry _ _ (by simp)
  have hleaf : ¬ s₂.IsHuge r [q.2.1, q.1] q.2.2.1 := by
    rintro ⟨-, hhuge⟩
    rw [hentry, hsmall] at hhuge
    cases hhuge
  rcases ensureNextTable_spec (i := q.2.2.1) (hlinked.steps.wf h) hroot₂ hpd (by simp)
    (Vmm.own_of_ne_nil (by simp)) (fun hc => hleaf hc.2.1) with ⟨s₃, pt, heq₃, h₃⟩ | ⟨-, -, hno⟩
  · refine ⟨s₃, pt, hover ▸ hlinked.trans h₃.linked hroot, h₃.table, ?_⟩
    subst hq
    simp only [pageNumber] at heq₃
    unfold vmmMap
    simp only [heq₁, if_neg hne₁, heq₂, if_neg hne₂, hflags, Bool.false_eq_true, if_false, heq₃,
      if_neg h₃.ne_zero, pageNumber]
  · exact absurd (hav₂.mono (Nat.le_of_eq (Nat.zero_add _))) (hno 0)

end Walk

end ZohoOs
