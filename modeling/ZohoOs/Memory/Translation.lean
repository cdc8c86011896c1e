import ZohoOs.Memory.MapWalk

/-!
# Translations

`vmm_get_phys` and `vmm_get_flags` walk the tables as the other calls do. What they answer depends
on two entries below the owner of the slot: the directory entry over the page, and the page-table
entry.

## Main definitions

* `PageNumber.directory`: the place of the directory entry over a page

## Main results

* `vmmGetPhys_eq`, `vmmGetFlags_eq`: the walks, in terms of these two entries
* `translation_congr`: a change of other tables changes no translation
-/

namespace ZohoOs

open Forest

/-- The entry of the page directory over a page. -/
def Vmm.pde (s : Vmm) (r : Nat) (q : PageNumber) : BitVec 64 := s.entry r [q.2.1, q.1] q.2.2.1

section Walk

variable {s : Vmm} {live : Finset Nat} {r b t : Nat} {p : List (Fin 512)} {i : Fin 512}

/-- A page table is linked by a directory entry that is no leaf. -/
theorem Vmm.pde_of_table {q : PageNumber} {x : Nat} (hx : s.table r q.path = some x) :
    hasFlag (s.pde r q) pagePresent = true ∧ hasFlag (s.pde r q) pageHuge = false := by
  obtain ⟨t, ht, he⟩ := Vmm.table_cons_eq_some.mp hx
  rw [Vmm.edge_of_own (Vmm.edge_own he)] at he
  split at he
  · next hc =>
    rw [Vmm.pde, Vmm.entry_of_table ht]
    exact ⟨hc.2.1, by simpa using hc.2.2⟩
  · exact absurd he (by simp)

/-- Where a lookup fails, no table is linked. -/
theorem Wf.table_none_of_lookup (h : Wf s live) (hr : r ∈ s.roots live) (ht : s.table r p = some t)
    (hzero : getExistingTable s t i = 0) : s.table r (i :: p) = none := by
  by_contra hne
  obtain ⟨x, hx⟩ := Option.ne_none_iff_exists'.mp hne
  obtain ⟨hget, hx0⟩ := h.lookup_of_table hr ht hx
  exact hx0 (hget ▸ hzero)

/-- Where the walks of `vmmGetPhys` and `vmmGetFlags` end: before the directory, or at the entries
`pde` and `pte`. -/
theorem Wf.walk_cases (h : Wf s live) (hb : b ∈ s.roots live) {virt : BitVec 64} {q : PageNumber}
    (hr : s.owner b (pml4Index virt) = r) (hq : pageNumber virt = q) {pdpt pd pt : Nat}
    (hpdpt : getExistingTable s b (pml4Index virt) = pdpt)
    (hpd : getExistingTable s pdpt (pdptIndex virt) = pd)
    (hpt : getExistingTable s pd (pdIndex virt) = pt) :
    ((pdpt = 0 ∨ pd = 0) ∧ s.pde r q = 0#64 ∧ s.table r q.path = none) ∨
    (pdpt ≠ 0 ∧ pd ≠ 0 ∧ s.mem pd (pdIndex virt) = s.pde r q ∧
      (hasFlag (s.pde r q) pageHuge = false →
        (pt = 0 ∧ s.table r q.path = none) ∨ (pt ≠ 0 ∧ s.table r q.path = some pt))) := by
  subst hr hq
  have hroot : s.owner b (pml4Index virt) ∈ s.roots live := Vmm.owner_mem_roots hb
  generalize hr : s.owner b (pml4Index virt) = r at hroot ⊢
  rw [h.lookup_root hb, hr] at hpdpt
  -- without a table for the directory there is nothing below
  have hgone : s.table r [pdptIndex virt, pml4Index virt] = none →
      s.pde r (pageNumber virt) = 0#64 ∧ s.table r (pageNumber virt).path = none :=
    fun hnone => ⟨Vmm.entry_of_none hnone _, Vmm.table_none_of_suffix hnone ⟨[pdIndex virt], rfl⟩⟩
  -- each of the lookups ends the walk, or finds the next table
  by_cases hpdpt0 : pdpt = 0
  · refine Or.inl ⟨Or.inl hpdpt0, hgone ?_⟩
    have hnone := h.table_none_of_lookup hroot (Vmm.table_nil s r) (hpdpt.trans hpdpt0)
    exact Vmm.table_none_of_suffix hnone ⟨[pdptIndex virt], rfl⟩
  have ht₁ : s.table r [pml4Index virt] = some pdpt := by
    rw [← hpdpt] at hpdpt0 ⊢
    exact Wf.table_of_lookup (hr ▸ s.owner_own b _) rfl (by simp) (by simp) hpdpt0
  by_cases hpd0 : pd = 0
  · exact Or.inl ⟨Or.inr hpd0, hgone (h.table_none_of_lookup hroot ht₁ (hpd.trans hpd0))⟩
  have ht₂ : s.table r [pdptIndex virt, pml4Index virt] = some pd := by
    rw [← hpd] at hpd0 ⊢
    exact Wf.table_of_lookup (Vmm.own_of_ne_nil (by simp)) ht₁ (by simp) (by simp) hpd0
  have hpde : s.mem pd (pdIndex virt) = s.pde r (pageNumber virt) :=
    (Vmm.entry_of_table ht₂ _).symm
  refine Or.inr ⟨hpdpt0, hpd0, hpde, fun hsmall => ?_⟩
  by_cases hpt0 : pt = 0
  · exact Or.inl ⟨hpt0, h.table_none_of_lookup hroot ht₂ (hpt.trans hpt0)⟩
  · refine Or.inr ⟨hpt0, ?_⟩
    rw [← hpt] at hpt0 ⊢
    exact Wf.table_of_lookup (Vmm.own_of_ne_nil (by simp)) ht₂ (by simp)
      (fun _ => hpde ▸ hsmall) hpt0

/-- **The walk of `vmmGetFlags`.** -/
theorem vmmGetFlags_eq (h : Wf s live) (hb : b ∈ s.roots live) {virt : BitVec 64} {q : PageNumber}
    (hr : s.owner b (pml4Index virt) = r) (hq : pageNumber virt = q) :
    vmmGetFlags s b virt = if hasFlag (s.pde r q) pageHuge then s.pde r q &&& 0xFFF#64
      else s.pte r q &&& 0xFFF#64 := by
  rcases h.walk_cases hb hr hq rfl rfl rfl with ⟨hzero, hpde, hnone⟩ | ⟨h₁, h₂, hpde, hpt⟩
  · have hpte : s.pte r q = 0#64 := Vmm.entry_of_none hnone _
    rw [hpde, hpte, zero_hasFlag]
    rcases hzero with hzero | hzero <;> simp [vmmGetFlags, hzero]
  · simp only [vmmGetFlags, if_neg h₁, if_neg h₂, hpde]
    by_cases hhuge : hasFlag (s.pde r q) pageHuge = true
    · rw [if_pos hhuge, if_pos hhuge]
    · rw [if_neg hhuge, if_neg hhuge]
      rcases hpt (by simpa using hhuge) with ⟨hzero, hnone⟩ | ⟨hne, htable⟩
      · rw [if_pos hzero, Vmm.pte, Vmm.entry_of_none hnone]
        simp
      · subst hq
        rw [if_neg hne, Vmm.pte, Vmm.entry_of_table htable]
        rfl

/-- **The walk of `vmmGetPhys`.** -/
theorem vmmGetPhys_eq (h : Wf s live) (hb : b ∈ s.roots live) {virt : BitVec 64} {q : PageNumber}
    (hr : s.owner b (pml4Index virt) = r) (hq : pageNumber virt = q) :
    vmmGetPhys s b virt =
      if hasFlag (s.pde r q) pageHuge then s.pde r q &&& ~~~0x1FFFFF#64 ||| virt &&& 0x1FFFFF#64
      else if s.table r q.path = none then 0#64
      else s.pte r q &&& ~~~0xFFF#64 ||| virt &&& 0xFFF#64 := by
  rcases h.walk_cases hb hr hq rfl rfl rfl with ⟨hzero, hpde, hnone⟩ | ⟨h₁, h₂, hpde, hpt⟩
  · rw [hpde, zero_hasFlag, if_pos hnone]
    rcases hzero with hzero | hzero <;> simp [vmmGetPhys, hzero]
  · simp only [vmmGetPhys, if_neg h₁, if_neg h₂, hpde]
    by_cases hhuge : hasFlag (s.pde r q) pageHuge = true
    · rw [if_pos hhuge, if_pos hhuge]
    · rw [if_neg hhuge, if_neg hhuge]
      rcases hpt (by simpa using hhuge) with ⟨hzero, hnone⟩ | ⟨hne, htable⟩
      · rw [if_pos hzero, if_pos hnone]
      · subst hq
        rw [if_neg hne, if_neg (by rw [htable]; simp), Vmm.pte, Vmm.entry_of_table htable]
        rfl

end Walk

/-! ## Directory entries -/

/-- The indexes of the directory entry over a page. -/
abbrev PageNumber.directory (q : PageNumber) : Fin 512 × Fin 512 × Fin 512 := (q.1, q.2.1, q.2.2.1)

section Directory

variable {s : Vmm} {r : Nat} {q q' : PageNumber}

/-- An entry of a directory is at the end of the walk over a page. -/
theorem directory_eq_iff :
    [q.2.1, q.1] = [q'.2.1, q'.1] ∧ q.2.2.1 = q'.2.2.1 ↔ q.directory = q'.directory := by
  simp only [List.cons.injEq, and_true, PageNumber.directory, Prod.mk.injEq]
  tauto

theorem page_eq_iff : q.path = q'.path ∧ q.2.2.2 = q'.2.2.2 ↔ q = q' := by
  constructor
  · rintro ⟨hpath, hlast⟩
    exact PageNumber.full_inj (by rw [PageNumber.full, hpath, hlast])
  · rintro rfl
    exact ⟨rfl, rfl⟩

theorem path_eq_iff : q.path = q'.path ↔ q.directory = q'.directory := by
  simp only [PageNumber.directory, List.cons.injEq, and_true, Prod.mk.injEq]
  tauto

/-- The directory entry over a page is that over the pages beside it. -/
theorem Vmm.pde_congr (h : q.directory = q'.directory) :
    s.pde r q = s.pde r q' := by
  obtain ⟨hp, hi⟩ := directory_eq_iff.mpr h
  rw [Vmm.pde, hp, hi, Vmm.pde]

/-- Under a leaf there is no page table, so no entry of a page. -/
theorem Vmm.pte_of_huge (h : hasFlag (s.pde r q) pageHuge = true) :
    s.pte r q = 0#64 := by
  refine Vmm.entry_of_none ?_ _
  by_contra hne
  obtain ⟨t, ht⟩ := Option.ne_none_iff_exists'.mp hne
  rw [(Vmm.pde_of_table ht).2] at h
  cases h

end Directory

/-! ## Changes of other tables -/

section Frame

variable {s s' : Vmm} {live : Finset Nat} {b : Nat}

/-- A change that keeps the tables of the space and of the kernel keeps the space's translations. -/
theorem translation_congr (h : Wf s live) (h' : Wf s' live) (hb : b ∈ s.roots live)
    (hkr : s'.currentPml4 = s.currentPml4)
    (hmem : ∀ r, r = b ∨ r = s.currentPml4 → ∀ p t, s.table r p = some t → s'.mem t = s.mem t)
    (virt : BitVec 64) :
    vmmGetPhys s' b virt = vmmGetPhys s b virt ∧ vmmGetFlags s' b virt = vmmGetFlags s b virt := by
  have howner : s'.owner b (pml4Index virt) = s.owner b (pml4Index virt) := by
    rw [Vmm.owner, hkr, Vmm.owner]
  have hcases : s.owner b (pml4Index virt) = b ∨ s.owner b (pml4Index virt) = s.currentPml4 := by
    unfold Vmm.owner
    split
    · exact Or.inr rfl
    · exact Or.inl rfl
  have hframe := hmem _ hcases
  have hb' : b ∈ s'.roots live := Vmm.roots_congr hkr ▸ hb
  have hpde : s'.pde _ (pageNumber virt) = s.pde _ (pageNumber virt) :=
    Vmm.entry_frame hkr hframe _ _
  have hpte : s'.pte _ (pageNumber virt) = s.pte _ (pageNumber virt) :=
    Vmm.entry_frame hkr hframe _ _
  rw [vmmGetPhys_eq h' hb' howner rfl, vmmGetPhys_eq h hb rfl rfl, vmmGetFlags_eq h' hb' howner rfl,
    vmmGetFlags_eq h hb rfl rfl, hpde, hpte, Vmm.table_frame hkr hframe]
  exact ⟨rfl, rfl⟩

end Frame

end ZohoOs
