import ZohoOs.Memory.Spaces
import ZohoOs.Memory.Translation

/-!
# What an unmapping does to the spaces

A call of `vmm_unmap` clears one entry below the owner of the slot: the directory entry over the page
if that is a 2 MiB leaf, else the entry of the page.

## Main definitions

* `Cleared`: the entries of all spaces once some pages are unmapped

## Main results

* `vmmUnmap_cleared`: what one call clears
* `Cleared.trans`: one call after others
-/

namespace ZohoOs

open Forest Relation

/-- The state with another record of the tables that were read. -/
def Vmm.reading (s : Vmm) (l : List Nat) : Vmm := { s with touched := l }

/-- The walk of `vmmUnmap` ends at the directory entry over the page if that is a leaf, else at the
entry of the page if there is a page table. -/
theorem vmmUnmap_cases {s : Vmm} {live : Finset Nat} {b r : Nat} (h : Wf s live)
    (hb : b ∈ s.roots live) (virt : BitVec 64) {q : PageNumber}
    (hr : s.owner b (pml4Index virt) = r) (hq : pageNumber virt = q) :
    (hasFlag (s.pde r q) pageHuge = true ∧ ∃ pd l, s.table r [q.2.1, q.1] = some pd ∧
      vmmUnmap s b virt = (s.reading l).write pd q.2.2.1 0#64) ∨
    (hasFlag (s.pde r q) pageHuge = false ∧ ∃ pt l, s.table r q.path = some pt ∧
      vmmUnmap s b virt = (s.reading l).write pt q.2.2.2 0#64) ∨
    (hasFlag (s.pde r q) pageHuge = false ∧ s.table r q.path = none ∧
      ∃ l, vmmUnmap s b virt = s.reading l) := by
  have hwalk := h.walk_cases hb hr hq rfl rfl rfl
  have hroot := h.table_of_lookup_root (i := pml4Index virt) hb
  subst hr hq
  generalize s.owner b (pml4Index virt) = r at hwalk hroot ⊢
  -- the tables that are touched on the way are not changed
  have htouch : ∀ t u i, getExistingTable (s.touch t) u i = getExistingTable s u i :=
    fun _ _ _ => rfl
  have htouch₂ : ∀ t t' u i, getExistingTable ((s.touch t).touch t') u i =
      getExistingTable s u i := fun _ _ _ _ => rfl
  have htouch₃ : ∀ t t' t'' u i, getExistingTable (((s.touch t).touch t').touch t'') u i =
      getExistingTable s u i := fun _ _ _ _ _ => rfl
  simp only [vmmUnmap, htouch, htouch₂, htouch₃, Vmm.touch_mem]
  generalize getExistingTable s b (pml4Index virt) = pdpt at hwalk hroot ⊢
  have hbelow : ∀ t, s.table r [pml4Index virt] = some t →
      getExistingTable s t (pdptIndex virt) ≠ 0 → s.table r _ = some _ := fun t ht =>
    Wf.table_of_lookup (Vmm.own_of_ne_nil (by simp)) ht (by simp) (by simp)
  rcases hwalk with ⟨hzero, hpde, hnone⟩ | ⟨hne₁, hne₂, hpde, hpt⟩
  · -- the walk stops before the directory
    rw [hpde, zero_hasFlag]
    apply Or.inr
    apply Or.inr
    refine ⟨rfl, hnone, ?_⟩
    by_cases hzero₁ : pdpt = 0
    · rw [if_pos hzero₁]
      exact ⟨_, rfl⟩
    · rw [if_neg hzero₁, if_pos (hzero.resolve_left hzero₁)]
      exact ⟨_, rfl⟩
  -- a large page ends at its directory entry, and another one at its page table, if it has one
  · have hpd := hbelow pdpt (hroot hne₁) hne₂
    rw [if_neg hne₁, if_neg hne₂, hpde]
    cases hhuge : hasFlag (s.pde r (pageNumber virt)) pageHuge with
    | true => exact Or.inl ⟨rfl, _, _, hpd, rfl⟩
    | false =>
      rw [if_neg (by simp)]
      apply Or.inr
      rcases hpt hhuge with ⟨hzero, hnone⟩ | ⟨hne, htable⟩
      · rw [if_pos hzero]
        exact Or.inr ⟨rfl, hnone, _, rfl⟩
      · rw [if_neg hne]
        exact Or.inl ⟨rfl, _, _, htable, rfl⟩

/-- The entries of every space once these pages are unmapped below `b`: the entries of the pages are
zero, and so are the 2 MiB leaves over them. -/
structure Cleared (live : Finset Nat) (b : Nat) (pages : List PageNumber) (s s' : Vmm) : Prop where
  wf : Wf s' live
  currentPml4 : s'.currentPml4 = s.currentPml4
  table : ∀ r ∈ s.roots live, ∀ p, s'.table r p = s.table r p
  pde : ∀ r ∈ s.roots live, ∀ q, s'.pde r q =
    if hasFlag (s.pde r q) pageHuge = true ∧ r = s.owner b q.1 ∧
      q.directory ∈ pages.map PageNumber.directory then 0#64 else s.pde r q
  pte : ∀ r ∈ s.roots live, ∀ q, s'.pte r q =
    if r = s.owner b q.1 ∧ q ∈ pages then 0#64 else s.pte r q

section Cleared

variable {s s' s'' : Vmm} {live : Finset Nat} {b r : Nat} {pages pages' : List PageNumber}

theorem Cleared.refl (h : Wf s live) : Cleared live b [] s s :=
  ⟨h, rfl, fun _ _ _ => rfl, by simp, by simp⟩

/-- Writing the directory entry over a page. -/
theorem WriteLeaf.write_pde {q₀ : PageNumber} {pd : Nat} {e : BitVec 64}
    (h : WriteLeaf s live r [q₀.2.1, q₀.1] pd q₀.2.2.1 e) {r' : Nat} (hr' : r' ∈ s.roots live)
    (q : PageNumber) : (s.write pd q₀.2.2.1 e).pde r' q =
      if r' = r ∧ q.directory = q₀.directory then e else s.pde r' q := by
  rw [Vmm.pde, h.write_entry hr']
  exact if_congr (and_congr_right fun _ => directory_eq_iff) rfl rfl

/-- Writing the entry of a page. -/
theorem WriteLeaf.write_pte {q₀ : PageNumber} {pt : Nat} {e : BitVec 64}
    (h : WriteLeaf s live r q₀.path pt q₀.2.2.2 e) {r' : Nat} (hr' : r' ∈ s.roots live)
    (q : PageNumber) : (s.write pt q₀.2.2.2 e).pte r' q =
      if r' = r ∧ q = q₀ then e else s.pte r' q := by
  rw [Vmm.pte, h.write_entry hr']
  exact if_congr (and_congr_right fun _ => page_eq_iff) rfl rfl

/-- **What one call clears.** -/
theorem vmmUnmap_cleared (h : Wf s live) (hb : b ∈ s.roots live) (virt : BitVec 64) :
    Cleared live b [pageNumber virt] s (vmmUnmap s b virt) := by
  have hroot := Vmm.owner_mem_roots (i := pml4Index virt) hb
  have hwf := (vmmUnmap_spec h hb virt).wf h hroot
  have hcases := vmmUnmap_cases h hb virt rfl rfl
  have hslot : (pageNumber virt).1 = pml4Index virt := rfl
  rw [← hslot] at hroot hcases
  generalize pageNumber virt = q₀ at hroot hcases ⊢
  have hl : ∀ l, Wf (s.reading l) live := fun l => h.frame rfl (fun _ _ => rfl) h.stack h.used
  -- the page and the directory entry decide the slot, so they decide its owner
  have hpage : ∀ r (q : PageNumber), r = s.owner b q₀.1 ∧ q = q₀ ↔ r = s.owner b q.1 ∧ q ∈ [q₀] := by
    intro r q
    rw [List.mem_singleton]
    constructor
    · rintro ⟨hr, rfl⟩
      exact ⟨hr, rfl⟩
    · rintro ⟨hr, rfl⟩
      exact ⟨hr, rfl⟩
  have hdirectory : ∀ r (q : PageNumber), r = s.owner b q₀.1 ∧ q.directory = q₀.directory ↔
      r = s.owner b q.1 ∧ q.directory ∈ [q₀].map PageNumber.directory := by
    intro r q
    rw [List.map_singleton, List.mem_singleton]
    constructor
    · rintro ⟨hr, hq⟩
      exact ⟨by rw [hr, congrArg Prod.fst hq], hq⟩
    · rintro ⟨hr, hq⟩
      exact ⟨by rw [hr, congrArg Prod.fst hq], hq⟩
  have hzero : s.pte (s.owner b q₀.1) q₀ = 0#64 → ∀ r q, s.pte r q =
      if r = s.owner b q.1 ∧ q ∈ [q₀] then 0#64 else s.pte r q := by
    intro hz r q
    rw [← if_congr (hpage r q) rfl rfl]
    split
    · next hc => rw [hc.1, hc.2, hz]
    · rfl
  have hsame : hasFlag (s.pde (s.owner b q₀.1) q₀) pageHuge = false → ∀ r q, s.pde r q =
      if hasFlag (s.pde r q) pageHuge = true ∧ r = s.owner b q.1 ∧
        q.directory ∈ [q₀].map PageNumber.directory then 0#64 else s.pde r q := by
    intro hsmall r q
    rw [if_neg]
    rintro ⟨hhuge, hc⟩
    obtain ⟨rfl, hq⟩ := (hdirectory r q).mpr hc
    rw [Vmm.pde_congr hq, hsmall] at hhuge
    cases hhuge
  rcases hcases with ⟨hhuge, pd, l, hpd, heq⟩ | ⟨hsmall, pt, l, hpt, heq⟩ | ⟨hsmall, hnone, l, heq⟩
  · -- a leaf is cleared: the entries of its pages were zero
    have hmem : hasFlag ((s.reading l).mem pd q₀.2.2.1) pageHuge = true := by
      rw [Vmm.pde, Vmm.entry_of_table hpd] at hhuge
      exact hhuge
    have hwrite := WriteLeaf.of_clear (hl l) hroot rfl hpd hmem
    rw [heq] at hwf ⊢
    refine ⟨hwf, rfl, fun r hr => hwrite.write_table hr, fun r hr q => ?_, fun r hr q => ?_⟩
    · rw [hwrite.write_pde hr, if_congr (hdirectory r q) rfl rfl]
      by_cases hc : r = s.owner b q.1 ∧ q.directory ∈ [q₀].map PageNumber.directory
      · rw [if_pos hc]
        obtain ⟨rfl, hq⟩ := (hdirectory r q).mpr hc
        rw [← Vmm.pde_congr hq] at hhuge
        rw [if_pos ⟨hhuge, hc⟩]
      · rw [if_neg hc, if_neg fun hcc => hc hcc.2]
        rfl
    · rw [Vmm.pte, hwrite.write_entry hr, if_neg (by simp)]
      exact hzero (Vmm.pte_of_huge hhuge) r q
  · have hwrite := WriteLeaf.of_page (hl l) hroot hpt 0#64
    rw [heq] at hwf ⊢
    refine ⟨hwf, rfl, fun r hr => hwrite.write_table hr, fun r hr q => ?_, fun r hr q => ?_⟩
    · rw [Vmm.pde, hwrite.write_entry hr, if_neg (by simp)]
      exact hsame hsmall r q
    · rw [hwrite.write_pte hr, if_congr (hpage r q) rfl rfl]
      rfl
  · rw [heq] at hwf ⊢
    refine ⟨hwf, rfl, fun _ _ _ => rfl, fun r _ q => hsame hsmall r q, fun r _ q => ?_⟩
    exact hzero (Vmm.entry_of_none hnone _) r q

/-- One call after others. -/
theorem Cleared.trans (h : Cleared live b pages s s') (h' : Cleared live b pages' s' s'') :
    Cleared live b (pages ++ pages') s s'' := by
  have hroots : s'.roots live = s.roots live := Vmm.roots_congr h.currentPml4
  have howner : ∀ i, s'.owner b i = s.owner b i := fun i => by
    rw [Vmm.owner, h.currentPml4, Vmm.owner]
  refine ⟨h'.wf, h'.currentPml4.trans h.currentPml4, fun r hr p => ?_, fun r hr q => ?_,
    fun r hr q => ?_⟩
  · rw [h'.table r (hroots ▸ hr), h.table r hr]
  -- what the first call has cleared stays cleared
  · have hmid := h.pde r hr q
    rw [h'.pde r (hroots ▸ hr), howner, List.map_append]
    by_cases hc : hasFlag (s.pde r q) pageHuge = true ∧ r = s.owner b q.1 ∧
        q.directory ∈ pages.map PageNumber.directory
    · rw [if_pos hc] at hmid
      rw [hmid, ite_self, if_pos ⟨hc.1, hc.2.1, List.mem_append_left _ hc.2.2⟩]
    · rw [if_neg hc] at hmid
      rw [hmid]
      refine if_congr ?_ rfl rfl
      rw [List.mem_append]
      tauto
  · have hmid := h.pte r hr q
    rw [h'.pte r (hroots ▸ hr), howner]
    by_cases hc : r = s.owner b q.1 ∧ q ∈ pages
    · rw [if_pos hc] at hmid
      rw [hmid, ite_self, if_pos ⟨hc.1, List.mem_append_left _ hc.2⟩]
    · rw [if_neg hc] at hmid
      rw [hmid]
      refine if_congr ?_ rfl rfl
      rw [List.mem_append]
      tauto

end Cleared

end ZohoOs
