import ZohoOs.Memory.MapFrames
import ZohoOs.Memory.Unmapped

/-!
# What a mapping does to its space

With enough frames, a call of `vmm_map` sets the leaf over one page, or over the 512 pages of a 2 MiB
block, and keeps the leaf over every other page of the space. Where it links a page table, the other
pages of the block get an entry that is zero.

## Main definitions

* `Vmm.leafAt`: the leaf over a page of a space, as the walks of the lookups find it
* `Vmm.absent`: the tables of the space that are missing
* `Mapped`: how a call ends that has the frames it needs

## Main results

* `walkEntry_eq`: the walks of the lookups end at the leaf over the page of the address
* `vmmMap_mapped_page`, `vmmMap_mapped_huge`: a call with and without `PAGE_HUGE`
* `Mapped.available_rest`: the frames that are left are enough for the tables that are still missing
* `pageEntry_phys`, `pageEntry_flags`: a page is translated as by a 2 MiB leaf over it, but for
  address bits in the flags
-/

namespace ZohoOs

open Forest Relation

/-- The entry of a page or of a 2 MiB block, and the mask of the offset in it. -/
abbrev Leaf := BitVec 64 × BitVec 64

/-- The leaf over a page of a space. There is none where a table is missing. -/
def Vmm.leafAt (s : Vmm) (b : Nat) (q : PageNumber) : Option Leaf :=
  if hasFlag (s.pde (s.owner b q.1) q) pageHuge then some (s.pde (s.owner b q.1) q, 0x1FFFFF#64)
  else (s.table (s.owner b q.1) q.path).map fun _ => (s.pte (s.owner b q.1) q, 0xFFF#64)

/-- The entry of a 2 MiB block. -/
def hugeEntry (phys flags : BitVec 64) : BitVec 64 :=
  phys &&& ~~~0x1FFFFF#64 ||| flags ||| pagePresent

section Leaf

variable {s s' : Vmm} {live : Finset Nat} {b : Nat} {q : PageNumber}

theorem Vmm.leafAt_huge (h : hasFlag (s.pde (s.owner b q.1) q) pageHuge = true) :
    s.leafAt b q = some (s.pde (s.owner b q.1) q, 0x1FFFFF#64) := if_pos h

theorem Vmm.leafAt_small (h : hasFlag (s.pde (s.owner b q.1) q) pageHuge = false) :
    s.leafAt b q =
      (s.table (s.owner b q.1) q.path).map fun _ => (s.pte (s.owner b q.1) q, 0xFFF#64) :=
  if_neg (by simp [h])

/-- The mask tells a 2 MiB leaf from a page. -/
theorem Vmm.small_iff : hasFlag (s.pde (s.owner b q.1) q) pageHuge = false ↔
    ∀ e, s.leafAt b q ≠ some (e, 0x1FFFFF#64) := by
  cases hpde : hasFlag (s.pde (s.owner b q.1) q) pageHuge with
  | true =>
    rw [Vmm.leafAt_huge hpde]
    simp
  | false =>
    refine iff_of_true rfl fun e => ?_
    rw [Vmm.leafAt_small hpde]
    cases s.table (s.owner b q.1) q.path with
    | none => simp
    | some t => simp

/-- **The walks of `vmmGetPhys` and `vmmGetFlags` end at the leaf over the page.** -/
theorem walkEntry_eq (h : Wf s live) (hb : b ∈ s.roots live) (virt : BitVec 64) :
    walkEntry s b virt = s.leafAt b (pageNumber virt) := by
  have hslot : (pageNumber virt).1 = pml4Index virt := rfl
  unfold Vmm.leafAt
  rw [hslot]
  rcases h.walk_cases hb rfl rfl rfl rfl rfl with ⟨hzero, hpde, hnone⟩ | ⟨h₁, h₂, hpde, hpt⟩
  · rw [hpde, zero_hasFlag, hnone]
    rcases hzero with hzero | hzero <;> simp [walkEntry, hzero]
  · simp only [walkEntry, if_neg h₁, if_neg h₂, hpde]
    split
    · rfl
    · next hsmall =>
      rcases hpt (by simpa using hsmall) with ⟨hzero, hnone⟩ | ⟨hne, htable⟩
      · rw [if_pos hzero, hnone]
        rfl
      · rw [if_neg hne, htable, Vmm.pte, Vmm.entry_of_table htable]
        rfl

/-- Where the tables over a page keep their entries, the leaf is kept. -/
theorem Vmm.leafAt_frame (hkr : s'.currentPml4 = s.currentPml4)
    (hmem : ∀ p t, s.table (s.owner b q.1) p = some t → s'.mem t = s.mem t) :
    s'.leafAt b q = s.leafAt b q := by
  have howner : s'.owner b q.1 = s.owner b q.1 := by rw [Vmm.owner, hkr, Vmm.owner]
  have hentry := Vmm.entry_frame hkr hmem
  rw [Vmm.leafAt, howner, Vmm.pde, Vmm.pte, hentry, hentry, Vmm.table_frame hkr hmem]
  rfl

/-- Where no page table is linked, the entry of a page is zero. -/
theorem Vmm.leafAt_elim (h : hasFlag (s.pde (s.owner b q.1) q) pageHuge = false) :
    (s.leafAt b q).elim 0#64 Prod.fst = s.pte (s.owner b q.1) q := by
  rw [Vmm.leafAt_small h]
  cases ht : s.table (s.owner b q.1) q.path with
  | none => exact (Vmm.entry_of_none ht _).symm
  | some t => rfl

end Leaf

/-! ## Missing tables -/

/-- The table at `p` of a space, in the kernel's slot that of the captured root. -/
def Vmm.tableOf (s : Vmm) (b : Nat) (p : List (Fin 512)) : Option Nat :=
  s.table (s.owner b (p.getLastD 0)) p

/-- Those of the tables at `P` that the space lacks. -/
def Vmm.absent (s : Vmm) (b : Nat) (P : Finset (List (Fin 512))) : Finset (List (Fin 512)) :=
  P.filter fun p => s.tableOf b p = none

section Absent

variable {s : Vmm} {b : Nat} {q : PageNumber} {P : Finset (List (Fin 512))} {p : List (Fin 512)}

theorem getLastD_of_mem (hp : p ∈ tablesOver q) : p.getLastD 0 = q.1 := by
  simp only [tablesOver, Finset.mem_insert, Finset.mem_singleton] at hp
  rcases hp with rfl | rfl | rfl <;> rfl

theorem Vmm.tableOf_of_mem (hp : p ∈ tablesOver q) : s.tableOf b p = s.table (s.owner b q.1) p := by
  rw [Vmm.tableOf, getLastD_of_mem hp]

theorem directory_subset : ({[q.1]} ∪ {[q.2.1, q.1]} : Finset (List (Fin 512))) ⊆ tablesOver q := by
  intro p hp
  simp only [tablesOver, Finset.mem_insert, Finset.mem_union, Finset.mem_singleton] at hp ⊢
  tauto

theorem Vmm.card_absent (hP : P ⊆ tablesOver q) :
    (s.absent b P).card = s.lacking (s.owner b q.1) P := by
  rw [Vmm.absent, Finset.card_filter, Vmm.lacking]
  refine Finset.sum_congr rfl fun p hp => ?_
  rw [Vmm.tableOf_of_mem (hP hp), Vmm.missing]
  cases s.table (s.owner b q.1) p with
  | none => rfl
  | some t => rfl

end Absent

/-! ## One call -/

/-- The leaf over `q` once the entry of the page `q₀` is `e`. -/
def setPage (q₀ : PageNumber) (e : BitVec 64) (q : PageNumber) (x : Option Leaf) : Option Leaf :=
  if q = q₀ then some (e, 0xFFF#64)
  else if q.directory = q₀.directory then some (x.elim 0#64 Prod.fst, 0xFFF#64)
  else x

/-- The leaf over `q` once the directory entry over `q₀` is the 2 MiB leaf `e`. -/
def setHuge (q₀ : PageNumber) (e : BitVec 64) (q : PageNumber) (x : Option Leaf) : Option Leaf :=
  if q.directory = q₀.directory then some (e, 0x1FFFFF#64) else x

/-- How a call ends that has the frames it needs: the tables at `P` are there, those outside `D` have
stayed, and the leaf over each page is given by `f`. -/
structure Mapped (live : Finset Nat) (b : Nat) (P D : Finset (List (Fin 512)))
    (f : PageNumber → Option Leaf → Option Leaf) (s s' : Vmm) : Prop where
  wf : Wf s' live
  currentPml4 : s'.currentPml4 = s.currentPml4
  leaf : ∀ q, s'.leafAt b q = f q (s.leafAt b q)
  there : ∀ p ∈ P, s'.tableOf b p ≠ none
  kept : ∀ p ∉ D, s.tableOf b p ≠ none → s'.tableOf b p ≠ none
  available : ∀ n, s.pmm.Available (n + (s.absent b P).card) → s'.pmm.Available n

section Mapped

variable {s s' : Vmm} {live : Finset Nat} {b r : Nat} {q₀ : PageNumber}
  {P D Q : Finset (List (Fin 512))} {f : PageNumber → Option Leaf → Option Leaf}

theorem Mapped.owner (h : Mapped live b P D f s s') (i : Fin 512) : s'.owner b i = s.owner b i := by
  rw [Vmm.owner, h.currentPml4, Vmm.owner]

theorem Mapped.roots (h : Mapped live b P D f s s') : s'.roots live = s.roots live :=
  Vmm.roots_congr h.currentPml4

/-- **The frames that are left are enough for the tables that are still missing.** -/
theorem Mapped.available_rest (h : Mapped live b P D f s s') (hdisj : Disjoint Q D) {n : Nat}
    {R : Finset (List (Fin 512))} (hP : P ⊆ R) (hQ : Q ⊆ R)
    (hav : s.pmm.Available (n + (s.absent b R).card)) :
    s'.pmm.Available (n + (s'.absent b Q).card) := by
  have hsub : s'.absent b Q ∪ s.absent b P ⊆ s.absent b R := by
    refine Finset.union_subset (fun p hp => ?_) (Finset.filter_subset_filter _ hP)
    obtain ⟨hp, hnone⟩ := Finset.mem_filter.mp hp
    refine Finset.mem_filter.mpr ⟨hQ hp, ?_⟩
    by_contra hne
    exact h.kept p (Finset.disjoint_left.mp hdisj hp) hne hnone
  -- what is still missing is not what the call has linked
  have hdisj' : Disjoint (s'.absent b Q) (s.absent b P) := by
    rw [Finset.disjoint_left]
    intro p hp hp'
    exact h.there p (Finset.mem_filter.mp hp').1 (Finset.mem_filter.mp hp).2
  have hcard := Finset.card_le_card hsub
  rw [Finset.card_union_of_disjoint hdisj'] at hcard
  apply h.available
  exact hav.mono (by omega)

/-- Pages below other roots than that of the slot are not touched by a call. -/
theorem MapResult.leafAt_of_ne {phys flags : BitVec 64}
    (hmap : MapResult live r q₀ phys flags s s') (hwf : Wf s live) (hr : r ∈ s.roots live)
    (hb : b ∈ s.roots live) {q : PageNumber} (hne : s.owner b q.1 ≠ r) :
    s'.leafAt b q = s.leafAt b q :=
  Vmm.leafAt_frame hmap.currentPml4 fun _ _ ht =>
    hmap.mem_of_ne hwf hr (Vmm.owner_mem_roots hb) hne ht

/-- A walk that has linked the tables at `P` and then changed none outside `D`: what is left to show
is the leaf over the pages below the owner of the slot. -/
theorem Mapped.of_linked {s₁ : Vmm} {phys flags : BitVec 64} (h : Wf s live) (hb : b ∈ s.roots live)
    (hmap : MapResult live (s.owner b q₀.1) q₀ phys flags s s')
    (hlinked : LinkedTables live (s.owner b q₀.1) P s s₁) (hP : P ⊆ tablesOver q₀)
    (hdisj : Disjoint P D)
    (hpmm : s'.pmm = s₁.pmm)
    (htable : ∀ r ∈ s.roots live, ∀ p ∉ D, s'.table r p = s₁.table r p)
    (hleaf : ∀ q, s.owner b q.1 = s.owner b q₀.1 → s'.leafAt b q = f q (s.leafAt b q))
    (hother : ∀ q, q.directory ≠ q₀.directory → ∀ x, f q x = x) : Mapped live b P D f s s' := by
  have hroot := Vmm.owner_mem_roots (i := q₀.1) hb
  -- the same root is current, so every slot has its owner
  have howner : ∀ i, s'.owner b i = s.owner b i := by
    intro i
    rw [Vmm.owner, hmap.currentPml4, Vmm.owner]
  refine ⟨hmap.wf h hroot, hmap.currentPml4, fun q => ?_, fun p hp => ?_, fun p hnot hp => ?_,
    fun n hav => ?_⟩
  · by_cases hr : s.owner b q.1 = s.owner b q₀.1
    · exact hleaf q hr
    · -- another owner has another slot
      rw [hother q fun hc => hr (by rw [congrArg Prod.fst hc])]
      exact hmap.leafAt_of_ne h hroot hb hr
  · have hkept := htable _ hroot p (Finset.disjoint_left.mp hdisj hp)
    rw [Vmm.tableOf, getLastD_of_mem (hP hp), howner, hkept]
    exact hlinked.there p hp
  -- the tables over other pages are in other slots, or were there
  · obtain ⟨t, ht⟩ := Option.ne_none_iff_exists'.mp hp
    have hroot' := Vmm.owner_mem_roots (i := p.getLastD 0) hb
    have ht' := hlinked.steps.table_mono hroot' ht
    rw [Vmm.tableOf, howner, htable _ hroot' p hnot, ht']
    simp
  · rw [Vmm.card_absent hP] at hav
    rw [hpmm]
    exact hlinked.available n hav

/-- A page table is over the pages of its block only. -/
theorem path_notMem_of_directory {q : PageNumber} (h : q.directory ≠ q₀.directory) :
    q.path ∉ tablesOver q₀ := by
  simp only [tablesOver, Finset.mem_insert, Finset.mem_singleton]
  rintro (hc | hc | hc)
  · simp at hc
  · simp at hc
  · exact h (path_eq_iff.mp hc)

/-- **A page is mapped** that is not under a 2 MiB leaf. -/
theorem vmmMap_mapped_page {virt flags : BitVec 64} (h : Wf s live) (hb : b ∈ s.roots live)
    (hq : pageNumber virt = q₀) (hflags : hasFlag flags pageHuge = false)
    (hsmall : hasFlag (s.pde (s.owner b q₀.1) q₀) pageHuge = false)
    (hav : s.pmm.Available (s.absent b (tablesOver q₀)).card) (phys : BitVec 64) :
    Mapped live b (tablesOver q₀) ∅ (setPage q₀ (pageEntry phys flags)) s
      (vmmMap s b virt phys flags) := by
  have hslot : pml4Index virt = q₀.1 := by rw [← hq]; rfl
  have hroot := Vmm.owner_mem_roots (i := q₀.1) hb
  rw [Vmm.card_absent subset_rfl] at hav
  -- first the tables over the page are linked, then the entry is written
  obtain ⟨s₁, pt, hlinked, hpt, heq⟩ := vmmMap_linked_page h hb (by rw [hslot]) hq hflags hsmall
    hav phys
  have hroots₁ : s₁.roots live = s.roots live := hlinked.steps.roots
  have hkr₁ : s₁.currentPml4 = s.currentPml4 := hlinked.steps.currentPml4
  have hwrite := WriteLeaf.of_page (hlinked.steps.wf h) (hroots₁.symm ▸ hroot) hpt
    (pageEntry phys flags)
  have hmap : MapResult live (s.owner b q₀.1) q₀ phys flags s
      (s₁.write pt q₀.2.2.2 (pageEntry phys flags)) := .page hflags hlinked.steps hpt
  rw [heq]
  change Mapped live b _ _ _ s (s₁.write pt q₀.2.2.2 (pageEntry phys flags))
  refine Mapped.of_linked h hb hmap hlinked subset_rfl (Finset.disjoint_empty_right _) rfl
    (fun r hr p _ => hwrite.write_table (hroots₁.symm ▸ hr) p) (fun q hr => ?_) fun q hdir x => ?_
  -- what the page's own directory and table say after the write
  · have howner : (s₁.write pt q₀.2.2.2 (pageEntry phys flags)).owner b q.1 = s.owner b q₀.1 := by
      rw [Vmm.owner, Vmm.write_currentPml4, hkr₁, ← hr, Vmm.owner]
    have hpde : (s₁.write pt q₀.2.2.2 (pageEntry phys flags)).pde (s.owner b q₀.1) q =
        s₁.pde (s.owner b q₀.1) q := by
      rw [Vmm.pde, hwrite.write_entry (hroots₁.symm ▸ hroot), if_neg (by simp)]
      rfl
    have hpte : (s₁.write pt q₀.2.2.2 (pageEntry phys flags)).pte (s.owner b q₀.1) q =
        if q = q₀ then pageEntry phys flags else s.pte (s.owner b q₀.1) q := by
      rw [hwrite.write_pte (hroots₁.symm ▸ hroot), hlinked.steps.pte_eq hroot]
      simp
    by_cases hdir : q.directory = q₀.directory
    · -- the page is in the block, which has a page table now
      have hsmall' : hasFlag (s.pde (s.owner b q.1) q) pageHuge = false := by
        rw [hr, Vmm.pde_congr hdir]
        exact hsmall
      have hpt' : s₁.table (s.owner b q₀.1) q.path = some pt := path_eq_iff.mpr hdir ▸ hpt
      rw [setPage, if_pos hdir, Vmm.leafAt_elim hsmall', Vmm.leafAt, howner, hr, hpde,
        (Vmm.pde_of_table hpt').2, if_neg (by simp), hwrite.write_table (hroots₁.symm ▸ hroot), hpt',
        Option.map_some, hpte]
      split
      · rfl
      · rfl
    · -- the tables over other blocks are as they were
      have hnot := path_notMem_of_directory hdir
      have hne : q ≠ q₀ := by
        rintro rfl
        exact hdir rfl
      have hpde' : s₁.pde (s.owner b q₀.1) q = s.pde (s.owner b q₀.1) q :=
        hlinked.entry _ _ hnot
      rw [if_neg hne] at hpte
      rw [setPage, if_neg hne, if_neg hdir, Vmm.leafAt, Vmm.leafAt, howner, hr, hpde, hpde',
        hwrite.write_table (hroots₁.symm ▸ hroot), hlinked.table _ hnot, hpte]
  · rw [setPage, if_neg (by rintro rfl; exact hdir rfl), if_neg hdir]

/-- **A 2 MiB leaf is mapped.** -/
theorem vmmMap_mapped_huge {virt flags : BitVec 64} (h : Wf s live) (hb : b ∈ s.roots live)
    (hq : pageNumber virt = q₀) (hflags : hasFlag flags pageHuge = true)
    (hav : s.pmm.Available (s.absent b ({[q₀.1]} ∪ {[q₀.2.1, q₀.1]})).card) (phys : BitVec 64) :
    Mapped live b ({[q₀.1]} ∪ {[q₀.2.1, q₀.1]}) {q₀.path} (setHuge q₀ (hugeEntry phys flags)) s
      (vmmMap s b virt phys flags) := by
  have hslot : pml4Index virt = q₀.1 := by rw [← hq]; rfl
  have hroot := Vmm.owner_mem_roots (i := q₀.1) hb
  rw [Vmm.card_absent directory_subset] at hav
  obtain ⟨s₁, pd, hlinked, hpd, heq⟩ := vmmMap_linked_huge h hb (by rw [hslot]) hq hflags hav phys
  have hwf₁ := hlinked.steps.wf h
  -- `s₁` has the tables down to the directory; the entry of the 2 MiB leaf is the last write.
  have hroots₁ : s₁.roots live = s.roots live := hlinked.steps.roots
  have hkr₁ : s₁.currentPml4 = s.currentPml4 := hlinked.steps.currentPml4
  have he : hasFlag (hugeEntry phys flags) pageHuge = true := hugeEntry_isHuge phys hflags
  have hmap : MapResult live (s.owner b q₀.1) q₀ phys flags s
      (s₁.write pd q₀.2.2.1 (hugeEntry phys flags)) := by
    refine .huge hflags hlinked.steps hpd fun p hp => hlinked.table p ?_
    rintro hc
    simp only [Finset.mem_union, Finset.mem_singleton] at hc
    rcases hc with rfl | rfl <;> simp at hp
  have htable := fun r (hr : r ∈ s.roots live) =>
    hwf₁.writeHuge_table (k := q₀.2.2.1) (hroots₁.symm ▸ hroot) rfl hpd he (hroots₁.symm ▸ hr)
  have hentry := fun r (hr : r ∈ s.roots live) =>
    hwf₁.writeHuge_entry (k := q₀.2.2.1) (hroots₁.symm ▸ hroot) rfl hpd he (hroots₁.symm ▸ hr)
  rw [heq]
  change Mapped live b _ _ _ s (s₁.write pd q₀.2.2.1 (hugeEntry phys flags))
  refine Mapped.of_linked h hb hmap hlinked directory_subset (by simp) rfl
    (fun r hr p hp => ?_) (fun q hr => ?_) fun q hdir x => if_neg hdir
  · rw [htable r hr, if_neg fun hc => hp (Finset.mem_singleton.mpr hc.2)]
  · have howner : (s₁.write pd q₀.2.2.1 (hugeEntry phys flags)).owner b q.1 = s.owner b q₀.1 := by
      rw [Vmm.owner, Vmm.write_currentPml4, hkr₁, ← hr, Vmm.owner]
    have hpde : (s₁.write pd q₀.2.2.1 (hugeEntry phys flags)).pde (s.owner b q₀.1) q =
        if q.directory = q₀.directory then hugeEntry phys flags else s.pde (s.owner b q₀.1) q := by
      have hpde₁ : s₁.pde (s.owner b q₀.1) q = s.pde (s.owner b q₀.1) q :=
        hlinked.entry _ _ (by simp)
      rw [Vmm.pde, hentry _ hroot, if_neg (by simp), ← hpde₁]
      refine if_congr ?_ rfl rfl
      rw [← directory_eq_iff]
      exact and_iff_right rfl
    -- The pages of the directory entry read the new leaf, all others the entries they read before.
    by_cases hdir : q.directory = q₀.directory
    · rw [if_pos hdir] at hpde
      rw [setHuge, if_pos hdir, Vmm.leafAt, howner, hpde, if_pos he]
    · have hnot : q.path ≠ q₀.path := mt path_eq_iff.mp hdir
      have hpte : (s₁.write pd q₀.2.2.1 (hugeEntry phys flags)).pte (s.owner b q₀.1) q =
          s.pte (s.owner b q₀.1) q := by
        rw [Vmm.pte, hentry _ hroot, if_neg fun hc => hnot hc.2, if_neg (by simp)]
        exact hlinked.steps.pte_eq hroot q
      have hsame : (s₁.write pd q₀.2.2.1 (hugeEntry phys flags)).table (s.owner b q₀.1) q.path =
          s.table (s.owner b q₀.1) q.path := by
        rw [htable _ hroot, if_neg fun hc => hnot hc.2]
        exact hlinked.table _ (by simp)
      rw [if_neg hdir] at hpde
      rw [setHuge, if_neg hdir, Vmm.leafAt, Vmm.leafAt, howner, hr, hpde, hsame, hpte]

end Mapped

/-! ## A page and the 2 MiB leaf over it -/

section Bits

variable {x y P P' v flags : BitVec 64}

theorem and_high_congr (h : x.toNat / 0x200000 = y.toNat / 0x200000) :
    x &&& ~~~0x1FFFFF#64 = y &&& ~~~0x1FFFFF#64 := by
  have hshift : x >>> 21 = y >>> 21 := by
    apply BitVec.eq_of_toNat_eq
    rw [BitVec.toNat_ushiftRight, BitVec.toNat_ushiftRight, Nat.shiftRight_eq_div_pow,
      Nat.shiftRight_eq_div_pow]
    exact h
  rw [show ~~~0x1FFFFF#64 = BitVec.allOnes 64 <<< 21 by decide, ← BitVec.shiftLeft_ushiftRight,
    ← BitVec.shiftLeft_ushiftRight, hshift]

/-- The bits 12 to 20 are those of the number of the page in its block. -/
theorem and_mid_congr (h : x.toNat / 0x1000 % 512 = y.toNat / 0x1000 % 512) :
    x &&& 0x1FF000#64 = y &&& 0x1FF000#64 := by
  have hmid : ∀ z : BitVec 64, z &&& 0x1FF000#64 = (z >>> 12 &&& 0x1FF#64) <<< 12 := by
    intro z
    rw [BitVec.shiftLeft_and_distrib, BitVec.shiftLeft_ushiftRight, BitVec.and_assoc]
    congr 1
  have hshift : x >>> 12 &&& 0x1FF#64 = y >>> 12 &&& 0x1FF#64 := by
    apply BitVec.eq_of_toNat_eq
    rw [BitVec.toNat_and, BitVec.toNat_and, BitVec.toNat_ushiftRight, BitVec.toNat_ushiftRight,
      Nat.shiftRight_eq_div_pow, Nat.shiftRight_eq_div_pow, show (0x1FF#64).toNat = 2 ^ 9 - 1 from rfl,
      Nat.and_two_pow_sub_one_eq_mod, Nat.and_two_pow_sub_one_eq_mod]
    exact h
  rw [hmid, hmid, hshift]

/-- The address bits of a page are those of a 2 MiB page, and the bits 12 to 20. -/
theorem page_mask : ~~~0xFFF#64 = ~~~0x1FFFFF#64 ||| 0x1FF000#64 := by decide

/-- **A page and the 2 MiB leaf over it.** Where their physical addresses agree, a page is translated
as by the leaf, with the bits 12 to 20 of the flags added. -/
theorem pageEntry_phys (hhigh : P' &&& ~~~0x1FFFFF#64 = P &&& ~~~0x1FFFFF#64)
    (hmid : P' &&& 0x1FF000#64 = v &&& 0x1FF000#64) :
    pageEntry P' flags &&& ~~~0xFFF#64 ||| v &&& 0xFFF#64 =
      (hugeEntry P (flags ||| pageHuge) &&& ~~~0x1FFFFF#64 ||| v &&& 0x1FFFFF#64) |||
        flags &&& 0x1FF000#64 := by
  have hpage : pageEntry P' flags &&& ~~~0xFFF#64 =
      (P &&& ~~~0x1FFFFF#64 ||| v &&& 0x1FF000#64) |||
        (flags &&& ~~~0x1FFFFF#64 ||| flags &&& 0x1FF000#64) := by
    rw [pageEntry, BitVec.and_or_distrib_right, BitVec.and_or_distrib_right, BitVec.and_assoc,
      BitVec.and_self, show pagePresent &&& ~~~0xFFF#64 = 0#64 by decide, BitVec.or_zero, page_mask,
      BitVec.and_or_distrib_left, BitVec.and_or_distrib_left, hhigh, hmid]
  have hhuge : hugeEntry P (flags ||| pageHuge) &&& ~~~0x1FFFFF#64 =
      P &&& ~~~0x1FFFFF#64 ||| flags &&& ~~~0x1FFFFF#64 := by
    rw [hugeEntry, BitVec.and_or_distrib_right, BitVec.and_or_distrib_right,
      BitVec.and_or_distrib_right, BitVec.and_assoc, BitVec.and_self,
      show pagePresent &&& ~~~0x1FFFFF#64 = 0#64 by decide,
      show pageHuge &&& ~~~0x1FFFFF#64 = 0#64 by decide, BitVec.or_zero, BitVec.or_zero]
  have hoff : v &&& 0x1FFFFF#64 = v &&& 0x1FF000#64 ||| v &&& 0xFFF#64 := by
    rw [← BitVec.and_or_distrib_left]
    congr 1
  rw [hpage, hhuge, hoff]
  ac_rfl

/-- The bits 12 to 20 of an address under a 2 MiB leaf are translated as they are. -/
theorem hugeEntry_mid :
    (hugeEntry P (flags ||| pageHuge) &&& ~~~0x1FFFFF#64 ||| v &&& 0x1FFFFF#64) &&& 0x1FF000#64 =
      v &&& 0x1FF000#64 := by
  rw [BitVec.and_or_distrib_right, BitVec.and_assoc, BitVec.and_assoc,
    show ~~~0x1FFFFF#64 &&& 0x1FF000#64 = 0#64 by decide,
    show 0x1FFFFF#64 &&& 0x1FF000#64 = 0x1FF000#64 by decide, BitVec.and_zero, BitVec.zero_or]

/-- The flags of the two differ in `PAGE_HUGE` only. -/
theorem pageEntry_flags : hugeEntry P (flags ||| pageHuge) &&& 0xFFF#64 &&& ~~~pageHuge =
    pageEntry P' flags &&& 0xFFF#64 &&& ~~~pageHuge := by
  have hlow : ∀ (z mask : BitVec 64), mask &&& 0xFFF#64 = 0#64 →
      (z &&& mask) &&& 0xFFF#64 = 0#64 := by
    intro z mask h
    rw [BitVec.and_assoc, h, BitVec.and_zero]
  rw [hugeEntry, pageEntry]
  simp only [BitVec.and_or_distrib_right, hlow P (~~~0x1FFFFF#64) (by decide),
    hlow P' (~~~0xFFF#64) (by decide), BitVec.zero_or]
  rw [show pageHuge &&& 0xFFF#64 &&& ~~~pageHuge = 0#64 by decide, BitVec.or_zero]

end Bits

end ZohoOs
