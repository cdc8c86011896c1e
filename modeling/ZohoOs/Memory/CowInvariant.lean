import ZohoOs.Memory.FrameAccounts
import ZohoOs.Memory.PageFault

/-!
# The invariant of copy on write

A frame is held once by each page that is mapped to it, and once by the space it is a table of.
While a call runs, it may hold a frame itself: one it has allocated and not mapped yet, or one it
has unmapped and not freed yet.

## Main definitions

* `Vmm.holds`, `Vmm.held`: how often a space, and all spaces, hold a frame
* `CowInv`: the invariant
* `InUse`: the pages that growing the tables leaves alone
* `PteSet`: the change of one page-table entry

## Main results

* `CowInv.links`: growing the tables of a space keeps the invariant
* `CowInv.setPte`: and so does mapping a page that is not shared, or shared and read-only
-/

namespace ZohoOs

open Forest Relation

/-! ## Holders -/

/-- How often a space holds a frame. -/
noncomputable def Vmm.holds (s : Vmm) (r a : Nat) : Nat :=
  (s.mappedBelow r [] a).card + s.tablesBelow r [] a

/-- How often the spaces hold a frame. -/
noncomputable def Vmm.held (s : Vmm) (live : Finset Nat) (a : Nat) : Nat :=
  ∑ r ∈ live, s.holds r a

/-- What a call holds itself. -/
def onHand (x : Nat) : Nat → Nat := fun a => if a = x then 1 else 0

section Holders

variable {s s' : Vmm} {live : Finset Nat} {r a : Nat} {q : PageNumber}

theorem Vmm.tablesBelow_nil (s : Vmm) (r a : Nat) [Decidable (∃ p, s.table r p = some a)] :
    s.tablesBelow r [] a = if ∃ p, s.table r p = some a then 1 else 0 := by
  unfold Vmm.tablesBelow
  simp only [List.nil_suffix, true_and]

theorem Vmm.holds_congr (hpte : ∀ q, s'.pte r q = s.pte r q)
    (htable : ∀ p, s'.table r p = s.table r p) : s'.holds r a = s.holds r a := by
  have hmapped : s'.mappedBelow r [] a = s.mappedBelow r [] a := by
    ext q
    rw [mem_mappedBelow, mem_mappedBelow, Vmm.Maps, Vmm.Maps, hpte]
  classical
  rw [Vmm.holds, Vmm.holds, hmapped, Vmm.tablesBelow_nil, Vmm.tablesBelow_nil]
  simp only [htable]

theorem Vmm.holds_pos_of_maps (h : s.Maps r q a) : 0 < s.holds r a := by
  have hmem : q ∈ s.mappedBelow r [] a := mem_mappedBelow.mpr ⟨List.nil_suffix, h⟩
  have := Finset.card_pos.mpr ⟨q, hmem⟩
  unfold Vmm.holds
  omega

theorem Vmm.holds_pos_of_table {p : List (Fin 512)} (h : s.table r p = some a) :
    0 < s.holds r a := by
  classical
  rw [Vmm.holds, Vmm.tablesBelow_nil, if_pos ⟨p, h⟩]
  omega

theorem Vmm.held_pos (hr : r ∈ live) (h : 0 < s.holds r a) : 0 < s.held live a := by
  have hle : s.holds r a ≤ s.held live a :=
    Finset.single_le_sum (f := fun r => s.holds r a) (fun _ _ => Nat.zero_le _) hr
  omega

/-- When only one space changes, so do the holders. -/
theorem Vmm.held_change (hr : r ∈ live) (hother : ∀ r' ∈ live, r' ≠ r → s'.holds r' a = s.holds r' a)
    {m n : Nat} (hself : s'.holds r a + m = s.holds r a + n) :
    s'.held live a + m = s.held live a + n := by
  unfold Vmm.held
  rw [← Finset.add_sum_erase _ _ hr, ← Finset.add_sum_erase _ _ hr,
    Finset.sum_congr rfl fun r' hr' => hother r' (Finset.mem_of_mem_erase hr') (Finset.ne_of_mem_erase hr')]
  omega

theorem Vmm.held_congr (h : ∀ r ∈ live, s'.holds r a = s.holds r a) :
    s'.held live a = s.held live a := Finset.sum_congr rfl h

end Holders

/-! ## The invariant -/

/-- **The invariant.** The books of the frames are right. A page-table entry is empty or maps a
page; two entries that map one frame are of one page, and neither is writable; and no table is
mapped. -/
structure CowInv (frames : Set Nat) (live : Finset Nat) (extra : Nat → Nat) (s : Vmm) : Prop where
  wf : Wf s live
  acct : Accounted frames s.pmm fun a => s.held live a + extra a
  pte : ∀ r ∈ live, ∀ q, s.pte r q = 0#64 ∨
    hasFlag (s.pte r q) pagePresent = true ∧ hasFlag (s.pte r q) pageHuge = false
  pde : ∀ r ∈ live, ∀ q, hasFlag (s.pde r q) pageHuge = false
  share : ∀ r ∈ live, ∀ r' ∈ live, ∀ q q' a, s.Maps r q a → s.Maps r' q' a →
    q = q' ∧ (hasFlag (s.pte r q) pageWritable = true → r = r')
  tables : ∀ t, s.IsTable live t → ∀ r ∈ live, ∀ q, ¬ s.Maps r q t

section Invariant

variable {frames : Set Nat} {live : Finset Nat} {extra : Nat → Nat} {s s' : Vmm} {r : Nat}
  {q : PageNumber}

/-- A change outside the tables and the allocator. -/
theorem CowInv.frame (h : CowInv frames live extra s) (hkr : s'.currentPml4 = s.currentPml4)
    (hpmm : s'.pmm = s.pmm) (hmem : ∀ t, s.IsTable live t → s'.mem t = s.mem t) :
    CowInv frames live extra s' := by
  -- no table is written, so the walks and what they find are the same
  have htable : ∀ r ∈ s.roots live, ∀ p, s'.table r p = s.table r p := fun r hr =>
    Vmm.table_frame hkr fun p t ht => hmem t ⟨r, hr, p, ht⟩
  have hentry : ∀ r ∈ s.roots live, ∀ p i, s'.entry r p i = s.entry r p i := fun r hr =>
    Vmm.entry_frame hkr fun p t ht => hmem t ⟨r, hr, p, ht⟩
  have hpte : ∀ r ∈ live, ∀ q, s'.pte r q = s.pte r q :=
    fun r hr q => hentry r (Vmm.mem_roots hr) q.path q.2.2.2
  have hmaps : ∀ r ∈ live, ∀ q a, s'.Maps r q a ↔ s.Maps r q a := by
    intro r hr q a
    rw [Vmm.Maps, hpte r hr, Vmm.Maps]
  have hheld : ∀ a, s'.held live a = s.held live a := fun a => Vmm.held_congr fun r hr =>
    Vmm.holds_congr (hpte r hr) (htable r (Vmm.mem_roots hr))
  refine ⟨?_, ?_, fun r hr q => ?_, fun r hr q => ?_, fun r hr r' hr' q q' a hm hm' => ?_,
    fun t ht r hr q => ?_⟩
  · apply h.wf.frame hkr hmem
    · exact hpmm ▸ h.wf.stack
    · exact fun t ht => hpmm ▸ h.wf.used t ht
  · rw [hpmm]
    exact h.acct.congr fun a => by rw [hheld]
  · rw [hpte r hr]
    exact h.pte r hr q
  · rw [Vmm.pde, hentry r (Vmm.mem_roots hr)]
    exact h.pde r hr q
  · rw [hpte r hr]
    exact h.share r hr r' hr' q q' a ((hmaps r hr q a).mp hm) ((hmaps r' hr' q' a).mp hm')
  · rw [hmaps r hr]
    exact h.tables t ((Vmm.isTable_frame hkr hmem t).mp ht) r hr q

theorem CowInv.held_pos_of_maps {a : Nat} (hr : r ∈ live) (h : s.Maps r q a) :
    0 < s.held live a := Vmm.held_pos hr (Vmm.holds_pos_of_maps h)

/-- A frame no space holds is neither a table nor mapped. -/
theorem CowInv.not_maps_of_held {a : Nat} (hzero : s.held live a = 0) (hr : r ∈ live) :
    ¬ s.Maps r q a := fun hm => (CowInv.held_pos_of_maps hr hm).ne' hzero

/-- The spaces are no more than the frames. -/
theorem CowInv.card_live (h : CowInv frames live extra s) : live.card ≤ maxFrames := by
  have hframe : ∀ r ∈ live, r ∈ frames := by
    intro r hr
    apply h.acct.owned
    have := Vmm.held_pos hr (s.holds_pos_of_table (Vmm.table_nil s r))
    omega
  have hinj : Set.InjOn (· / pageSize) (live : Set Nat) := fun a ha b hb he =>
    div_pageSize_inj (h.acct.aligned a (hframe a ha)) (h.acct.aligned b (hframe b hb)) he
  have hsub : ∀ r ∈ live, r / pageSize ∈ Finset.range maxFrames :=
    fun r hr => Finset.mem_range.mpr (h.acct.lt_max r (hframe r hr))
  simpa using Finset.card_le_card_of_injOn _ hsub hinj

/-- A space maps a frame at one page at most. -/
theorem CowInv.holds_of_maps (h : CowInv frames live extra s) {r' a : Nat} (hr : r ∈ live)
    (hr' : r' ∈ live) (hmaps : s.Maps r q a) :
    s.holds r' a = if s.Maps r' q a then 1 else 0 := by
  classical
  have hnone : ¬ ∃ p, s.table r' p = some a :=
    fun ⟨p, hp⟩ => h.tables a ⟨r', Vmm.mem_roots hr', p, hp⟩ r hr q hmaps
  have hset : s.mappedBelow r' [] a = if s.Maps r' q a then {q} else ∅ := by
    ext q'
    rw [mem_mappedBelow]
    constructor
    · rintro ⟨-, hm⟩
      obtain ⟨rfl, -⟩ := h.share r hr r' hr' q q' a hmaps hm
      rw [if_pos hm]
      exact Finset.mem_singleton_self q
    · intro hq'
      split at hq'
      · next hm =>
        obtain rfl := Finset.mem_singleton.mp hq'
        exact ⟨List.nil_suffix, hm⟩
      · exact absurd hq' (Finset.notMem_empty q')
  rw [Vmm.holds, hset, Vmm.tablesBelow_nil, if_neg hnone]
  split <;> simp

/-- So a mapped frame is held no more often than there are spaces. -/
theorem CowInv.held_le (h : CowInv frames live extra s) {a : Nat} (hr : r ∈ live)
    (hmaps : s.Maps r q a) : s.held live a ≤ maxFrames := by
  refine le_trans ?_ h.card_live
  unfold Vmm.held
  rw [Finset.card_eq_sum_ones]
  apply Finset.sum_le_sum
  intro r' hr'
  rw [h.holds_of_maps hr hr' hmaps]
  split <;> omega

end Invariant

/-! ## Growing the tables -/

section Link

variable {frames : Set Nat} {live : Finset Nat} {extra : Nat → Nat} {s s' : Vmm} {r t : Nat}
  {p : List (Fin 512)} {i : Fin 512}

/-- The new table is the only frame whose holders change. -/
theorem CanLink.held_link (h : CanLink s live r p t i) (hr : r ∈ live) (a : Nat) :
    (s.link t i).held live a = s.held live a + onHand (pmmAllocFrame s.pmm).1 a := by
  classical
  -- a new table maps nothing, so the pages are held as before
  have hpte : ∀ r' ∈ live, ∀ q, (s.link t i).pte r' q = s.pte r' q :=
    fun r' hr' q => (LinkStep.link h).pte_eq (Vmm.mem_roots hr') q
  have hmapped : ∀ r' ∈ live, (s.link t i).mappedBelow r' [] a = s.mappedBelow r' [] a := by
    intro r' hr'
    ext q
    rw [mem_mappedBelow, mem_mappedBelow, Vmm.Maps, Vmm.Maps, hpte r' hr']
  have hfresh := (h.wf.freshPage h.alloc).notTable
  refine (Nat.add_zero _).symm.trans (Vmm.held_change hr (fun r' hr' hne => ?_) ?_)
  · refine Vmm.holds_congr (hpte r' hr') fun p' => ?_
    rw [h.link_table (Vmm.mem_roots hr'), if_neg fun hc => hne hc.1]
  · rw [Vmm.holds, Vmm.holds, hmapped r hr, Vmm.tablesBelow_nil, Vmm.tablesBelow_nil, onHand]
    simp only [h.link_table (Vmm.mem_roots hr), true_and]
    by_cases ha : a = (pmmAllocFrame s.pmm).1
    · -- the frame was no table, and is one now
      subst ha
      have hnot : ¬ ∃ p', s.table r p' = some (pmmAllocFrame s.pmm).1 :=
        not_exists.mpr fun p' hp' => hfresh ⟨r, Vmm.mem_roots hr, p', hp'⟩
      rw [if_pos ⟨i :: p, if_pos rfl⟩, if_neg hnot, if_pos rfl]
    -- another frame is a table where it was one
    · have hiff : (∃ p', (if p' = i :: p then some (pmmAllocFrame s.pmm).1 else s.table r p') = some a) ↔
          ∃ p', s.table r p' = some a := by
        constructor
        · rintro ⟨p', hp'⟩
          split at hp'
          · exact absurd (Option.some.inj hp').symm ha
          · exact ⟨p', hp'⟩
        · rintro ⟨p', hp'⟩
          refine ⟨p', ?_⟩
          rw [if_neg, hp']
          rintro rfl
          rw [Vmm.table_cons h.table, h.none] at hp'
          exact absurd hp' (by simp)
      simp only [hiff, if_neg ha, Nat.add_zero]

/-- Growing the tables of a space keeps the invariant. -/
theorem CowInv.link (h : CowInv frames live extra s) (hr : r ∈ live)
    (hstep : LinkStep live r s s') : CowInv frames live extra s' := by
  have hwf := hstep.wf
  -- no page table entry changes, and so no mapping does
  have hpte : ∀ r' ∈ live, ∀ q, s'.pte r' q = s.pte r' q :=
    fun r' hr' q => hstep.pte_eq (Vmm.mem_roots hr') q
  have hmaps : ∀ r' ∈ live, ∀ q a, s'.Maps r' q a ↔ s.Maps r' q a := by
    intro r' hr' q a
    rw [Vmm.Maps, hpte r' hr', Vmm.Maps]
  cases hstep with
  | touch _ _ => exact h.frame rfl rfl fun _ _ => rfl
  | @link p t i hlink =>
    obtain ⟨hzero, hframe, hacct⟩ := h.acct.alloc hlink.alloc
    -- the frame of the new table was held by nobody, so nothing is mapped there
    have hnone : s.held live (pmmAllocFrame s.pmm).1 = 0 := by omega
    refine ⟨hwf, ?_, fun r' hr' q => ?_, fun r' hr' q => ?_, fun r₁ hr₁ r₂ hr₂ q₁ q₂ a h₁ h₂ => ?_,
      fun t' ht' r' hr' q => ?_⟩
    · rw [hlink.link_pmm]
      refine hacct.congr fun a => ?_
      rw [hlink.held_link hr, onHand]
      rcases eq_or_ne a (pmmAllocFrame s.pmm).1 with rfl | hne
      · rw [Function.update_self, if_pos rfl]
        omega
      · rw [Function.update_of_ne hne, if_neg hne]
        omega
    · rw [hpte r' hr']
      exact h.pte r' hr' q
    -- the entry of the new table is no large page
    · rw [Vmm.pde, hlink.link_entry (Vmm.mem_roots hr')]
      have hfresh := h.wf.freshPage hlink.alloc
      split
      · exact linkEntry_not_huge hfresh.aligned (lt_trans hfresh.lt (by decide))
      · exact h.pde r' hr' q
    · rw [hpte r₁ hr₁]
      exact h.share r₁ hr₁ r₂ hr₂ q₁ q₂ a ((hmaps r₁ hr₁ q₁ a).mp h₁) ((hmaps r₂ hr₂ q₂ a).mp h₂)
    · rw [hmaps r' hr']
      obtain ⟨r₁, hr₁, p₁, hp₁⟩ := ht'
      rw [Vmm.roots_congr hlink.link_currentPml4] at hr₁
      rw [hlink.link_table hr₁] at hp₁
      split at hp₁
      · obtain rfl := Option.some.inj hp₁
        exact CowInv.not_maps_of_held hnone hr'
      · exact h.tables t' ⟨r₁, hr₁, p₁, hp₁⟩ r' hr' q

theorem CowInv.links (h : CowInv frames live extra s) (hr : r ∈ live)
    (hsteps : LinkSteps live r s s') : CowInv frames live extra s' := by
  induction hsteps with
  | refl => exact h
  | tail _ hstep ih => exact ih.link hr hstep

/-- What is in use and no table stays so, and keeps its contents. -/
structure InUse (s : Vmm) (live : Finset Nat) (a : Nat) : Prop where
  notFree : a ∉ s.pmm.freeStack
  notTable : ¬ s.IsTable live a

theorem InUse.link {a : Nat} (h : InUse s live a) (hstep : LinkStep live r s s') :
    InUse s' live a ∧ s'.mem a = s.mem a := by
  cases hstep with
  | touch _ _ => exact ⟨⟨h.notFree, h.notTable⟩, rfl⟩
  | @link p t i hlink =>
    have hfresh := hlink.wf.freshPage hlink.alloc
    have hne : a ≠ (pmmAllocFrame s.pmm).1 := by
      rintro rfl
      exact h.notFree hfresh.free
    refine ⟨⟨?_, ?_⟩, hlink.link_mem ?_ hne⟩
    · rw [hlink.link_pmm, freeStack_alloc]
      exact fun hmem => h.notFree (List.mem_of_mem_tail hmem)
    · rintro ⟨r₁, hr₁, p₁, hp₁⟩
      rw [Vmm.roots_congr hlink.link_currentPml4] at hr₁
      rw [hlink.link_table hr₁] at hp₁
      split at hp₁
      · exact hne (Option.some.inj hp₁).symm
      · exact h.notTable ⟨r₁, hr₁, p₁, hp₁⟩
    · rintro rfl
      exact h.notTable ⟨r, hlink.root, p, hlink.table⟩

theorem InUse.links {a : Nat} (h : InUse s live a) (hsteps : LinkSteps live r s s') :
    InUse s' live a ∧ s'.mem a = s.mem a := by
  induction hsteps with
  | refl => exact ⟨h, rfl⟩
  | tail _ hstep ih =>
    obtain ⟨huse, hmem⟩ := ih.1.link hstep
    exact ⟨huse, hmem.trans ih.2⟩

end Link

/-! ## Changing an entry -/

/-- One page-table entry has changed, and no other entry of the tables. -/
structure PteSet (live : Finset Nat) (r : Nat) (q : PageNumber) (e : BitVec 64) (s s' : Vmm) :
    Prop where
  currentPml4 : s'.currentPml4 = s.currentPml4
  table : ∀ r' ∈ s.roots live, ∀ p, s'.table r' p = s.table r' p
  entry : ∀ r' ∈ s.roots live, ∀ p i,
    s'.entry r' p i = if r' = r ∧ p = q.path ∧ i = q.2.2.2 then e else s.entry r' p i

section Set

variable {frames : Set Nat} {live : Finset Nat} {extra extra' : Nat → Nat} {s s' : Vmm} {r : Nat}
  {q : PageNumber} {e : BitVec 64}

theorem WriteLeaf.pteSet {t : Nat} (h : WriteLeaf s live r q.path t q.2.2.2 e) :
    PteSet live r q e s (s.write t q.2.2.2 e) :=
  ⟨rfl, fun _ hr' p => h.write_table hr' p, fun _ hr' p i => h.write_entry hr' p i⟩

theorem PteSet.pte_self (h : PteSet live r q e s s') (hr : r ∈ live) : s'.pte r q = e := by
  rw [Vmm.pte, h.entry r (Vmm.mem_roots hr), if_pos ⟨rfl, rfl, rfl⟩]

theorem PteSet.pte_other (h : PteSet live r q e s s') {r' : Nat} {q' : PageNumber} (hr' : r' ∈ live)
    (hne : ¬ (r' = r ∧ q' = q)) : s'.pte r' q' = s.pte r' q' := by
  rw [Vmm.pte, h.entry r' (Vmm.mem_roots hr'), if_neg, Vmm.pte]
  rintro ⟨rfl, hp, hi⟩
  exact hne ⟨rfl, PageNumber.full_inj (by rw [PageNumber.full, PageNumber.full, hp, hi])⟩

theorem PteSet.isTable (h : PteSet live r q e s s') (t : Nat) :
    s'.IsTable live t ↔ s.IsTable live t := by
  unfold Vmm.IsTable
  rw [Vmm.roots_congr h.currentPml4]
  constructor
  · rintro ⟨r', hr', p, hp⟩
    exact ⟨r', hr', p, (h.table r' hr' p).symm.trans hp⟩
  · rintro ⟨r', hr', p, hp⟩
    exact ⟨r', hr', p, (h.table r' hr' p).trans hp⟩

/-- The page mapped before loses a holder, the one mapped now gets one. -/
theorem PteSet.held (h : PteSet live r q e s s') (hr : r ∈ live) (a : Nat) :
    s'.held live a + (if s.Maps r q a then 1 else 0) =
      s.held live a + (if s'.Maps r q a then 1 else 0) := by
  classical
  refine Vmm.held_change hr (fun r' hr' hne => ?_) ?_
  · exact Vmm.holds_congr (fun q' => h.pte_other hr' fun hc => hne hc.1)
      (h.table r' (Vmm.mem_roots hr'))
  · have herase : (s'.mappedBelow r [] a).erase q = (s.mappedBelow r [] a).erase q := by
      ext q'
      rw [Finset.mem_erase, Finset.mem_erase, mem_mappedBelow, mem_mappedBelow]
      refine and_congr_right fun hne => and_congr_right fun _ => ?_
      rw [Vmm.Maps, h.pte_other hr fun hc => hne hc.2, Vmm.Maps]
    have hcard : ∀ u : Vmm, (u.mappedBelow r [] a).card =
        ((u.mappedBelow r [] a).erase q).card + if u.Maps r q a then 1 else 0 := by
      intro u
      by_cases hm : u.Maps r q a
      · rw [if_pos hm, Finset.card_erase_add_one]
        exact mem_mappedBelow.mpr ⟨List.nil_suffix, hm⟩
      · rw [if_neg hm, Finset.erase_eq_of_notMem, Nat.add_zero]
        exact fun hmem => hm (mem_mappedBelow.mp hmem).2
    have htables : s'.tablesBelow r [] a = s.tablesBelow r [] a := by
      rw [Vmm.tablesBelow_nil, Vmm.tablesBelow_nil]
      simp only [h.table r (Vmm.mem_roots hr)]
    rw [Vmm.holds, Vmm.holds, hcard s', hcard s, herase, htables]
    omega

/-- **Mapping a page.** The page is no table, and of the other entries that map it, all are of
the same page number, and neither they nor the new one are writable. -/
theorem CowInv.setPte (h : CowInv frames live extra s) (hr : r ∈ live)
    (hset : PteSet live r q e s s') (hwf : Wf s' live)
    (hacct : Accounted frames s'.pmm fun a => s'.held live a + extra' a)
    (hpres : hasFlag e pagePresent = true) (hsmall : hasFlag e pageHuge = false)
    (htable : ¬ s.IsTable live (pageOf e))
    (hshare : ∀ r' ∈ live, ∀ q', s.Maps r' q' (pageOf e) → ¬ (r' = r ∧ q' = q) →
      q' = q ∧ hasFlag e pageWritable = false ∧ hasFlag (s.pte r' q') pageWritable = false) :
    CowInv frames live extra' s' := by
  have hself := hset.pte_self hr
  -- a mapping elsewhere was there before
  have hother : ∀ {r' q' a}, r' ∈ live → ¬ (r' = r ∧ q' = q) → s'.Maps r' q' a → s.Maps r' q' a := by
    intro r' q' a hr' hne hm
    rwa [Vmm.Maps, hset.pte_other hr' hne] at hm
  refine ⟨hwf, hacct, fun r' hr' q' => ?_, fun r' hr' q' => ?_, fun r₁ hr₁ r₂ hr₂ q₁ q₂ a h₁ h₂ => ?_,
    fun t ht r' hr' q' hm => ?_⟩
  · by_cases hat : r' = r ∧ q' = q
    · obtain ⟨rfl, rfl⟩ := hat
      rw [hself]
      exact Or.inr ⟨hpres, hsmall⟩
    · rw [hset.pte_other hr' hat]
      exact h.pte r' hr' q'
  -- a page table entry is no entry of a directory
  · rw [Vmm.pde, hset.entry r' (Vmm.mem_roots hr'), if_neg]
    · exact h.pde r' hr' q'
    · rintro ⟨-, hp, -⟩
      simpa using congrArg List.length hp
  · -- one of the two entries may be the one that changed
    by_cases hat₁ : r₁ = r ∧ q₁ = q
    · obtain ⟨rfl, rfl⟩ := hat₁
      have ha : pageOf e = a := by
        rw [← hself]
        exact h₁.2
      by_cases hat₂ : r₂ = r₁ ∧ q₂ = q₁
      · exact ⟨hat₂.2.symm, fun _ => hat₂.1.symm⟩
      · obtain ⟨rfl, hro, -⟩ := hshare r₂ hr₂ q₂ (ha ▸ hother hr₂ hat₂ h₂) hat₂
        refine ⟨rfl, fun hw => ?_⟩
        rw [hself, hro] at hw
        exact absurd hw (by simp)
    · have h₁' := hother hr₁ hat₁ h₁
      rw [hset.pte_other hr₁ hat₁]
      by_cases hat₂ : r₂ = r ∧ q₂ = q
      · obtain ⟨rfl, rfl⟩ := hat₂
        have ha : pageOf e = a := by
          rw [← hself]
          exact h₂.2
        obtain ⟨rfl, -, hro⟩ := hshare r₁ hr₁ q₁ (ha ▸ h₁') hat₁
        refine ⟨rfl, fun hw => ?_⟩
        rw [hro] at hw
        exact absurd hw (by simp)
      · exact h.share r₁ hr₁ r₂ hr₂ q₁ q₂ a h₁' (hother hr₂ hat₂ h₂)
  -- no table is mapped: not by the new entry, and not by those of before
  · have ht' := (hset.isTable t).mp ht
    by_cases hat : r' = r ∧ q' = q
    · obtain ⟨rfl, rfl⟩ := hat
      apply htable
      have ha : pageOf e = t := by
        rw [← hself]
        exact hm.2
      rwa [ha]
    · exact h.tables t ht' r' hr' q' (hother hr' hat hm)

/-- The frame a space maps stays where it is: an entry of the same page that is not writable. -/
theorem CowInv.share_of_maps (h : CowInv frames live extra s) {r₁ : Nat} (hr₁ : r₁ ∈ live)
    (hmaps : s.Maps r₁ q (pageOf e)) (hro : hasFlag e pageWritable = false)
    (hsrc : r₁ = r ∨ hasFlag (s.pte r₁ q) pageWritable = false) :
    ∀ r' ∈ live, ∀ q', s.Maps r' q' (pageOf e) → ¬ (r' = r ∧ q' = q) →
      q' = q ∧ hasFlag e pageWritable = false ∧ hasFlag (s.pte r' q') pageWritable = false := by
  intro r' hr' q' hm hne
  obtain ⟨rfl, hw⟩ := h.share r' hr' r₁ hr₁ q' q _ hm hmaps
  refine ⟨rfl, hro, ?_⟩
  by_contra hwr
  have hwr' : hasFlag (s.pte r' q') pageWritable = true := by simpa using hwr
  obtain rfl := hw hwr'
  rcases hsrc with rfl | hsrc
  · exact hne ⟨rfl, rfl⟩
  · rw [hsrc] at hwr'
    exact absurd hwr' (by simp)

end Set

end ZohoOs
