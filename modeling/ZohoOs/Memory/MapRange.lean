import Mathlib.Order.Interval.Finset.Nat
import ZohoOs.Lib.Stride
import ZohoOs.Memory.MapEffect
import ZohoOs.Memory.PageRange

/-!
# Mapping a range

`vmm_map_range` maps a 2 MiB leaf wherever the virtual and the physical address are aligned for it and
the rest of the range is long enough, and a page everywhere else. The translations are those of a loop
that maps every page by itself, unless `flags` has address bits inside a 2 MiB page: a leaf drops them
from the address, and a page keeps them.

## Main definitions

* `vmmMapRange`, `vmmMapPages`: the function, and the loop that maps every page
* `rangeTables`: the tables over the pages of a range

## Main results

* `mapRangeFrom_eq`: the loops go through the stops of a walk with two strides
* `mapStops_leaf`: the leaf over a page after the stops, from the leaf before
* `stops_agree`: where the two loops leave different leaves
* `vmmMapRange_agrees_iff`: when they translate every address alike
-/

namespace ZohoOs

open Forest Relation Stride TransitionSystem

/-! ## The functions -/

/-- The test of `vmm_map_range` at the offset `i`. -/
def prefersHuge (virt phys size i : BitVec 64) : Bool :=
  (virt + i) % 0x200000#64 == 0#64 && (phys + i) % 0x200000#64 == 0#64 &&
    decide (0x200000#64 ≤ size - i)

/-- The loop of `vmm_map_range` from the offset `i`, with its test as a parameter. -/
def mapRangeFrom (huge : BitVec 64 → Bool) (pml4 : Nat) (virt phys size flags : BitVec 64) :
    Nat → Vmm → BitVec 64 → Option Vmm
  | 0, _, _ => none
  | fuel + 1, s, i =>
    if i < size then
      if huge i then
        mapRangeFrom huge pml4 virt phys size flags fuel
          (vmmMap s pml4 (virt + i) (phys + i) (flags ||| pageHuge)) (i + 0x200000#64)
      else
        mapRangeFrom huge pml4 virt phys size flags fuel
          (vmmMap s pml4 (virt + i) (phys + i) flags) (i + 0x1000#64)
    else some s

/-- `vmm_map_range`. -/
def vmmMapRange (fuel : Nat) (s : Vmm) (pml4 : Nat) (virt phys size flags : BitVec 64) :
    Option Vmm :=
  mapRangeFrom (prefersHuge virt phys size) pml4 virt phys size flags fuel s 0#64

/-- The loop that calls `vmm_map` for every page of the range. -/
def vmmMapPages (fuel : Nat) (s : Vmm) (pml4 : Nat) (virt phys size flags : BitVec 64) :
    Option Vmm :=
  mapRangeFrom (fun _ => false) pml4 virt phys size flags fuel s 0#64

/-! ## Stops -/

/-- The number behind the last page of the range. -/
def pageEnd (virt size : BitVec 64) : Nat := (virt.toNat + size.toNat + 0xFFF) / 0x1000

/-- The physical address that the page number `n` is mapped to. -/
def physAt (virt phys : BitVec 64) (n : Nat) : BitVec 64 := phys + (pageAddr n - virt)

/-- The loop takes its long stride at the page number `n`. -/
def wideAt (huge : BitVec 64 → Bool) (virt : BitVec 64) (n : Nat) : Bool := huge (pageAddr n - virt)

/-- The call at page number `n`. -/
def mapStop (huge : BitVec 64 → Bool) (b : Nat) (virt phys flags : BitVec 64) (s : Vmm) (n : Nat) :
    Vmm :=
  vmmMap s b (pageAddr n) (physAt virt phys n)
    (if wideAt huge virt n then flags ||| pageHuge else flags)

/-- The pages from `a` on at which the loop stops. -/
def mapStops (huge : BitVec 64 → Bool) (virt size : BitVec 64) (fuel a : Nat) : List Nat :=
  Stride.visits (wideAt huge virt) 512 fuel a (pageEnd virt size)

section Loop

variable {huge : BitVec 64 → Bool} {b : Nat} {virt phys size flags : BitVec 64}

/-- **The loop goes through the stops of a walk with two strides.** -/
theorem mapRangeFrom_eq (hvirt : virt.toNat % 0x1000 = 0)
    (hbound : virt.toNat + size.toNat ≤ 2 ^ 48) (fuel : Nat) {i : BitVec 64} {s : Vmm}
    (hi : i.toNat % 0x1000 = 0) (hfuel : size.toNat ≤ i.toNat + 0x1000 * fuel) :
    mapRangeFrom huge b virt phys size flags (fuel + 1) s i =
      some ((mapStops huge virt size fuel ((virt.toNat + i.toNat) / 0x1000)).foldl
        (mapStop huge b virt phys flags) s) := by
  induction fuel generalizing s i with
  | zero =>
    have hend : ¬ i < size := by
      rw [BitVec.lt_def]
      omega
    rw [mapRangeFrom, if_neg hend]
    rfl
  | succ fuel ih =>
    rw [mapRangeFrom]
    by_cases hlt : i < size
    · have hlt' := BitVec.lt_def.mp hlt
      -- `a` is the page index of `virt + i`, which does not wrap, so `i` is read back from it.
      generalize ha : (virt.toNat + i.toNat) / 0x1000 = a
      have haddr : virt + i = pageAddr a := by
        apply BitVec.eq_of_toNat_eq
        rw [BitVec.toNat_add, pageAddr_toNat (by omega)]
        omega
      have hoff : pageAddr a - virt = i := by
        rw [← haddr, BitVec.add_comm, BitVec.add_sub_cancel]
      have hphys : phys + i = physAt virt phys a := by rw [physAt, hoff]
      have hend : a < pageEnd virt size := by
        unfold pageEnd
        omega
      rw [if_pos hlt, mapStops, visits_succ hend, List.foldl_cons, ← mapStops, stride, mapStop,
        wideAt, hoff, haddr, hphys]
      cases huge i with
      | true =>
        have hj : (i + 0x200000#64).toNat = i.toNat + 0x200000 := by
          rw [BitVec.toNat_add]
          exact Nat.mod_eq_of_lt (by simp only [BitVec.toNat_ofNat]; omega)
        rw [if_pos rfl, if_pos rfl, if_pos rfl, ih (by omega) (by omega), hj,
          show (virt.toNat + (i.toNat + 0x200000)) / 0x1000 = a + 512 by omega]
      | false =>
        have hj : (i + 0x1000#64).toNat = i.toNat + 0x1000 := by
          rw [BitVec.toNat_add]
          exact Nat.mod_eq_of_lt (by simp only [BitVec.toNat_ofNat]; omega)
        rw [if_neg (by simp), if_neg (by simp), if_neg (by simp), ih (by omega) (by omega), hj,
          show (virt.toNat + (i.toNat + 0x1000)) / 0x1000 = a + 1 by omega]
    · rw [BitVec.lt_def] at hlt
      have hend : pageEnd virt size ≤ (virt.toNat + i.toNat) / 0x1000 := by
        unfold pageEnd
        omega
      rw [if_neg (by rwa [BitVec.lt_def]), mapStops, visits_nil hend]
      rfl

end Loop

/-! ## The leaves after the stops -/

/-- The tables over the pages from `a` to `e`. -/
@[irreducible] def tablesBetween (a e : Nat) : Finset (List (Fin 512)) :=
  (Finset.Ico a e).biUnion fun n => tablesOver (pageNumber (pageAddr n))

/-- The leaf over `q` after the call at page number `n`. -/
def stopLeaf (huge : BitVec 64 → Bool) (virt phys flags : BitVec 64) (q : PageNumber)
    (x : Option Leaf) (n : Nat) : Option Leaf :=
  if wideAt huge virt n then
    setHuge (pageNumber (pageAddr n)) (hugeEntry (physAt virt phys n) (flags ||| pageHuge)) q x
  else setPage (pageNumber (pageAddr n)) (pageEntry (physAt virt phys n) flags) q x

/-- The long strides are taken at the first page of a block that ends before `e`. -/
def WholeBlocks (huge : BitVec 64 → Bool) (virt : BitVec 64) (a e : Nat) : Prop :=
  ∀ n, a ≤ n → n < e → wideAt huge virt n = true → n % 512 = 0 ∧ n + 512 ≤ e

section Stops

variable {huge : BitVec 64 → Bool} {virt phys size flags : BitVec 64} {s : Vmm} {live : Finset Nat}
  {b a e n m : Nat} {q : PageNumber}

theorem mem_tablesBetween {p : List (Fin 512)} : p ∈ tablesBetween a e ↔
    ∃ n, (a ≤ n ∧ n < e) ∧ p ∈ tablesOver (pageNumber (pageAddr n)) := by
  unfold tablesBetween
  rw [Finset.mem_biUnion]
  exact exists_congr fun n => and_congr_left' Finset.mem_Ico

theorem tablesBetween_mono {a' : Nat} (h : a ≤ a') : tablesBetween a' e ⊆ tablesBetween a e := by
  intro p hp
  obtain ⟨n, hn, hp⟩ := mem_tablesBetween.mp hp
  exact mem_tablesBetween.mpr ⟨n, ⟨by omega, hn.2⟩, hp⟩

theorem tablesOver_subset (ha : a < e) :
    tablesOver (pageNumber (pageAddr a)) ⊆ tablesBetween a e :=
  fun _ hp => mem_tablesBetween.mpr ⟨a, ⟨le_rfl, ha⟩, hp⟩

/-- The page table of a block is not over the pages behind it. -/
theorem path_notMem_behind (he : e ≤ 2 ^ 36) (ha : a % 512 = 0) (hlt : a < e) :
    (pageNumber (pageAddr a)).path ∉ tablesBetween (a + 512) e := by
  intro hmem
  obtain ⟨n, hn, hmem⟩ := mem_tablesBetween.mp hmem
  refine path_notMem_of_directory ?_ hmem
  rw [ne_eq, directory_pageAddr_iff (by omega) (by omega)]
  omega

/-- A call keeps the pages ahead outside the 2 MiB leaves. -/
theorem stopLeaf_small {x : Option Leaf} (he : e ≤ 2 ^ 36)
    (hwide : WholeBlocks huge virt a e) (ha : a < e)
    (hn : a + stride (wideAt huge virt) 512 a ≤ n) (hne : n < e)
    (hx : ∀ e', x ≠ some (e', 0x1FFFFF#64)) (e' : BitVec 64) :
    stopLeaf huge virt phys flags (pageNumber (pageAddr n)) x a ≠ some (e', 0x1FFFFF#64) := by
  unfold stopLeaf
  cases hbig : wideAt huge virt a with
  | true =>
    have hstride : stride (wideAt huge virt) 512 a = 512 := if_pos hbig
    have hstart := (hwide a le_rfl ha hbig).1
    have hdir : (pageNumber (pageAddr n)).directory ≠ (pageNumber (pageAddr a)).directory := by
      rw [ne_eq, directory_pageAddr_iff (by omega) (by omega)]
      omega
    rw [if_pos rfl, setHuge, if_neg hdir]
    exact hx e'
  | false =>
    rw [if_neg (by simp), setPage]
    split
    · simp
    · split
      · simp
      · exact hx e'

/-- One call of the loop. -/
theorem mapStop_mapped (huge : BitVec 64 → Bool) (virt phys : BitVec 64) (h : Wf s live)
    (hb : b ∈ s.roots live)
    (hflags : hasFlag flags pageHuge = false)
    (hsmall : hasFlag (s.pde (s.owner b (pageNumber (pageAddr a)).1) (pageNumber (pageAddr a)))
      pageHuge = false)
    (hav : s.pmm.Available (s.absent b (tablesOver (pageNumber (pageAddr a)))).card) :
    ∃ P D, Mapped live b P D (fun q x => stopLeaf huge virt phys flags q x a) s
        (mapStop huge b virt phys flags s a) ∧
      P ⊆ tablesOver (pageNumber (pageAddr a)) ∧
      D ⊆ if wideAt huge virt a then {(pageNumber (pageAddr a)).path} else ∅ := by
  unfold stopLeaf mapStop
  cases hbig : wideAt huge virt a with
  | true =>
    have hhuge : hasFlag (flags ||| pageHuge) pageHuge = true := by
      rw [hasFlag_or, show hasFlag pageHuge pageHuge = true by decide, Bool.or_true]
    refine ⟨_, _, vmmMap_mapped_huge h hb rfl hhuge (hav.mono ?_) _, directory_subset, subset_rfl⟩
    exact Finset.card_le_card (Finset.filter_subset_filter _ directory_subset)
  | false =>
    exact ⟨_, _, vmmMap_mapped_page h hb rfl hflags hsmall hav _, subset_rfl, subset_rfl⟩

/-- **The leaves after the stops of the loop.** With a frame for each table over the pages that is
missing, every call has those it needs. -/
theorem mapStops_leaf (fuel : Nat) (phys : BitVec 64) (h : Wf s live) (hb : b ∈ s.roots live)
    (hflags : hasFlag flags pageHuge = false) (he : e ≤ 2 ^ 36)
    (hwide : WholeBlocks huge virt a e)
    (hsmall : ∀ n, a ≤ n → n < e → hasFlag (s.pde (s.owner b (pageNumber (pageAddr n)).1)
      (pageNumber (pageAddr n))) pageHuge = false)
    (hav : s.pmm.Available (s.absent b (tablesBetween a e)).card) :
    ∃ s', (Stride.visits (wideAt huge virt) 512 fuel a e).foldl
        (mapStop huge b virt phys flags) s = s' ∧ Wf s' live ∧ s'.currentPml4 = s.currentPml4 ∧
      ∀ q, s'.leafAt b q = (Stride.visits (wideAt huge virt) 512 fuel a e).foldl
        (stopLeaf huge virt phys flags q) (s.leafAt b q) := by
  induction fuel generalizing a s with
  | zero => exact ⟨s, rfl, h, rfl, fun _ => rfl⟩
  | succ fuel ih =>
    by_cases hlt : a < e
    · have hpos : 0 < stride (wideAt huge virt) 512 a := stride_pos (by decide) a
      have hav' : s.pmm.Available (s.absent b (tablesOver (pageNumber (pageAddr a)))).card :=
        hav.mono (Finset.card_le_card (Finset.filter_subset_filter _ (tablesOver_subset hlt)))
      -- the call at `a` leaves the pages ahead as small as they were, and the frames for them
      obtain ⟨P, D, hmap, hP, hD⟩ := mapStop_mapped huge virt phys h hb hflags
        (hsmall a le_rfl hlt) hav'
      -- the tables that are given up are not needed any more
      have hdisj : Disjoint (tablesBetween (a + stride (wideAt huge virt) 512 a) e) D := by
        rw [Finset.disjoint_left]
        intro p hp hpD
        have hmem := hD hpD
        cases hbig : wideAt huge virt a with
        | true =>
          have hstride : stride (wideAt huge virt) 512 a = 512 := if_pos hbig
          rw [hbig, if_pos rfl, Finset.mem_singleton] at hmem
          subst hmem
          rw [hstride] at hp
          exact path_notMem_behind he (hwide a le_rfl hlt hbig).1 hlt hp
        | false =>
          rw [hbig, if_neg (by simp)] at hmem
          simp at hmem
      have hrest := hmap.available_rest hdisj (n := 0) (hP.trans (tablesOver_subset hlt))
        (tablesBetween_mono (Nat.le_add_right _ _)) (hav.mono (by omega))
      have hsmall' : ∀ n, a + stride (wideAt huge virt) 512 a ≤ n → n < e →
          hasFlag ((mapStop huge b virt phys flags s a).pde
            ((mapStop huge b virt phys flags s a).owner b (pageNumber (pageAddr n)).1)
            (pageNumber (pageAddr n))) pageHuge = false := by
        intro n hn hne
        rw [Vmm.small_iff]
        intro e'
        rw [hmap.leaf]
        exact stopLeaf_small he hwide hlt hn hne (Vmm.small_iff.mp (hsmall n (by omega) hne)) e'
      obtain ⟨s', heq, hwf, hkr, hleaf⟩ := ih hmap.wf (hmap.roots ▸ hb)
        (fun n hn hne hbig => hwide n (by omega) hne hbig) hsmall' (hrest.mono (by omega))
      refine ⟨s', ?_, hwf, hkr.trans hmap.currentPml4, fun q => ?_⟩
      · rw [visits_succ hlt, List.foldl_cons]
        exact heq
      · rw [visits_succ hlt, List.foldl_cons, hleaf, hmap.leaf]
    · rw [visits_nil (by omega)]
      exact ⟨s, rfl, h, rfl, fun _ => rfl⟩

end Stops

/-! ## Two loops over one range -/

section Agree

variable {huge : BitVec 64 → Bool} {virt phys flags : BitVec 64} {a e n m : Nat} {q : PageNumber}
  {x : Option Leaf}

/-- A call does nothing to other blocks. -/
theorem stopLeaf_other (h : q.directory ≠ (pageNumber (pageAddr n)).directory) :
    stopLeaf huge virt phys flags q x n = x := by
  have hne : q ≠ pageNumber (pageAddr n) := by
    rintro rfl
    exact h rfl
  unfold stopLeaf
  split
  · exact if_neg h
  · rw [setPage, if_neg hne, if_neg h]

theorem foldl_stopLeaf_other (l : List Nat)
    (h : ∀ n ∈ l, q.directory ≠ (pageNumber (pageAddr n)).directory) :
    l.foldl (stopLeaf huge virt phys flags q) x = x := by
  induction l with
  | nil => rfl
  | cons n l ih =>
    rw [List.foldl_cons, stopLeaf_other (h n List.mem_cons_self)]
    exact ih fun m hm => h m (List.mem_cons_of_mem _ hm)

/-- Once a page is mapped, calls for other pages keep its entry. -/
theorem foldl_pages_kept {e₀ : BitVec 64} (l : List Nat)
    (h : ∀ n ∈ l, q ≠ pageNumber (pageAddr n)) :
    l.foldl (stopLeaf (fun _ => false) virt phys flags q) (some (e₀, 0xFFF#64)) =
      some (e₀, 0xFFF#64) := by
  induction l with
  | nil => rfl
  | cons n l ih =>
    have hstop : stopLeaf (fun _ => false) virt phys flags q (some (e₀, 0xFFF#64)) n =
        some (e₀, 0xFFF#64) := by
      refine (if_neg (by simp [wideAt])).trans ?_
      rw [setPage, if_neg (h n List.mem_cons_self)]
      split
      · rfl
      · rfl
    rw [List.foldl_cons, hstop]
    exact ih fun m hm => h m (List.mem_cons_of_mem _ hm)

/-- The loop over single pages maps each of them. -/
theorem foldl_pages (l : List Nat) (hl : ∀ n ∈ l, n < 2 ^ 36) (hm : m ∈ l) :
    l.foldl (stopLeaf (fun _ => false) virt phys flags (pageNumber (pageAddr m))) x =
      some (pageEntry (physAt virt phys m) flags, 0xFFF#64) := by
  induction l generalizing x with
  | nil => cases hm
  | cons n l ih =>
    rw [List.foldl_cons]
    by_cases hmem : m ∈ l
    · exact ih (fun k hk => hl k (List.mem_cons_of_mem _ hk)) hmem
    · obtain rfl : m = n := (List.mem_cons.mp hm).resolve_right hmem
      have hstop : stopLeaf (fun _ => false) virt phys flags (pageNumber (pageAddr m)) x m =
          some (pageEntry (physAt virt phys m) flags, 0xFFF#64) := by
        refine (if_neg (by simp [wideAt])).trans ?_
        rw [setPage, if_pos rfl]
      rw [hstop]
      refine foldl_pages_kept l fun k hk => ?_
      rw [ne_eq, pageNumber_pageAddr_iff (hl m List.mem_cons_self) (hl k (List.mem_cons_of_mem _ hk))]
      rintro rfl
      exact hmem hk

/-- **Where the two loops leave different leaves**: in the blocks that one of them maps by a 2 MiB
leaf. There the other has mapped each page. -/
theorem stops_agree (fuel : Nat) (phys flags : BitVec 64) (he : e ≤ 2 ^ 36)
    (hwide : WholeBlocks huge virt a e) (hfuel : e ≤ a + fuel) (hm : m < 2 ^ 36) (x : Option Leaf) :
    (∃ n, a ≤ n ∧ n < e ∧ wideAt huge virt n = true ∧ n / 512 = m / 512 ∧
      (Stride.visits (wideAt huge virt) 512 fuel a e).foldl
        (stopLeaf huge virt phys flags (pageNumber (pageAddr m))) x =
          some (hugeEntry (physAt virt phys n) (flags ||| pageHuge), 0x1FFFFF#64) ∧
      (List.range' a (e - a)).foldl
        (stopLeaf (fun _ => false) virt phys flags (pageNumber (pageAddr m))) x =
          some (pageEntry (physAt virt phys m) flags, 0xFFF#64)) ∨
    ((∀ n, a ≤ n → n < e → wideAt huge virt n = true → n / 512 ≠ m / 512) ∧
      (Stride.visits (wideAt huge virt) 512 fuel a e).foldl
        (stopLeaf huge virt phys flags (pageNumber (pageAddr m))) x =
      (List.range' a (e - a)).foldl
        (stopLeaf (fun _ => false) virt phys flags (pageNumber (pageAddr m))) x) := by
  induction fuel generalizing a x with
  | zero =>
    refine Or.inr ⟨fun n hn hne => by omega, ?_⟩
    rw [Nat.sub_eq_zero_of_le (by omega)]
    rfl
  | succ fuel ih =>
    by_cases hlt : a < e
    · rw [visits_succ hlt, List.foldl_cons]
      cases hbig : wideAt huge virt a with
      | true =>
        have hstride : stride (wideAt huge virt) 512 a = 512 := if_pos hbig
        obtain ⟨hstart, hend⟩ := hwide a le_rfl hlt hbig
        rw [hstride]
        by_cases hblock : a / 512 = m / 512
        · -- the block of the page is mapped at once, and is left behind
          have hstop : stopLeaf huge virt phys flags (pageNumber (pageAddr m)) x a =
              some (hugeEntry (physAt virt phys a) (flags ||| pageHuge), 0x1FFFFF#64) := by
            refine (if_pos hbig).trans (if_pos ?_)
            rw [directory_pageAddr_iff hm (by omega)]
            exact hblock.symm
          refine Or.inl ⟨a, le_rfl, hlt, hbig, hblock, ?_, foldl_pages _ (fun n hn => ?_) ?_⟩
          · rw [hstop]
            refine foldl_stopLeaf_other _ fun n hn => ?_
            have hbounds := visits_bounds hn
            rw [ne_eq, directory_pageAddr_iff hm (by omega)]
            omega
          · rw [List.mem_range'_1] at hn
            omega
          · rw [List.mem_range'_1]
            omega
        · -- neither loop does anything to the page in this block
          have hsplit : List.range' a (e - a) =
              List.range' a 512 ++ List.range' (a + 512) (e - (a + 512)) := by
            rw [List.range'_append_1, show 512 + (e - (a + 512)) = e - a by omega]
          have hother : stopLeaf huge virt phys flags (pageNumber (pageAddr m)) x a = x := by
            apply stopLeaf_other
            rw [ne_eq, directory_pageAddr_iff hm (by omega)]
            exact Ne.symm hblock
          have hpages : (List.range' a 512).foldl
              (stopLeaf (fun _ => false) virt phys flags (pageNumber (pageAddr m))) x = x := by
            refine foldl_stopLeaf_other _ fun n hn => ?_
            have hbounds := List.mem_range'_1.mp hn
            rw [ne_eq, directory_pageAddr_iff hm (by omega)]
            omega
          rw [hsplit, List.foldl_append, hpages, hother]
          have hrest := ih (a := a + 512) (fun n hn hne => hwide n (by omega) hne) (by omega) x
          rcases hrest with ⟨n, hn, hrest⟩ | ⟨hnone, heq⟩
          · exact Or.inl ⟨n, by omega, hrest⟩
          · refine Or.inr ⟨fun n hn hne hbign => ?_, heq⟩
            by_cases hahead : a + 512 ≤ n
            · exact hnone n hahead hne hbign
            · have hstartn := (hwide n hn hne hbign).1
              omega
      | false =>
        -- both loops make the same call
        have hstride : stride (wideAt huge virt) 512 a = 1 := if_neg (by simp [hbig])
        have hstop : stopLeaf huge virt phys flags (pageNumber (pageAddr m)) x a =
            stopLeaf (fun _ => false) virt phys flags (pageNumber (pageAddr m)) x a :=
          (if_neg (by simp [hbig])).trans (if_neg (by simp [wideAt])).symm
        have hsplit : List.range' a (e - a) = a :: List.range' (a + 1) (e - (a + 1)) := by
          rw [show e - a = e - (a + 1) + 1 by omega]
          rfl
        rw [hstride, hsplit, List.foldl_cons, hstop]
        have hrest := ih (a := a + 1) (fun n hn hne => hwide n (by omega) hne) (by omega)
          (stopLeaf (fun _ => false) virt phys flags (pageNumber (pageAddr m)) x a)
        rcases hrest with ⟨n, hn, hrest⟩ | ⟨hnone, heq⟩
        · exact Or.inl ⟨n, by omega, hrest⟩
        · refine Or.inr ⟨fun n hn hne hbign => ?_, heq⟩
          rcases Nat.eq_or_lt_of_le hn with rfl | hahead
          · rw [hbig] at hbign
            cases hbign
          · exact hnone n hahead hne hbign
    · refine Or.inr ⟨fun n hn hne => by omega, ?_⟩
      rw [visits_nil (by omega), Nat.sub_eq_zero_of_le (by omega)]
      rfl

end Agree

/-! ## Ranges -/

/-- The tables over the pages of a range. -/
def rangeTables (virt size : BitVec 64) : Finset (List (Fin 512)) :=
  tablesBetween (virt.toNat / 0x1000) (pageEnd virt size)

/-- The function maps the block of `v` by a 2 MiB leaf. -/
def InWideBlock (virt phys size v : BitVec 64) : Prop :=
  ∃ n, virt.toNat / 0x1000 ≤ n ∧ n < pageEnd virt size ∧
    wideAt (prefersHuge virt phys size) virt n = true ∧ n / 512 = pageIndex v / 512

section Ranges

variable {s : Vmm} {live : Finset Nat} {b n m : Nat} {virt phys size flags : BitVec 64}

/-- The offset of a page in the range. -/
theorem offset_toNat (hn : n < 2 ^ 36) (hle : virt.toNat ≤ 0x1000 * n) :
    (pageAddr n - virt).toNat = 0x1000 * n - virt.toNat := by
  rw [BitVec.toNat_sub, pageAddr_toNat hn]
  omega

section Aligned

variable (hvirt : virt.toNat % 0x1000 = 0) (hbound : virt.toNat + size.toNat ≤ 2 ^ 48)

include hvirt hbound

/-- What the test says of a page of the range. -/
theorem wideAt_prefersHuge (hle : virt.toNat / 0x1000 ≤ n) (hlt : n < pageEnd virt size)
    (hwide : wideAt (prefersHuge virt phys size) virt n = true) :
    (n % 512 = 0 ∧ n + 512 ≤ pageEnd virt size) ∧ (physAt virt phys n).toNat % 0x200000 = 0 := by
  unfold pageEnd at hlt ⊢
  have hoff : (pageAddr n - virt).toNat = 0x1000 * n - virt.toNat :=
    offset_toNat (by omega) (by omega)
  have haddr : virt + (pageAddr n - virt) = pageAddr n := by
    rw [BitVec.add_comm, BitVec.sub_add_cancel]
  rw [wideAt, prefersHuge, haddr] at hwide
  simp only [Bool.and_eq_true, beq_iff_eq, decide_eq_true_eq, BitVec.le_def] at hwide
  obtain ⟨⟨hstart, hphys⟩, hsize⟩ := hwide
  have hstart' := congrArg BitVec.toNat hstart
  have hphys' := congrArg BitVec.toNat hphys
  rw [BitVec.toNat_umod, pageAddr_toNat (by omega)] at hstart'
  rw [BitVec.toNat_umod] at hphys'
  rw [BitVec.toNat_sub, hoff] at hsize
  simp only [BitVec.toNat_ofNat, Nat.reducePow, Nat.reduceMod] at hstart' hphys' hsize
  refine ⟨⟨by omega, by omega⟩, ?_⟩
  rw [physAt]
  exact hphys'

theorem wholeBlocks_prefersHuge : WholeBlocks (prefersHuge virt phys size) virt
    (virt.toNat / 0x1000) (pageEnd virt size) :=
  fun _ hle hlt hwide => (wideAt_prefersHuge hvirt hbound hle hlt hwide).1

theorem InWideBlock.exists_offset {v : BitVec 64} (h : InWideBlock virt phys size v) :
    ∃ i < size, prefersHuge virt phys size i = true := by
  obtain ⟨n, hle, hlt, hwide, -⟩ := h
  unfold pageEnd at hlt
  refine ⟨pageAddr n - virt, ?_, hwide⟩
  rw [BitVec.lt_def, offset_toNat (by omega) (by omega)]
  omega

/-- An offset at which the test holds is that of the first page of a block. -/
theorem exists_inWideBlock {i : BitVec 64} (hi : i < size)
    (hwide : prefersHuge virt phys size i = true) :
    ∃ v, InWideBlock virt phys size v ∧ v &&& 0x1FF000#64 = 0#64 := by
  have hi' := BitVec.lt_def.mp hi
  have hstart : (virt + i).toNat % 0x200000 = 0 := by
    rw [prefersHuge] at hwide
    simp only [Bool.and_eq_true, beq_iff_eq] at hwide
    have hzero := congrArg BitVec.toNat hwide.1.1
    rw [BitVec.toNat_umod] at hzero
    simpa only [BitVec.toNat_ofNat] using hzero
  have hsum : (virt + i).toNat = virt.toNat + i.toNat := by
    rw [BitVec.toNat_add]
    omega
  have haddr : pageAddr ((virt + i).toNat / 0x1000) = virt + i := by
    apply BitVec.eq_of_toNat_eq
    rw [pageAddr_toNat (by omega)]
    omega
  refine ⟨virt + i, ⟨(virt + i).toNat / 0x1000, by omega, ?_, ?_, ?_⟩, ?_⟩
  · unfold pageEnd
    omega
  · rw [wideAt, haddr, BitVec.add_comm, BitVec.add_sub_cancel]
    exact hwide
  · rw [pageIndex]
    omega
  · rw [and_mid_congr (y := 0#64) (by rw [BitVec.toNat_ofNat]; omega), BitVec.zero_and]

end Aligned

/-- The pages of a block that is aligned physically are at its address bits and their number. -/
theorem physAt_block (hn : n < 2 ^ 36) (hm : m < 2 ^ 36) (hblock : n / 512 = m / 512)
    (hstart : n % 512 = 0) (hphys : (physAt virt phys n).toNat % 0x200000 = 0) :
    (physAt virt phys m).toNat = (physAt virt phys n).toNat + 0x1000 * (m % 512) := by
  have haddr : pageAddr m = pageAddr n + BitVec.ofNat 64 (0x1000 * (m % 512)) := by
    apply BitVec.eq_of_toNat_eq
    rw [BitVec.toNat_add, pageAddr_toNat hm, pageAddr_toNat hn, BitVec.toNat_ofNat]
    omega
  have hadd : physAt virt phys m =
      physAt virt phys n + BitVec.ofNat 64 (0x1000 * (m % 512)) := by
    rw [physAt, physAt, haddr, BitVec.sub_eq_add_neg, BitVec.sub_eq_add_neg]
    ac_rfl
  have hlt := (physAt virt phys n).isLt
  rw [hadd, BitVec.toNat_add, BitVec.toNat_ofNat]
  omega

/-- **Each loop ends**, after one round for each page at most, and leaves the leaves of its stops. -/
theorem mapRangeFrom_leaf {huge : BitVec 64 → Bool} (phys : BitVec 64) (h : Wf s live)
    (hclean : Clean s live) (hb : b ∈ s.roots live) (hvirt : virt.toNat % 0x1000 = 0)
    (hbound : virt.toNat + size.toNat ≤ 2 ^ 48) (hflags : hasFlag flags pageHuge = false)
    (hleaves : ∀ v, InRange virt size v → ¬ s.Large b v)
    (hav : s.pmm.Available (s.absent b (rangeTables virt size)).card)
    (hwide : WholeBlocks huge virt (virt.toNat / 0x1000) (pageEnd virt size)) :
    ∃ s', (∀ fuel, (size.toNat + 0xFFF) / 0x1000 < fuel →
        mapRangeFrom huge b virt phys size flags fuel s 0#64 = some s') ∧
      Wf s' live ∧ b ∈ s'.roots live ∧ ∀ q, s'.leafAt b q =
        (mapStops huge virt size ((size.toNat + 0xFFF) / 0x1000) (virt.toNat / 0x1000)).foldl
          (stopLeaf huge virt phys flags q) (s.leafAt b q) := by
  have he : pageEnd virt size ≤ 2 ^ 36 := by
    unfold pageEnd
    omega
  -- no page of the range is under a 2 MiB leaf
  have hsmall : ∀ n, virt.toNat / 0x1000 ≤ n → n < pageEnd virt size →
      hasFlag (s.pde (s.owner b (pageNumber (pageAddr n)).1) (pageNumber (pageAddr n)))
        pageHuge = false := by
    intro n hle hlt
    unfold pageEnd at hlt
    have hin : InRange virt size (pageAddr n) := by
      rw [InRange, pageAddr_toNat (by omega)]
      omega
    have hnot := hleaves _ hin
    rw [hclean.large_iff hb] at hnot
    exact Bool.eq_false_iff.mpr hnot
  obtain ⟨s', heq, hwf, hkr, hleaf⟩ := mapStops_leaf ((size.toNat + 0xFFF) / 0x1000) phys h hb hflags
    he hwide hsmall hav
  refine ⟨s', fun fuel hfuel => ?_, hwf, Vmm.roots_congr hkr ▸ hb, hleaf⟩
  obtain ⟨fuel, rfl⟩ := Nat.exists_eq_add_of_lt (Nat.zero_lt_of_lt hfuel)
  have hrounds : size.toNat ≤ (0#64).toNat + 0x1000 * fuel := by
    rw [BitVec.toNat_ofNat]
    omega
  have hstops : mapStops huge virt size fuel (virt.toNat / 0x1000) =
      mapStops huge virt size ((size.toNat + 0xFFF) / 0x1000) (virt.toNat / 0x1000) := by
    unfold mapStops pageEnd
    exact visits_fuel (by decide) (by omega) (by omega)
  rw [Nat.zero_add, mapRangeFrom_eq hvirt hbound fuel (by simp) hrounds, BitVec.toNat_ofNat,
    Nat.zero_mod, Nat.add_zero, hstops, mapStops, heq]

/-- **The translations the two loops leave.** The flags differ in `PAGE_HUGE` only. The physical
addresses differ in the blocks that are mapped by a 2 MiB leaf only, and there by the bits 12 to 20 of
`flags`. -/
theorem mapRange_translations (phys : BitVec 64) (h : Wf s live) (hclean : Clean s live)
    (hb : b ∈ s.roots live) (hvirt : virt.toNat % 0x1000 = 0)
    (hbound : virt.toNat + size.toNat ≤ 2 ^ 48) (hflags : hasFlag flags pageHuge = false)
    (hleaves : ∀ v, InRange virt size v → ¬ s.Large b v)
    (hav : s.pmm.Available (s.absent b (rangeTables virt size)).card) :
    ∃ s₁ s₂, (∀ fuel, (size.toNat + 0xFFF) / 0x1000 < fuel →
        vmmMapRange fuel s b virt phys size flags = some s₁ ∧
        vmmMapPages fuel s b virt phys size flags = some s₂) ∧
      ∀ v, vmmGetFlags s₁ b v &&& ~~~pageHuge = vmmGetFlags s₂ b v &&& ~~~pageHuge ∧
        (¬ InWideBlock virt phys size v → vmmGetPhys s₁ b v = vmmGetPhys s₂ b v) ∧
        (InWideBlock virt phys size v →
          vmmGetPhys s₂ b v = vmmGetPhys s₁ b v ||| flags &&& 0x1FF000#64 ∧
          vmmGetPhys s₁ b v &&& 0x1FF000#64 = v &&& 0x1FF000#64) := by
  have hend : pageEnd virt size = virt.toNat / 0x1000 + (size.toNat + 0xFFF) / 0x1000 := by
    unfold pageEnd
    omega
  have he : pageEnd virt size ≤ 2 ^ 36 := by
    unfold pageEnd
    omega
  have hwide : WholeBlocks (prefersHuge virt phys size) virt (virt.toNat / 0x1000)
      (pageEnd virt size) := wholeBlocks_prefersHuge hvirt hbound
  have hnarrow : WholeBlocks (fun _ => false) virt (virt.toNat / 0x1000) (pageEnd virt size) :=
    fun _ _ _ hbig => by cases hbig
  obtain ⟨s₁, hends₁, hwf₁, hb₁, hleaf₁⟩ :=
    mapRangeFrom_leaf phys h hclean hb hvirt hbound hflags hleaves hav hwide
  obtain ⟨s₂, hends₂, hwf₂, hb₂, hleaf₂⟩ :=
    mapRangeFrom_leaf phys h hclean hb hvirt hbound hflags hleaves hav hnarrow
  refine ⟨s₁, s₂, fun fuel hfuel => ⟨hends₁ fuel hfuel, hends₂ fuel hfuel⟩, fun v => ?_⟩
  obtain ⟨hm, hq⟩ := pageNumber_pageIndex v
  have hshort : mapStops (fun _ => false) virt size ((size.toNat + 0xFFF) / 0x1000)
      (virt.toNat / 0x1000) = List.range' (virt.toNat / 0x1000)
        (pageEnd virt size - virt.toNat / 0x1000) := visits_short (fun _ => rfl) (Nat.le_of_eq hend)
  rw [vmmGetFlags_walkEntry, vmmGetFlags_walkEntry, vmmGetPhys_walkEntry, vmmGetPhys_walkEntry,
    walkEntry_eq hwf₁ hb₁, walkEntry_eq hwf₂ hb₂, hleaf₁, hleaf₂, hq, hshort, mapStops]
  -- By page: a 2 MiB leaf of the first loop covers it, or the last stop at it is the same in both.
  have hagree := stops_agree ((size.toNat + 0xFFF) / 0x1000) phys flags he hwide (Nat.le_of_eq hend)
    hm (s.leafAt b (pageNumber (pageAddr (pageIndex v))))
  rcases hagree with ⟨n, hle, hlt, hbig, hblock, hL, hR⟩ | ⟨hnone, heq⟩
  · rw [hL, hR]
    obtain ⟨⟨hstart, -⟩, hphys⟩ := wideAt_prefersHuge hvirt hbound hle hlt hbig
    have hsum := physAt_block (by omega) hm hblock hstart hphys
    have hhigh := and_high_congr (x := physAt virt phys (pageIndex v)) (y := physAt virt phys n)
      (by omega)
    have hmid := and_mid_congr (x := physAt virt phys (pageIndex v)) (y := v) (by
      unfold pageIndex at hsum ⊢
      omega)
    refine ⟨pageEntry_flags, fun hnot => absurd ⟨n, hle, hlt, hbig, hblock⟩ hnot, fun _ => ?_⟩
    exact ⟨pageEntry_phys hhigh hmid, hugeEntry_mid⟩
  · rw [heq]
    refine ⟨rfl, fun _ => rfl, ?_⟩
    rintro ⟨n, hle, hlt, hbig, hblock⟩
    exact absurd hblock (hnone n hle hlt hbig)

/-- What is added to an address without the bits 12 to 20 shows in them. -/
theorem mid_eq_zero {x f : BitVec 64} (h : x = x ||| f) (hx : x &&& 0x1FF000#64 = 0#64) :
    f &&& 0x1FF000#64 = 0#64 := by
  have hmask := congrArg (· &&& 0x1FF000#64) h
  simp only [BitVec.and_or_distrib_right, hx, BitVec.zero_or] at hmask
  exact hmask.symm

/-- **When the two loops translate every address alike.** In any address space, for every range in the
48-bit space without a 2 MiB leaf in it, with a frame for each table over its pages that is missing:
both loops end, and agree iff `flags` has none of the bits 12 to 20, or the function uses no 2 MiB
leaf. -/
theorem vmmMapRange_agrees_iff (phys : BitVec 64) (h : Wf s live) (hclean : Clean s live)
    (hb : b ∈ s.roots live) (hvirt : virt.toNat % 0x1000 = 0)
    (hbound : virt.toNat + size.toNat ≤ 2 ^ 48) (hflags : hasFlag flags pageHuge = false)
    (hleaves : ∀ v, InRange virt size v → ¬ s.Large b v)
    (hav : s.pmm.Available (s.absent b (rangeTables virt size)).card) :
    ∃ s₁ s₂, (∀ fuel, (size.toNat + 0xFFF) / 0x1000 < fuel →
        vmmMapRange fuel s b virt phys size flags = some s₁ ∧
        vmmMapPages fuel s b virt phys size flags = some s₂) ∧
      ((∀ v, vmmGetPhys s₁ b v = vmmGetPhys s₂ b v ∧
          vmmGetFlags s₁ b v &&& ~~~pageHuge = vmmGetFlags s₂ b v &&& ~~~pageHuge) ↔
        flags &&& 0x1FF000#64 = 0#64 ∨ ∀ i < size, prefersHuge virt phys size i = false) := by
  obtain ⟨s₁, s₂, hends, htrans⟩ :=
    mapRange_translations phys h hclean hb hvirt hbound hflags hleaves hav
  refine ⟨s₁, s₂, hends, ⟨fun hagree => ?_, fun hcond v => ⟨?_, (htrans v).1⟩⟩⟩
  · by_contra hnot
    rw [not_or] at hnot
    obtain ⟨hmid, huse⟩ := hnot
    apply huse
    intro i hi
    by_contra hwide
    -- the first address of a block shows the bits
    have huses : prefersHuge virt phys size i = true := by simpa using hwide
    obtain ⟨v, hv, hzero⟩ := exists_inWideBlock hvirt hbound hi huses
    obtain ⟨hor, hbits⟩ := (htrans v).2.2 hv
    have hflags := mid_eq_zero ((hagree v).1.trans hor) (hbits.trans hzero)
    rw [BitVec.and_assoc, BitVec.and_self] at hflags
    exact hmid hflags
  · by_cases hv : InWideBlock virt phys size v
    · rcases hcond with hmid | hnone
      · rw [((htrans v).2.2 hv).1, hmid, BitVec.or_zero]
      · obtain ⟨i, hi, hwide⟩ := hv.exists_offset hvirt hbound
        rw [hnone i hi] at hwide
        cases hwide
    · exact (htrans v).2.1 hv

end Ranges

/-! ## A block at boot -/

theorem tablesOver_congr {q q' : PageNumber} (h : q.directory = q'.directory) :
    tablesOver q = tablesOver q' := by
  simp only [PageNumber.directory, Prod.mk.injEq] at h
  rw [tablesOver, tablesOver, PageNumber.path, PageNumber.path, h.1, h.2.1, h.2.2]

/-- A new space at boot has nothing mapped in a block outside the kernel's slot, and there are frames
for the three tables over it. -/
theorem bootWorld_block : ∃ pmm w, pmmInit bootMachine 0x106000 = some pmm ∧
    Run vmmStep (bootWorld pmm) [.create] w ∧ Wf w.vmm w.live ∧ Clean w.vmm w.live ∧
    0x10D000 ∈ w.live ∧
    (∀ v, InRange 0x8000000000#64 0x200000#64 v → ¬ w.vmm.Large 0x10D000 v) ∧
    w.vmm.pmm.Available (w.vmm.absent 0x10D000 (rangeTables 0x8000000000#64 0x200000#64)).card := by
  -- the machine has booted and a space has been created
  obtain ⟨pmm, h, hstack⟩ := pmmInit_bootMachine
  have hwf := bootWorld_wf h hstack
  obtain ⟨s₁, hstep, hc, hl⟩ := vmmStep_create hwf hstack (by decide)
  have ha : 0x10D000 ∈ (insert 0x10D000 ∅ : Finset Nat) := by simp
  have hroot : 0x10D000 ∈ s₁.roots (insert 0x10D000 ∅) := Vmm.mem_roots ha
  have hclean : Clean s₁ (insert 0x10D000 ∅) := (bootWorld_clean pmm).step hwf hstep
  refine ⟨pmm, _, h, Run.single hstep, hc.wf, hclean, ha, fun v hv hlarge => ?_, ?_⟩
  · -- the space has no table but its root
    have hnone : s₁.table 0x10D000 [(pageNumber v).2.1, (pageNumber v).1] = none := by
      by_contra hne
      obtain ⟨t, ht⟩ := Option.ne_none_iff_exists'.mp hne
      exact absurd (hc.table_new ht).1 (by simp)
    have hslot : pml4Index v ≠ 0 := by
      have hv₁ := hv.1
      have hv₂ := hv.2
      simp only [BitVec.toNat_ofNat] at hv₁ hv₂
      rw [ne_eq, Fin.ext_iff, pml4Index, index_val, Fin.val_zero]
      omega
    rw [hclean.large_iff hroot, Vmm.owner, if_neg hslot, Vmm.pde, Vmm.entry_of_none hnone,
      zero_hasFlag] at hlarge
    cases hlarge
  · have hav : s₁.pmm.Available 6 := by
      rw [Pmm.Available, show s₁.pmm.freeStack = _ from hl]
      decide
    -- the block needs the three tables over it at most
    refine hav.mono ?_
    have hsub : s₁.absent 0x10D000 (rangeTables 0x8000000000#64 0x200000#64) ⊆
        tablesOver (pageNumber (pageAddr 0x8000000)) := by
      intro p hp
      obtain ⟨n, ⟨hle, hlt⟩, hp⟩ := mem_tablesBetween.mp (Finset.mem_filter.mp hp).1
      simp only [pageEnd, BitVec.toNat_ofNat, Nat.reducePow, Nat.reduceMod, Nat.reduceDiv,
        Nat.reduceAdd] at hle hlt
      have hdir := (directory_pageAddr_iff (n := n) (m := 0x8000000) (by omega) (by omega)).mpr
        (by omega)
      rwa [← tablesOver_congr hdir]
    have hcard := (Finset.card_le_card hsub).trans Finset.card_le_three
    exact hcard.trans (by decide)

/-- At boot: the loops agree on a block that is mapped by a 2 MiB leaf. -/
theorem vmmMapRange_agrees_boot : ∃ pmm w s₁ s₂, pmmInit bootMachine 0x106000 = some pmm ∧
    Run vmmStep (bootWorld pmm) [.create] w ∧
    (∀ fuel, 512 < fuel →
      vmmMapRange fuel w.vmm 0x10D000 0x8000000000#64 0x200000#64 0x200000#64 0x7#64 = some s₁ ∧
      vmmMapPages fuel w.vmm 0x10D000 0x8000000000#64 0x200000#64 0x200000#64 0x7#64 = some s₂) ∧
    ∀ v, vmmGetPhys s₁ 0x10D000 v = vmmGetPhys s₂ 0x10D000 v ∧
      vmmGetFlags s₁ 0x10D000 v &&& ~~~pageHuge = vmmGetFlags s₂ 0x10D000 v &&& ~~~pageHuge := by
  obtain ⟨pmm, w, h, hrun, hwf, hclean, ha, hleaves, hav⟩ := bootWorld_block
  obtain ⟨s₁, s₂, hends, hiff⟩ := vmmMapRange_agrees_iff 0x200000#64 hwf hclean (Vmm.mem_roots ha)
    (by decide) (by decide) (show hasFlag 0x7#64 pageHuge = false by decide) hleaves hav
  exact ⟨pmm, w, s₁, s₂, h, hrun, hends, hiff.mpr (Or.inl (by decide))⟩

/-- **A flag inside the address of a 2 MiB page.** The function maps the block at its physical
address, and the loop over its pages maps the first of them a page further on. -/
theorem vmmMapRange_flag : ∃ pmm w s₁ s₂, pmmInit bootMachine 0x106000 = some pmm ∧
    Run vmmStep (bootWorld pmm) [.create] w ∧ 0x10D000 ∈ w.live ∧
    hasFlag 0x1000#64 pageHuge = false ∧
    (∀ v, InRange 0x8000000000#64 0x200000#64 v → ¬ w.vmm.Large 0x10D000 v) ∧
    w.vmm.pmm.Available (w.vmm.absent 0x10D000 (rangeTables 0x8000000000#64 0x200000#64)).card ∧
    (∀ fuel, 512 < fuel →
      vmmMapRange fuel w.vmm 0x10D000 0x8000000000#64 0x200000#64 0x200000#64 0x1000#64 = some s₁ ∧
      vmmMapPages fuel w.vmm 0x10D000 0x8000000000#64 0x200000#64 0x200000#64 0x1000#64 = some s₂) ∧
    vmmGetPhys s₁ 0x10D000 0x8000000000#64 ≠ vmmGetPhys s₂ 0x10D000 0x8000000000#64 := by
  obtain ⟨pmm, w, h, hrun, hwf, hclean, ha, hleaves, hav⟩ := bootWorld_block
  obtain ⟨s₁, s₂, hends, htrans⟩ := mapRange_translations 0x200000#64 hwf hclean (Vmm.mem_roots ha)
    (by decide) (by decide) (show hasFlag 0x1000#64 pageHuge = false by decide) hleaves hav
  refine ⟨pmm, w, s₁, s₂, h, hrun, ha, by decide, hleaves, hav, hends, fun heq => ?_⟩
  have hblock : InWideBlock 0x8000000000#64 0x200000#64 0x200000#64 0x8000000000#64 :=
    ⟨0x8000000, by decide, by decide, by decide, by decide⟩
  obtain ⟨hor, hbits⟩ := (htrans _).2.2 hblock
  have hflag := mid_eq_zero (heq.trans hor) (hbits.trans (by decide))
  exact absurd hflag (by decide)

end ZohoOs
