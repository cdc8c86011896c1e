import Mathlib.Algebra.BigOperators.Group.Finset.Basic
import Mathlib.Data.Fintype.Prod
import ZohoOs.Memory.MapWalk

/-!
# The loops of `vmm_destroy_address_space`

The loops write no memory: they read the tables of one space and free a list of pages. Without
2 MiB leaves, a page is on the list once for each page-table entry that maps it, and once if it
is a table.

## Main definitions

* `freedPages`, `readPages`: the pages a call frees, and those it reads as tables
* `Vmm.Maps`, `Vmm.mappedBelow`: the page-table entries that map a page

## Main results

* `vmmDestroyAddressSpace_eq`: the call frees the list
* `count_freedPages`: how often a page is on it
-/

namespace ZohoOs

open Forest

/-! ## The lists -/

/-- The pages `destroyEntry` frees. -/
def freedBelow (mem : Nat → Fin 512 → BitVec 64) : Nat → Nat → Fin 512 → List Nat
  | 0, pt, l => if hasFlag (mem pt l) pagePresent then [pageOf (mem pt l)] else []
  | n + 1, t, i =>
    if hasFlag (mem t i) pagePresent then
      tableSlots.flatMap (freedBelow mem n (pageOf (mem t i))) ++ [pageOf (mem t i)]
    else []

/-- The pages `destroyEntry` reads as tables. -/
def readBelow (mem : Nat → Fin 512 → BitVec 64) : Nat → Nat → Fin 512 → List Nat
  | 0, pt, _ => [pt]
  | n + 1, t, i =>
    t :: if hasFlag (mem t i) pagePresent then
      tableSlots.flatMap (readBelow mem n (pageOf (mem t i))) else []

def freedPages (mem : Nat → Fin 512 → BitVec 64) (r : Nat) : List Nat :=
  userSlots.flatMap (freedBelow mem 3 r) ++ [r]

def readPages (mem : Nat → Fin 512 → BitVec 64) (r : Nat) : List Nat :=
  userSlots.flatMap (readBelow mem 3 r)

/-- The state after pages were read as tables and pages were freed. -/
def Vmm.freeAll (s : Vmm) (reads frees : List Nat) : Vmm :=
  { s with
    pmm := frees.foldl pmmFreeFrame s.pmm
    touched := reads.reverse ++ s.touched }

theorem Vmm.freeAll_freeAll (s : Vmm) (r₁ f₁ r₂ f₂ : List Nat) :
    (s.freeAll r₁ f₁).freeAll r₂ f₂ = s.freeAll (r₁ ++ r₂) (f₁ ++ f₂) := by
  simp [Vmm.freeAll]

/-- Freeing one page. -/
theorem Vmm.freeAll_single (s : Vmm) (a : Nat) :
    { s with pmm := pmmFreeFrame s.pmm a } = s.freeAll [] [a] := rfl

theorem foldl_freeAll {mem : Nat → Fin 512 → BitVec 64} {body : Vmm → Fin 512 → Vmm}
    {reads frees : Fin 512 → List Nat}
    (hbody : ∀ s i, s.mem = mem → body s i = s.freeAll (reads i) (frees i)) (l : List (Fin 512))
    {s : Vmm} (hs : s.mem = mem) :
    l.foldl body s = s.freeAll (l.flatMap reads) (l.flatMap frees) := by
  induction l generalizing s with
  | nil => simp [Vmm.freeAll]
  | cons i l ih =>
    have hs' : (s.freeAll (reads i) (frees i)).mem = mem := hs
    rw [List.foldl_cons, hbody s i hs, ih hs', Vmm.freeAll_freeAll, List.flatMap_cons,
      List.flatMap_cons]

theorem destroyEntry_succ (n t : Nat) (s : Vmm) (i : Fin 512) :
    destroyEntry (n + 1) t s i =
      if hasFlag (s.mem t i) pagePresent then
        (tableSlots.foldl (destroyEntry n (pageOf (s.mem t i))) (s.touch t)).freeAll []
          [pageOf (s.mem t i)]
      else s.touch t := by
  simp only [destroyEntry, Vmm.freeAll_single]
  rfl

theorem destroyEntry_eq {mem : Nat → Fin 512 → BitVec 64} (n : Nat) :
    ∀ (t : Nat) (s : Vmm) (i : Fin 512), s.mem = mem →
      destroyEntry n t s i = s.freeAll (readBelow mem n t i) (freedBelow mem n t i) := by
  induction n with
  | zero =>
    rintro t s i rfl
    have hentry : destroyEntry 0 t s i = if hasFlag (s.mem t i) pagePresent then
        (s.touch t).freeAll [] [pageOf (s.mem t i)] else s.touch t := rfl
    rw [hentry, readBelow, freedBelow]
    split <;> rfl
  | succ n ih =>
    rintro t s i rfl
    have htouch : s.touch t = s.freeAll [t] [] := rfl
    rw [destroyEntry_succ, readBelow, freedBelow]
    split
    · have hloop := foldl_freeAll (ih (pageOf (s.mem t i))) tableSlots
        (show (s.freeAll [t] []).mem = s.mem from rfl)
      rw [htouch, hloop, Vmm.freeAll_freeAll, Vmm.freeAll_freeAll]
      simp
    · exact htouch

theorem vmmDestroyAddressSpace_eq (s : Vmm) (r : Nat) :
    vmmDestroyAddressSpace s r = s.freeAll (readPages s.mem r) (freedPages s.mem r) := by
  rw [vmmDestroyAddressSpace, foldl_freeAll (fun s' i hs' => destroyEntry_eq 3 r s' i hs')
    userSlots rfl, Vmm.freeAll_single, Vmm.freeAll_freeAll, List.append_nil]
  rfl

/-! ## What is on them -/

namespace Vmm

/-- The page-table entry of `q` maps the page at `a`. -/
def Maps (s : Vmm) (r : Nat) (q : PageNumber) (a : Nat) : Prop :=
  hasFlag (s.pte r q) pagePresent = true ∧ pageOf (s.pte r q) = a

instance (s : Vmm) (r : Nat) (q : PageNumber) (a : Nat) : Decidable (s.Maps r q a) :=
  inferInstanceAs (Decidable (_ ∧ _))

/-- The pages below `x` that are mapped to `a`. -/
@[irreducible] def mappedBelow (s : Vmm) (r : Nat) (x : List (Fin 512)) (a : Nat) : Finset PageNumber :=
  Finset.univ.filter fun q => x <:+ PageNumber.full q ∧ s.Maps r q a

open Classical in
/-- `1` when `a` is a table at or below `x`. -/
noncomputable def tablesBelow (s : Vmm) (r : Nat) (x : List (Fin 512)) (a : Nat) : Nat :=
  if ∃ p, x <:+ p ∧ s.table r p = some a then 1 else 0

/-- No directory entry below `r` is a 2 MiB leaf. -/
def NoHuge (s : Vmm) (r : Nat) : Prop := ∀ p i, p.length = 2 → ¬ s.IsHuge r p i

end Vmm

section Count

variable {s : Vmm} {r : Nat} {x : List (Fin 512)}

theorem suffix_split {α : Type} {x l : List α} (h : x <:+ l) (hlt : x.length < l.length) :
    ∃ j, j :: x <:+ l := by
  obtain ⟨m, rfl⟩ := h
  rcases List.eq_nil_or_concat m with rfl | ⟨m, j, rfl⟩
  · simp at hlt
  · exact ⟨j, m, by simp⟩

theorem mem_mappedBelow {q : PageNumber} {a : Nat} :
    q ∈ s.mappedBelow r x a ↔ x <:+ q.full ∧ s.Maps r q a := by
  unfold Vmm.mappedBelow
  simp

/-- The pages below `x`, index by index. -/
theorem card_mappedBelow (hlen : x.length ≤ 3) (a : Nat) :
    (s.mappedBelow r x a).card = ∑ j, (s.mappedBelow r (j :: x) a).card := by
  have hunion : s.mappedBelow r x a = Finset.univ.biUnion fun j => s.mappedBelow r (j :: x) a := by
    ext q
    simp only [mem_mappedBelow, Finset.mem_univ, true_and, Finset.mem_biUnion]
    constructor
    · rintro ⟨hsuf, hmaps⟩
      obtain ⟨j, hj⟩ := suffix_split hsuf (by simp; omega)
      exact ⟨j, hj, hmaps⟩
    · rintro ⟨j, hsuf, hmaps⟩
      exact ⟨(List.suffix_cons j x).trans hsuf, hmaps⟩
  rw [hunion, Finset.card_biUnion]
  intro i _ j _ hij
  simp only [Function.onFun, Finset.disjoint_left, mem_mappedBelow]
  rintro q ⟨hi, -⟩ ⟨hj, -⟩
  exact hij (suffix_head_unique hi hj)

/-- The tables below `x`, index by index. -/
theorem tablesBelow_cons (huniq : ∀ p p' a, s.table r p = some a → s.table r p' = some a → p = p')
    (a : Nat) : s.tablesBelow r x a =
      (if s.table r x = some a then 1 else 0) + ∑ j, s.tablesBelow r (j :: x) a := by
  -- a table is at one place only: here, below one of the entries, or not at all
  classical
  by_cases hx : s.table r x = some a
  · have hnone : ∀ j, s.tablesBelow r (j :: x) a = 0 := by
      intro j
      refine if_neg ?_
      rintro ⟨p, hsuf, hp⟩
      obtain rfl := huniq x p a hx hp
      simpa using hsuf.length_le
    rw [if_pos hx, Finset.sum_eq_zero fun j _ => hnone j]
    exact if_pos ⟨x, List.suffix_rfl, hx⟩
  · rw [if_neg hx, Nat.zero_add]
    by_cases hex : ∃ p, x <:+ p ∧ s.table r p = some a
    · obtain ⟨p, hsuf, hp⟩ := hex
      have hlt : x.length < p.length := by
        refine lt_of_le_of_ne hsuf.length_le fun he => hx ?_
        rwa [hsuf.eq_of_length he]
      obtain ⟨j, hj⟩ := suffix_split hsuf hlt
      -- the other entries have nothing of it below them
      rw [Finset.sum_eq_single j]
      · rw [Vmm.tablesBelow, if_pos ⟨p, hsuf, hp⟩, Vmm.tablesBelow, if_pos ⟨p, hj, hp⟩]
      · intro i _ hne
        refine if_neg ?_
        rintro ⟨p', hsuf', hp'⟩
        obtain rfl := huniq p p' a hp hp'
        exact hne (suffix_head_unique hsuf' hj)
      · exact fun hmem => absurd (Finset.mem_univ j) hmem
    · rw [Vmm.tablesBelow, if_neg hex]
      refine (Finset.sum_eq_zero fun j _ => if_neg ?_).symm
      rintro ⟨p, hsuf, hp⟩
      exact hex ⟨p, (List.suffix_cons j x).trans hsuf, hp⟩

theorem sum_tableSlots (f : Fin 512 → Nat) : (tableSlots.map f).sum = ∑ j, f j := by
  have huniv : tableSlots.toFinset = Finset.univ := by
    ext j
    simp
  rw [← List.sum_toFinset f nodup_tableSlots, huniv]

theorem count_flatMap_slots (f : Fin 512 → List Nat) (a : Nat) :
    (tableSlots.flatMap f).count a = ∑ j, (f j).count a := by
  rw [List.count_flatMap, ← sum_tableSlots]
  rfl

/-- Below an entry that links nothing, nothing is mapped and nothing is linked. -/
theorem mappedBelow_of_table_none (hx : s.table r x = none) (hlen : x.length ≤ 3) (a : Nat) :
    (s.mappedBelow r x a).card = 0 := by
  rw [Finset.card_eq_zero, Finset.eq_empty_iff_forall_notMem]
  intro q
  rw [mem_mappedBelow]
  rintro ⟨hsuf, hpres, -⟩
  rw [Vmm.pte_of_table_none hx hsuf hlen, zero_hasFlag] at hpres
  exact absurd hpres (by simp)

theorem tablesBelow_of_table_none (hx : s.table r x = none) (a : Nat) :
    s.tablesBelow r x a = 0 := by
  refine if_neg ?_
  rintro ⟨p, hsuf, hp⟩
  rw [Vmm.table_none_of_suffix hx hsuf] at hp
  exact absurd hp (by simp)

variable (huniq : ∀ p p' a, s.table r p = some a → s.table r p' = some a → p = p')
  (hhuge : s.NoHuge r)

include huniq hhuge

/-- How often `destroyEntry` frees a page, by induction on the level. -/
theorem count_freedBelow (n : Nat) : ∀ (P : List (Fin 512)) (t : Nat) (i : Fin 512),
    s.table r P = some t → P.length + n = 3 → s.Own r P i → ∀ a,
    (freedBelow s.mem n t i).count a =
      (s.mappedBelow r (i :: P) a).card + s.tablesBelow r (i :: P) a := by
  induction n with
  | zero =>
    intro P t i ht hlen _ a
    obtain ⟨q, rfl, rfl⟩ := PageNumber.exists_of_path (show P.length = 3 by omega) i
    have hpte : s.mem t q.2.2.2 = s.pte r q := (Vmm.entry_of_table ht _).symm
    have hnone : s.table r (q.2.2.2 :: q.path) = none :=
      (Vmm.table_cons ht _).trans (Vmm.edge_none_of_length (by simp))
    -- At the last level the entry maps one page, or none.
    have hone : s.mappedBelow r (q.2.2.2 :: q.path) a = if s.Maps r q a then {q} else ∅ := by
      ext q'
      rw [mem_mappedBelow]
      constructor
      · rintro ⟨hsuf, hmaps⟩
        obtain rfl := PageNumber.full_inj (hsuf.eq_of_length (by simp))
        simp [hmaps]
      · intro hq'
        split at hq'
        · next hmaps =>
          obtain rfl := Finset.mem_singleton.mp hq'
          exact ⟨List.suffix_rfl, hmaps⟩
        · simp at hq'
    rw [tablesBelow_of_table_none hnone, hone, freedBelow, hpte]
    by_cases hpres : hasFlag (s.pte r q) pagePresent = true
    · by_cases ha : pageOf (s.pte r q) = a
      · simp [Vmm.Maps, hpres, ha]
      · simp [Vmm.Maps, hpres, ha]
    · simp [Vmm.Maps, hpres]
  | succ n ih =>
    intro P t i ht hlen hown a
    rw [freedBelow]
    by_cases hpres : hasFlag (s.mem t i) pagePresent = true
    · have hnext : s.table r (i :: P) = some (pageOf (s.mem t i)) := by
        rw [Vmm.table_cons ht, Vmm.edge_of_own hown, if_pos]
        refine ⟨by omega, hpres, fun hc => hhuge P i hc.1 ?_⟩
        rw [Vmm.IsHuge, Vmm.entry_of_table ht]
        exact ⟨hpres, hc.2⟩
      -- The frees below the slots, by the hypothesis, and then the table itself.
      have hbelow : ∀ j, (freedBelow s.mem n (pageOf (s.mem t i)) j).count a =
          (s.mappedBelow r (j :: i :: P) a).card + s.tablesBelow r (j :: i :: P) a :=
        fun j => ih (i :: P) _ j hnext (by simp; omega) (Vmm.own_of_ne_nil (by simp)) a
      rw [if_pos hpres, List.count_append, count_flatMap_slots, Finset.sum_congr rfl fun j _ => hbelow j,
        Finset.sum_add_distrib, ← card_mappedBelow (by simp; omega), tablesBelow_cons huniq, hnext]
      simp only [List.count_singleton, beq_iff_eq, Option.some.injEq]
      omega
    · have hnone : s.table r (i :: P) = none :=
        (Vmm.table_cons ht i).trans (Vmm.edge_none_of_not_present (by simpa using hpres))
      rw [if_neg hpres, mappedBelow_of_table_none hnone (by simp; omega),
        tablesBelow_of_table_none hnone]
      rfl

/-- **How often a call frees a page**: once for each page mapped to it, and once if it is one of
the space's tables. -/
theorem count_freedPages (hkr : r ≠ s.currentPml4) (a : Nat) :
    (freedPages s.mem r).count a = (s.mappedBelow r [] a).card + s.tablesBelow r [] a := by
  have hslot : ∀ i, (if i ≠ 0 then (freedBelow s.mem 3 r i).count a else 0) =
      (s.mappedBelow r [i] a).card + s.tablesBelow r [i] a := by
    intro i
    by_cases hi : i = 0
    · -- slot 0 is the kernel's
      have hnone : s.table r [i] = none := if_pos ⟨hkr, rfl, hi⟩
      rw [if_neg (by simpa using hi), mappedBelow_of_table_none hnone (by simp),
        tablesBelow_of_table_none hnone]
    · rw [if_pos hi]
      exact count_freedBelow huniq hhuge 3 [] r i rfl rfl (Vmm.own_of_ne_zero hi) a
  have hfilter : ((userSlots.map fun i => (freedBelow s.mem 3 r i).count a)).sum =
      ∑ i, if i ≠ 0 then (freedBelow s.mem 3 r i).count a else 0 := by
    have hset : userSlots.toFinset = Finset.univ.filter fun i => i ≠ 0 := by
      ext i
      simp [mem_userSlots]
    rw [← Finset.sum_filter, ← List.sum_toFinset _ nodup_userSlots, hset]
  rw [freedPages, List.count_append, List.count_flatMap, show
    (userSlots.map (List.count a ∘ freedBelow s.mem 3 r)).sum = _ from hfilter,
    Finset.sum_congr rfl fun i _ => hslot i, Finset.sum_add_distrib, ← card_mappedBelow (by simp),
    tablesBelow_cons huniq (x := [])]
  simp only [Vmm.table_nil, List.count_singleton, beq_iff_eq, Option.some.injEq]
  omega

end Count

end ZohoOs
