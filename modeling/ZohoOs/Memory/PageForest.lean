import Mathlib.Data.Finset.Basic
import Mathlib.Logic.Relation
import ZohoOs.Lib.Forest
import ZohoOs.Memory.PmmInvariant
import ZohoOs.Memory.Vmm

/-!
# The page tables form a forest

Each table is linked once: from one root, along one path of indexes. Slot 0 of every address
space is the kernel's, so the tables below it belong to the kernel's root and no address space
reaches them along a path of its own.

## Main definitions

* `Vmm.table`, `Vmm.entry`: the table a root reaches along a path, and its entries
* `Wf`: the invariant
* `LinkStep`: linking a new table, the one way the forest grows

## Main results

* `Wf.write`, `Wf.link`, `Wf.create`: the updates that keep the invariant
* `ensureNextTable_cases`: what one call of `ensureNextTable` does
-/

namespace ZohoOs

open Forest

/-- The indexes of a page: in the root, the pointer table, the directory and the page table. -/
abbrev PageNumber := Fin 512 × Fin 512 × Fin 512 × Fin 512

/-- The path to the page table of a page, last index first. -/
abbrev PageNumber.path (q : PageNumber) : List (Fin 512) := [q.2.2.1, q.2.1, q.1]

/-- The indexes of a page, the root's last. -/
abbrev PageNumber.full (q : PageNumber) : List (Fin 512) := q.2.2.2 :: q.path

theorem PageNumber.exists_of_path {P : List (Fin 512)} (hlen : P.length = 3) (i : Fin 512) :
    ∃ q : PageNumber, q.path = P ∧ q.2.2.2 = i := by
  obtain ⟨k, j, i₀, rfl⟩ := List.length_eq_three.mp hlen
  exact ⟨(i₀, j, k, i), rfl, rfl⟩

theorem PageNumber.full_inj {q q' : PageNumber} (h : q.full = q'.full) : q = q' := by
  simp only [PageNumber.full, PageNumber.path, List.cons.injEq, and_true] at h
  exact Prod.ext h.2.2.2 (Prod.ext h.2.2.1 (Prod.ext h.2.1 h.1))

/-- The page of a virtual address. -/
def pageNumber (virt : BitVec 64) : PageNumber :=
  (pml4Index virt, pdptIndex virt, pdIndex virt, ptIndex virt)

/-- The table an entry links, by the depth of the table that holds it. Below an address space,
slot 0 is left to the kernel's root. -/
def tableEdge (mem : Nat → Fin 512 → BitVec 64) (kernelRoot : Nat) : Edges Nat (Fin 512) :=
  fun r p t i =>
    if r ≠ kernelRoot ∧ p = [] ∧ i = 0 then none
    else if p.length < 3 ∧ hasFlag (mem t i) pagePresent ∧
        ¬ (p.length = 2 ∧ hasFlag (mem t i) pageHuge) then some (pageOf (mem t i))
    else none

namespace Vmm

abbrev edge (s : Vmm) : Edges Nat (Fin 512) := tableEdge s.mem s.currentPml4

/-- The table `r` reaches along `p`. -/
def table (s : Vmm) (r : Nat) (p : List (Fin 512)) : Option Nat := node s.edge r p

/-- The entry at index `i` of the table `r` reaches along `p`, zero when there is none. -/
def entry (s : Vmm) (r : Nat) (p : List (Fin 512)) (i : Fin 512) : BitVec 64 :=
  match s.table r p with
  | some t => s.mem t i
  | none => 0#64

/-- The page-table entry of a page. -/
def pte (s : Vmm) (r : Nat) (q : PageNumber) : BitVec 64 := s.entry r q.path q.2.2.2

/-- The kernel's root and the address spaces. -/
def roots (s : Vmm) (live : Finset Nat) : Set Nat := insert s.currentPml4 ↑live

/-- The page at `t` is linked as a table. -/
def IsTable (s : Vmm) (live : Finset Nat) (t : Nat) : Prop :=
  ∃ r ∈ s.roots live, ∃ p, s.table r p = some t

/-- The root whose tables slot `i` of `r` leads to. -/
def owner (s : Vmm) (r : Nat) (i : Fin 512) : Nat := if i = 0 then s.currentPml4 else r

/-- The path `p` followed by `i` is one of `r`'s own. -/
def Own (s : Vmm) (r : Nat) (p : List (Fin 512)) (i : Fin 512) : Prop :=
  ¬ (r ≠ s.currentPml4 ∧ p = [] ∧ i = 0)

/-- The directory entry at index `i` is a 2 MiB leaf. -/
def IsHuge (s : Vmm) (r : Nat) (p : List (Fin 512)) (i : Fin 512) : Prop :=
  hasFlag (s.entry r p i) pagePresent ∧ hasFlag (s.entry r p i) pageHuge

end Vmm

/-- **The invariant**: the tables form a forest; none is page 0 or on the free stack; and slot 0
of each address space is the kernel's. -/
structure Wf (s : Vmm) (live : Finset Nat) : Prop where
  stack : StackInv s.pmm
  forest : IsForest s.edge (s.roots live)
  ne_zero : ∀ t, s.IsTable live t → t ≠ 0
  aligned : ∀ t, s.IsTable live t → t % pageSize = 0
  used : ∀ t, s.IsTable live t → t ∉ s.pmm.freeStack
  kernel_notMem : s.currentPml4 ∉ live
  kernel_slot : ∀ r ∈ live, s.mem r 0 = s.mem s.currentPml4 0
  kernel_present : hasFlag (s.mem s.currentPml4 0) pagePresent = true

section Basic

variable {s : Vmm} {live : Finset Nat} {r t x : Nat} {p : List (Fin 512)} {i : Fin 512}

@[simp] theorem Vmm.table_nil (s : Vmm) (r : Nat) : s.table r [] = some r := rfl

theorem Vmm.entry_of_table (h : s.table r p = some t) (i : Fin 512) : s.entry r p i = s.mem t i := by
  rw [Vmm.entry, h]

theorem Vmm.entry_of_none (h : s.table r p = none) (i : Fin 512) : s.entry r p i = 0#64 := by
  rw [Vmm.entry, h]

theorem Vmm.table_cons (h : s.table r p = some t) (i : Fin 512) :
    s.table r (i :: p) = s.edge r p t i := node_cons_of_some h i

theorem Vmm.edge_of_own (hown : s.Own r p i) :
    s.edge r p t i = if p.length < 3 ∧ hasFlag (s.mem t i) pagePresent ∧
      ¬ (p.length = 2 ∧ hasFlag (s.mem t i) pageHuge) then some (pageOf (s.mem t i)) else none :=
  if_neg hown

theorem Vmm.edge_length (h : s.edge r p t i = some x) : p.length < 3 := by
  unfold Vmm.edge tableEdge at h
  split at h
  · exact absurd h (by simp)
  · split at h
    · next hc => exact hc.1
    · exact absurd h (by simp)

theorem Vmm.edge_own (h : s.edge r p t i = some x) : s.Own r p i := by
  intro hc
  rw [Vmm.edge, tableEdge, if_pos hc] at h
  exact absurd h (by simp)

theorem Vmm.table_cons_eq_some :
    s.table r (i :: p) = some x ↔ ∃ t, s.table r p = some t ∧ s.edge r p t i = some x :=
  node_cons_eq_some

theorem Vmm.table_none_of_suffix {x : List (Fin 512)} (hx : s.table r x = none)
    (h : x <:+ p) : s.table r p = none := by
  obtain ⟨l, rfl⟩ := h
  induction l with
  | nil => exact hx
  | cons i l ih =>
    have hnone : node s.edge r (l ++ x) = none := ih
    exact (node_cons s.edge r i (l ++ x)).trans (by rw [hnone]; rfl)

theorem Vmm.pte_of_table_none {x : List (Fin 512)} (hx : s.table r x = none)
    {q : PageNumber} (h : x <:+ q.full) (hlen : x.length ≤ 3) : s.pte r q = 0#64 := by
  have hpath : x <:+ q.path := by
    rcases List.suffix_cons_iff.mp h with rfl | h
    · simp at hlen
    · exact h
  exact Vmm.entry_of_none (Vmm.table_none_of_suffix hx hpath) _

/-- The index of `x` below a path is the only one. -/
theorem suffix_head_unique {α : Type} {a b : α} {p l : List α} (ha : a :: p <:+ l)
    (hb : b :: p <:+ l) : a = b :=
  (List.cons.inj ((List.suffix_of_suffix_length_le ha hb (by simp)).eq_of_length (by simp))).1

theorem Vmm.kernel_mem_roots (s : Vmm) (live : Finset Nat) : s.currentPml4 ∈ s.roots live :=
  Set.mem_insert _ _

theorem Vmm.mem_roots (h : r ∈ live) : r ∈ s.roots live := Set.mem_insert_of_mem _ h

theorem Vmm.own_of_ne_nil (h : p ≠ []) : s.Own r p i := fun hc => h hc.2.1

theorem Vmm.own_of_ne_zero (h : i ≠ 0) : s.Own r p i := fun hc => h hc.2.2

theorem Vmm.owner_own (s : Vmm) (r : Nat) (i : Fin 512) : s.Own (s.owner r i) [] i := by
  rintro ⟨hr, -, rfl⟩
  exact hr rfl

theorem Vmm.owner_mem_roots (hr : r ∈ s.roots live) : s.owner r i ∈ s.roots live := by
  unfold Vmm.owner
  split
  · exact s.kernel_mem_roots live
  · exact hr

/-- Slot `i` of a root holds what its owner's slot holds. -/
theorem Wf.mem_owner (h : Wf s live) (hr : r ∈ s.roots live) (i : Fin 512) :
    s.mem (s.owner r i) i = s.mem r i := by
  unfold Vmm.owner
  split
  · next hi =>
    subst hi
    rcases hr with rfl | hr
    · rfl
    · exact (h.kernel_slot r hr).symm
  · rfl

theorem Wf.unique (h : Wf s live) {r' : Nat} {p' : List (Fin 512)} (hr : r ∈ s.roots live)
    (hr' : r' ∈ s.roots live) (ht : s.table r p = some t) (ht' : s.table r' p' = some t) :
    r = r' ∧ p = p' :=
  h.forest r hr r' hr' p p' t ht ht'

/-- A linked entry leads `getExistingTable` to the table. -/
theorem Wf.getExistingTable_of_edge (h : Wf s live) (hr : r ∈ s.roots live)
    (ht : s.table r p = some t) (he : s.edge r p t i = some x) :
    getExistingTable s t i = x ∧ x ≠ 0 := by
  have hx : s.IsTable live x := ⟨r, hr, i :: p, by rw [← he]; exact Vmm.table_cons ht i⟩
  refine ⟨?_, h.ne_zero x hx⟩
  rw [Vmm.edge_of_own (Vmm.edge_own he)] at he
  split at he
  · next hc => simpa [getExistingTable, hc.2.1] using he
  · exact absurd he (by simp)

/-- An own entry that links no table is none to `getExistingTable`, unless it is a 2 MiB leaf. -/
theorem Wf.getExistingTable_of_none (hown : s.Own r p i) (hp : p.length < 3)
    (hleaf : ¬ (p.length = 2 ∧ hasFlag (s.mem t i) pagePresent ∧ hasFlag (s.mem t i) pageHuge ∧
      pageOf (s.mem t i) ≠ 0))
    (he : s.edge r p t i = none) : getExistingTable s t i = 0 := by
  rw [Vmm.edge_of_own hown] at he
  unfold getExistingTable
  split
  · next hpres =>
    by_contra hne
    rw [if_pos ⟨hp, hpres, fun hc => hleaf ⟨hc.1, hpres, hc.2, hne⟩⟩] at he
    exact absurd he (by simp)
  · rfl

end Basic

/-! ## Changes outside the tables -/

section Frame

variable {s s' : Vmm} {live : Finset Nat}

theorem Vmm.edge_congr {r t : Nat} (hkr : s'.currentPml4 = s.currentPml4) {i : Fin 512}
    (hmem : s'.mem t i = s.mem t i) (p : List (Fin 512)) : s'.edge r p t i = s.edge r p t i := by
  simp only [Vmm.edge, tableEdge, hkr, hmem]

theorem Vmm.table_frame {r : Nat} (hkr : s'.currentPml4 = s.currentPml4)
    (hmem : ∀ p t, s.table r p = some t → s'.mem t = s.mem t) (p : List (Fin 512)) :
    s'.table r p = s.table r p :=
  node_congr (fun p t i ht => Vmm.edge_congr hkr (by rw [hmem p t ht]) p) p

theorem Vmm.entry_frame {r : Nat} (hkr : s'.currentPml4 = s.currentPml4)
    (hmem : ∀ p t, s.table r p = some t → s'.mem t = s.mem t) (p : List (Fin 512)) (i : Fin 512) :
    s'.entry r p i = s.entry r p i := by
  rw [Vmm.entry, Vmm.table_frame hkr hmem, Vmm.entry]
  cases ht : s.table r p with
  | none => rfl
  | some t => exact congrFun (hmem p t ht) i

theorem Vmm.roots_congr (hkr : s'.currentPml4 = s.currentPml4) : s'.roots live = s.roots live := by
  rw [Vmm.roots, Vmm.roots, hkr]

theorem Vmm.isTable_frame (hkr : s'.currentPml4 = s.currentPml4)
    (hmem : ∀ t, s.IsTable live t → s'.mem t = s.mem t) (t : Nat) :
    s'.IsTable live t ↔ s.IsTable live t := by
  unfold Vmm.IsTable
  rw [Vmm.roots_congr hkr]
  constructor
  · rintro ⟨r, hr, p, ht⟩
    refine ⟨r, hr, p, ?_⟩
    rwa [← Vmm.table_frame hkr fun p t ht => hmem t ⟨r, hr, p, ht⟩]
  · rintro ⟨r, hr, p, ht⟩
    refine ⟨r, hr, p, ?_⟩
    rwa [Vmm.table_frame hkr fun p t ht => hmem t ⟨r, hr, p, ht⟩]

/-- A change that leaves the tables as they are and off the free stack keeps the invariant. -/
theorem Wf.frame (h : Wf s live) (hkr : s'.currentPml4 = s.currentPml4)
    (hmem : ∀ t, s.IsTable live t → s'.mem t = s.mem t) (hstack : StackInv s'.pmm)
    (hused : ∀ t, s.IsTable live t → t ∉ s'.pmm.freeStack) : Wf s' live := by
  have hroot : ∀ r ∈ s.roots live, s'.mem r = s.mem r := fun r hr => hmem r ⟨r, hr, [], rfl⟩
  have hlink := Vmm.isTable_frame hkr hmem
  refine ⟨hstack, ?_, ?_, ?_, ?_, ?_, ?_, ?_⟩
  · rw [Vmm.roots_congr hkr]
    exact h.forest.congr fun r hr => Vmm.table_frame hkr fun p t ht => hmem t ⟨r, hr, p, ht⟩
  · exact fun t ht => h.ne_zero t ((hlink t).mp ht)
  · exact fun t ht => h.aligned t ((hlink t).mp ht)
  · exact fun t ht => hused t ((hlink t).mp ht)
  · rw [hkr]
    exact h.kernel_notMem
  · intro r hr
    rw [hkr, hroot r (Vmm.mem_roots hr), hroot _ (s.kernel_mem_roots live)]
    exact h.kernel_slot r hr
  · rw [hkr, hroot _ (s.kernel_mem_roots live)]
    exact h.kernel_present

theorem Wf.touch (h : Wf s live) (t : Nat) : Wf (s.touch t) live :=
  h.frame rfl (fun _ _ => rfl) h.stack h.used

/-- An allocation takes a page that is no table. -/
theorem Wf.alloc (h : Wf s live) : Wf { s with pmm := (pmmAllocFrame s.pmm).2 } live := by
  refine h.frame rfl (fun _ _ => rfl) h.stack.alloc fun t ht hmem => h.used t ht ?_
  rw [freeStack_alloc] at hmem
  exact List.mem_of_mem_tail hmem

theorem Wf.notTable_of_free (h : Wf s live) {x : Nat} (hx : x ∈ s.pmm.freeStack) :
    ¬ s.IsTable live x := fun ht => h.used x ht hx

end Frame

/-! ## Writing an entry -/

section Write

variable {s : Vmm} {live : Finset Nat} {r t : Nat} {p : List (Fin 512)} {i : Fin 512}
  {e : BitVec 64} {x : Option Nat}

/-- Writing an entry sets one edge, when what it linked and what it will link is a page table or
an empty table. -/
theorem Wf.setEdge (h : Wf s live) (hr : r ∈ s.roots live) (ht : s.table r p = some t)
    (hx : (s.write t i e).edge r p t i = x) (hold : p.length = 2 ∨ s.edge r p t i = none)
    (hnew : p.length = 2 ∨ ∀ y, x = some y → ∀ j, (s.write t i e).mem y j = 0#64) :
    SetEdge s.edge (s.write t i e).edge (s.roots live) r p t i x where
  root := hr
  node := ht
  self := hx
  other r' hr' p' t' j ht' hne := by
    have hmem : (s.write t i e).mem t' j = s.mem t' j := by
      -- no other path leads to the table that is written
      refine Vmm.write_mem_of_ne s t i e ?_
      rintro ⟨rfl, rfl⟩
      obtain ⟨hr, hp⟩ := h.unique hr' hr ht' ht
      exact hne ⟨hr, hp, rfl⟩
    exact Vmm.edge_congr (Vmm.write_currentPml4 s t i e) hmem p'
  childless y j hy := by
    rcases hold with hlen | hnone
    · by_contra hne
      obtain ⟨z, hz⟩ := Option.ne_none_iff_exists'.mp hne
      have := Vmm.edge_length hz
      simp [hlen] at this
    · rw [hnone] at hy
      exact absurd hy (by simp)
  childless' y j hy := by
    -- what is newly linked has no edges: it is a last table, or an empty one
    by_contra hne
    obtain ⟨z, hz⟩ := Option.ne_none_iff_exists'.mp hne
    rcases hnew with hlen | hzero
    · have := Vmm.edge_length hz
      simp [hlen] at this
    · rw [Vmm.edge_of_own (Vmm.edge_own hz), hzero y hy] at hz
      simp at hz

theorem Vmm.write_table (hset : SetEdge s.edge (s.write t i e).edge (s.roots live) r p t i x)
    {r' : Nat} (hr' : r' ∈ s.roots live) (p' : List (Fin 512)) :
    (s.write t i e).table r' p' = if r' = r ∧ p' = i :: p then x else s.table r' p' :=
  node_set hset hr' p'

/-- Writing an entry that links nothing, or a new table, keeps the invariant. The kernel's slot
is left alone. -/
theorem Wf.write (h : Wf s live)
    (hset : SetEdge s.edge (s.write t i e).edge (s.roots live) r p t i x)
    (hslot : ¬ (p = [] ∧ i = 0))
    (hfresh : ∀ y, x = some y → ¬ s.IsTable live y ∧ y ≠ 0 ∧ y % pageSize = 0 ∧
      y ∉ s.pmm.freeStack) : Wf (s.write t i e) live := by
  have hroots : (s.write t i e).roots live = s.roots live := rfl
  -- the write adds at most one table
  have hcases : ∀ t', (s.write t i e).IsTable live t' → s.IsTable live t' ∨ x = some t' := by
    rintro t' ⟨r', hr', p', ht'⟩
    rw [Vmm.write_table hset hr'] at ht'
    split at ht'
    · exact Or.inr ht'
    · exact Or.inl ⟨r', hr', p', ht'⟩
  have hzero : ∀ r' ∈ s.roots live, (s.write t i e).mem r' 0 = s.mem r' 0 := by
    intro r' hr'
    refine Vmm.write_mem_of_ne s t i e ?_
    rintro ⟨rfl, rfl⟩
    exact hslot ⟨(h.unique hset.root hr' hset.node rfl).2, rfl⟩
  refine ⟨h.stack, ?_, ?_, ?_, ?_, h.kernel_notMem, ?_, ?_⟩
  · exact h.forest.set hset fun y hy => (hfresh y hy).1
  · exact fun t' ht' => (hcases t' ht').elim (h.ne_zero t') fun hy => (hfresh t' hy).2.1
  · exact fun t' ht' => (hcases t' ht').elim (h.aligned t') fun hy => (hfresh t' hy).2.2.1
  · exact fun t' ht' => (hcases t' ht').elim (h.used t') fun hy => (hfresh t' hy).2.2.2
  · intro r' hr'
    rw [hzero r' (Vmm.mem_roots hr'), Vmm.write_currentPml4, hzero _ (s.kernel_mem_roots live)]
    exact h.kernel_slot r' hr'
  · rw [Vmm.write_currentPml4, hzero _ (s.kernel_mem_roots live)]
    exact h.kernel_present

/-- Writing an entry that linked nothing changes that entry only. -/
theorem Wf.write_entry (h : Wf s live)
    (hset : SetEdge s.edge (s.write t i e).edge (s.roots live) r p t i x)
    (hnone : s.edge r p t i = none)
    (hempty : ∀ y, x = some y → ∀ j, (s.write t i e).mem y j = 0#64) {r' : Nat}
    (hr' : r' ∈ s.roots live) (p' : List (Fin 512)) (j : Fin 512) :
    (s.write t i e).entry r' p' j =
      if r' = r ∧ p' = p ∧ j = i then e else s.entry r' p' j := by
  have htab := Vmm.write_table hset hr' p'
  by_cases hbelow : r' = r ∧ p' = i :: p
  · -- the new table: it was not there, and it is empty
    obtain ⟨rfl, rfl⟩ := hbelow
    have hne : ¬ (i :: p = p) := fun he => by simpa using congrArg List.length he
    have hgone : s.table r' (i :: p) = none := by rw [Vmm.table_cons hset.node, hnone]
    rw [if_pos ⟨rfl, rfl⟩] at htab
    rw [if_neg fun hc => hne hc.2.1, Vmm.entry_of_none hgone]
    cases hx : x with
    | none => exact Vmm.entry_of_none (htab.trans hx) j
    | some y => rw [Vmm.entry_of_table (htab.trans hx), hempty y hx]
  -- a table that was there is at the same place: the entry is the one that is written, or another
  · rw [if_neg hbelow] at htab
    cases ht' : s.table r' p' with
    | none =>
      rw [Vmm.entry_of_none (htab.trans ht'), Vmm.entry_of_none ht', if_neg]
      rintro ⟨rfl, rfl, -⟩
      have hnode : s.table r' p' = some t := hset.node
      rw [hnode] at ht'
      exact absurd ht' (by simp)
    | some t' =>
      rw [Vmm.entry_of_table (htab.trans ht'), Vmm.entry_of_table ht']
      split
      · next hc =>
        obtain ⟨rfl, rfl, rfl⟩ := hc
        have hnode : s.table r' p' = some t := hset.node
        rw [hnode] at ht'
        obtain rfl := Option.some.inj ht'
        exact Vmm.write_mem_self s t j e
      · next hc =>
        refine Vmm.write_mem_of_ne s t i e ?_
        -- a table is at one place only
        rintro ⟨rfl, rfl⟩
        obtain ⟨rfl, rfl⟩ := h.unique hr' hset.root ht' hset.node
        exact hc ⟨rfl, rfl, rfl⟩

/-- Writing an entry that links no table, before or after. -/
structure WriteLeaf (s : Vmm) (live : Finset Nat) (r : Nat) (p : List (Fin 512)) (t : Nat)
    (i : Fin 512) (e : BitVec 64) : Prop where
  wf : Wf s live
  root : r ∈ s.roots live
  table : s.table r p = some t
  before : s.edge r p t i = none
  after : (s.write t i e).edge r p t i = none

theorem WriteLeaf.setEdge (h : WriteLeaf s live r p t i e) :
    SetEdge s.edge (s.write t i e).edge (s.roots live) r p t i none :=
  h.wf.setEdge h.root h.table h.after (Or.inr h.before) (Or.inr fun y hy => by simp at hy)

theorem WriteLeaf.write_table (h : WriteLeaf s live r p t i e) {r' : Nat}
    (hr' : r' ∈ s.roots live) (p' : List (Fin 512)) :
    (s.write t i e).table r' p' = s.table r' p' := by
  rw [Vmm.write_table h.setEdge hr']
  split
  · next hc =>
    obtain ⟨rfl, rfl⟩ := hc
    rw [Vmm.table_cons h.table, h.before]
  · rfl

theorem WriteLeaf.write_entry (h : WriteLeaf s live r p t i e) {r' : Nat}
    (hr' : r' ∈ s.roots live) (p' : List (Fin 512)) (j : Fin 512) :
    (s.write t i e).entry r' p' j = if r' = r ∧ p' = p ∧ j = i then e else s.entry r' p' j :=
  h.wf.write_entry h.setEdge h.before (fun y hy => by simp at hy) hr' p' j

theorem WriteLeaf.wf_write (h : WriteLeaf s live r p t i e) (hp : p ≠ []) :
    Wf (s.write t i e) live :=
  h.wf.write h.setEdge (fun hc => hp hc.1) fun y hy => by simp at hy

theorem Vmm.edge_none_of_length (hp : p.length = 3) : s.edge r p t i = none := by
  by_contra hne
  obtain ⟨x, hx⟩ := Option.ne_none_iff_exists'.mp hne
  have := Vmm.edge_length hx
  omega

theorem Vmm.edge_none_of_huge (hp : p.length = 2) (hhuge : hasFlag (s.mem t i) pageHuge = true) :
    s.edge r p t i = none := by
  have hne : p ≠ [] := by
    rintro rfl
    simp at hp
  rw [Vmm.edge_of_own (Vmm.own_of_ne_nil hne), if_neg fun hc => hc.2.2 ⟨hp, hhuge⟩]

theorem Vmm.edge_none_of_not_present (hpres : hasFlag (s.mem t i) pagePresent = false) :
    s.edge r p t i = none := by
  by_contra hne
  obtain ⟨x, hx⟩ := Option.ne_none_iff_exists'.mp hne
  rw [Vmm.edge_of_own (Vmm.edge_own hx), if_neg fun hc => by simp [hpres] at hc] at hx
  exact absurd hx (by simp)

end Write

/-! ## Linking a new table -/

/-- The entry `ensureNextTable` writes. -/
def linkEntry (table : Nat) : BitVec 64 :=
  BitVec.ofNat 64 table ||| pagePresent ||| pageWritable ||| pageUser

@[simp] theorem linkEntry_present (x : Nat) : hasFlag (linkEntry x) pagePresent = true := by
  simp [linkEntry, show hasFlag pagePresent pagePresent = true by decide]

theorem pageOf_linkEntry {x : Nat} (hx : x % pageSize = 0) (hlt : x < 2 ^ 64) :
    pageOf (linkEntry x) = x := by
  rw [linkEntry, pageOf_or (by decide), pageOf_or (by decide), pageOf_or (by decide),
    pageOf_ofNat hx hlt]

theorem linkEntry_not_huge {x : Nat} (hx : x % pageSize = 0) (hlt : x < 2 ^ 64) :
    hasFlag (linkEntry x) pageHuge = false := by
  have hmask : pageHuge = 0xFFF#64 &&& pageHuge := by decide
  have hlow : BitVec.ofNat 64 x &&& 0xFFF#64 = 0#64 := by
    apply BitVec.eq_of_toNat_eq
    rw [BitVec.toNat_and, BitVec.toNat_ofNat, Nat.mod_eq_of_lt hlt,
      show (0xFFF#64).toNat = 2 ^ 12 - 1 by decide, Nat.and_two_pow_sub_one_eq_mod]
    exact hx
  have hzero : hasFlag (BitVec.ofNat 64 x) pageHuge = false := by
    rw [hmask, ← hasFlag_and, hlow, zero_hasFlag]
  simp [linkEntry, hzero, show hasFlag pagePresent pageHuge = false by decide,
    show hasFlag pageWritable pageHuge = false by decide,
    show hasFlag pageUser pageHuge = false by decide]

namespace Vmm

/-- A page off the free stack, zeroed. -/
def zeroed (s : Vmm) : Vmm := (allocZeroedTable s).2

/-- A new table linked at index `i` of the table `t`. -/
def link (s : Vmm) (t : Nat) (i : Fin 512) : Vmm :=
  s.zeroed.write t i (linkEntry (pmmAllocFrame s.pmm).1)

variable {s : Vmm}

theorem zeroed_eq (hx : (pmmAllocFrame s.pmm).1 ≠ 0) :
    allocZeroedTable s = ((pmmAllocFrame s.pmm).1, s.zeroed) ∧
    s.zeroed = { s with
      mem := Function.update s.mem (pmmAllocFrame s.pmm).1 fun _ => 0#64
      pmm := (pmmAllocFrame s.pmm).2
      touched := (pmmAllocFrame s.pmm).1 :: s.touched } := by
  have h : allocZeroedTable s = ((pmmAllocFrame s.pmm).1, { s with
      mem := Function.update s.mem (pmmAllocFrame s.pmm).1 fun _ => 0#64
      pmm := (pmmAllocFrame s.pmm).2
      touched := (pmmAllocFrame s.pmm).1 :: s.touched }) := by
    simp only [allocZeroedTable, if_neg hx]
  rw [zeroed, h]
  exact ⟨rfl, rfl⟩

theorem zeroed_mem (hx : (pmmAllocFrame s.pmm).1 ≠ 0) :
    s.zeroed.mem = Function.update s.mem (pmmAllocFrame s.pmm).1 fun _ => 0#64 := by
  rw [(zeroed_eq hx).2]

theorem zeroed_pmm (hx : (pmmAllocFrame s.pmm).1 ≠ 0) : s.zeroed.pmm = (pmmAllocFrame s.pmm).2 := by
  rw [(zeroed_eq hx).2]

theorem zeroed_currentPml4 (hx : (pmmAllocFrame s.pmm).1 ≠ 0) :
    s.zeroed.currentPml4 = s.currentPml4 := by
  rw [(zeroed_eq hx).2]

theorem zeroed_touched (hx : (pmmAllocFrame s.pmm).1 ≠ 0) :
    s.zeroed.touched = (pmmAllocFrame s.pmm).1 :: s.touched := by
  rw [(zeroed_eq hx).2]

end Vmm

/-- What the allocator hands out: a page of the free stack that is no table. -/
structure FreshPage (s : Vmm) (live : Finset Nat) (x : Nat) : Prop where
  free : x ∈ s.pmm.freeStack
  ne_zero : x ≠ 0
  aligned : x % pageSize = 0
  lt : x < 2 ^ 32
  notTable : ¬ s.IsTable live x
  taken : x ∉ (pmmAllocFrame s.pmm).2.freeStack

section Link

variable {s : Vmm} {live : Finset Nat} {r t : Nat} {p : List (Fin 512)} {i : Fin 512}

theorem Wf.freshPage (h : Wf s live) (hx : (pmmAllocFrame s.pmm).1 ≠ 0) :
    FreshPage s live (pmmAllocFrame s.pmm).1 := by
  obtain ⟨hmem, -, hout⟩ := h.stack.alloc_spec hx
  have hlt := h.stack.lt_max _ hmem
  refine ⟨hmem, hx, h.stack.aligned _ hmem, ?_, h.notTable_of_free hmem, hout⟩
  simp only [pageSize, maxFrames] at hlt
  omega

/-- Zeroing the page leaves the tables alone. -/
theorem Wf.zeroed_mem (h : Wf s live) (hx : (pmmAllocFrame s.pmm).1 ≠ 0) (t : Nat)
    (ht : s.IsTable live t) : s.zeroed.mem t = s.mem t := by
  rw [Vmm.zeroed_mem hx, Function.update_of_ne]
  rintro rfl
  exact (h.freshPage hx).notTable ht

theorem Wf.zeroed (h : Wf s live) (hx : (pmmAllocFrame s.pmm).1 ≠ 0) : Wf s.zeroed live := by
  refine h.frame (Vmm.zeroed_currentPml4 hx) (h.zeroed_mem hx) ?_ fun t ht hmem => ?_
  · rw [Vmm.zeroed_pmm hx]
    exact h.stack.alloc
  · rw [Vmm.zeroed_pmm hx] at hmem
    exact h.alloc.used t ht hmem

/-- The conditions under which the page `x` can be linked at index `i` of the table `t`, which `r` reaches
along `p`. -/
structure Linkable (s : Vmm) (live : Finset Nat) (r : Nat) (p : List (Fin 512)) (t : Nat)
    (i : Fin 512) (x : Nat) : Prop where
  wf : Wf s live
  root : r ∈ s.roots live
  table : s.table r p = some t
  depth : p.length < 3
  own : s.Own r p i
  none : s.edge r p t i = none
  ne_zero : x ≠ 0
  aligned : x % pageSize = 0
  lt : x < 2 ^ 64
  notTable : ¬ s.IsTable live x
  taken : x ∉ s.pmm.freeStack
  zero : ∀ j, s.mem x j = 0#64

section Linkable

variable {x : Nat}

/-- The new table is empty. -/
theorem Linkable.empty (h : Linkable s live r p t i x) (j : Fin 512) :
    (s.write t i (linkEntry x)).mem x j = 0#64 := by
  rw [Vmm.write_mem_of_table_ne, h.zero]
  rintro rfl
  exact h.notTable ⟨r, h.root, p, h.table⟩

theorem Linkable.setEdge (h : Linkable s live r p t i x) :
    SetEdge s.edge (s.write t i (linkEntry x)).edge (s.roots live) r p t i (some x) := by
  refine h.wf.setEdge h.root h.table ?_ (Or.inr h.none) (Or.inr ?_)
  · have hown : (s.write t i (linkEntry x)).Own r p i := h.own
    rw [Vmm.edge_of_own hown, Vmm.write_mem_self, if_pos, pageOf_linkEntry h.aligned h.lt]
    refine ⟨h.depth, linkEntry_present _, fun hc => ?_⟩
    rw [linkEntry_not_huge h.aligned h.lt] at hc
    exact absurd hc.2 (by simp)
  · rintro y hy j
    obtain rfl := Option.some.inj hy
    exact h.empty j

/-- **Linking a table** adds one path. -/
theorem Linkable.write_table (h : Linkable s live r p t i x) {r' : Nat} (hr' : r' ∈ s.roots live)
    (p' : List (Fin 512)) : (s.write t i (linkEntry x)).table r' p' =
      if r' = r ∧ p' = i :: p then some x else s.table r' p' :=
  Vmm.write_table h.setEdge hr' p'

/-- Linking a table changes one entry. -/
theorem Linkable.write_entry (h : Linkable s live r p t i x) {r' : Nat} (hr' : r' ∈ s.roots live)
    (p' : List (Fin 512)) (j : Fin 512) : (s.write t i (linkEntry x)).entry r' p' j =
      if r' = r ∧ p' = p ∧ j = i then linkEntry x else s.entry r' p' j := by
  refine h.wf.write_entry h.setEdge h.none ?_ hr' p' j
  rintro y hy j
  obtain rfl := Option.some.inj hy
  exact h.empty j

theorem Linkable.wf_write (h : Linkable s live r p t i x) : Wf (s.write t i (linkEntry x)) live := by
  refine h.wf.write h.setEdge ?_ ?_
  · -- the kernel's own slot 0 is linked already
    rintro ⟨rfl, rfl⟩
    have hr : r = s.currentPml4 := by
      by_contra hne
      exact h.own ⟨hne, rfl, rfl⟩
    have ht : t = s.currentPml4 := by simpa [hr] using h.table.symm
    have hnone := h.none
    rw [Vmm.edge_of_own h.own, ht, if_pos ⟨by simp, h.wf.kernel_present, by simp⟩] at hnone
    exact absurd hnone (by simp)
  · rintro y hy
    obtain rfl := Option.some.inj hy
    exact ⟨h.notTable, h.ne_zero, h.aligned, h.taken⟩

/-- What was linked stays linked. -/
theorem Linkable.table_mono (h : Linkable s live r p t i x) {r' t' : Nat} {p' : List (Fin 512)}
    (hr' : r' ∈ s.roots live) (ht' : s.table r' p' = some t') :
    (s.write t i (linkEntry x)).table r' p' = some t' := by
  rw [h.write_table hr', if_neg, ht']
  rintro ⟨rfl, rfl⟩
  rw [Vmm.table_cons h.table, h.none] at ht'
  exact absurd ht' (by simp)

/-- The new table is the only one that comes in. -/
theorem Linkable.isTable (h : Linkable s live r p t i x) (t' : Nat) :
    (s.write t i (linkEntry x)).IsTable live t' ↔ s.IsTable live t' ∨ t' = x := by
  constructor
  · rintro ⟨r', hr', p', ht'⟩
    rw [h.write_table hr'] at ht'
    split at ht'
    · exact Or.inr (Option.some.inj ht').symm
    · exact Or.inl ⟨r', hr', p', ht'⟩
  · rintro (⟨r', hr', p', ht'⟩ | rfl)
    · exact ⟨r', hr', p', h.table_mono hr' ht'⟩
    · refine ⟨r, h.root, i :: p, ?_⟩
      rw [h.write_table h.root, if_pos ⟨rfl, rfl⟩]

end Linkable

/-- The conditions under which `ensureNextTable` links a new table at index `i` of the table `t`,
which `r` reaches along `p`. -/
structure CanLink (s : Vmm) (live : Finset Nat) (r : Nat) (p : List (Fin 512)) (t : Nat)
    (i : Fin 512) : Prop where
  wf : Wf s live
  root : r ∈ s.roots live
  table : s.table r p = some t
  depth : p.length < 3
  own : s.Own r p i
  none : s.edge r p t i = none
  alloc : (pmmAllocFrame s.pmm).1 ≠ 0

theorem CanLink.table_zeroed (h : CanLink s live r p t i) {r' : Nat} (hr' : r' ∈ s.roots live)
    (p' : List (Fin 512)) : s.zeroed.table r' p' = s.table r' p' :=
  Vmm.table_frame (Vmm.zeroed_currentPml4 h.alloc)
    (fun p t ht => h.wf.zeroed_mem h.alloc t ⟨r', hr', p, ht⟩) p'

theorem CanLink.roots_zeroed (h : CanLink s live r p t i) :
    s.zeroed.roots live = s.roots live := Vmm.roots_congr (Vmm.zeroed_currentPml4 h.alloc)

/-- The page just allocated and zeroed can be linked. -/
theorem CanLink.linkable (h : CanLink s live r p t i) :
    Linkable s.zeroed live r p t i (pmmAllocFrame s.pmm).1 where
  wf := h.wf.zeroed h.alloc
  root := h.roots_zeroed ▸ h.root
  table := (h.table_zeroed h.root p).trans h.table
  depth := h.depth
  own hc := h.own ⟨fun hr => hc.1 (hr.trans (Vmm.zeroed_currentPml4 h.alloc).symm), hc.2⟩
  none := by
    rw [← h.none]
    refine Vmm.edge_congr (Vmm.zeroed_currentPml4 h.alloc) ?_ p
    rw [h.wf.zeroed_mem h.alloc t ⟨r, h.root, p, h.table⟩]
  ne_zero := h.alloc
  aligned := (h.wf.freshPage h.alloc).aligned
  lt := lt_trans (h.wf.freshPage h.alloc).lt (by decide)
  notTable := by
    rw [Vmm.isTable_frame (Vmm.zeroed_currentPml4 h.alloc) (h.wf.zeroed_mem h.alloc)]
    exact (h.wf.freshPage h.alloc).notTable
  taken := by
    rw [Vmm.zeroed_pmm h.alloc]
    exact (h.wf.freshPage h.alloc).taken
  zero j := by rw [Vmm.zeroed_mem h.alloc, Function.update_self]

/-- **Linking a table** adds one path. -/
theorem CanLink.link_table (h : CanLink s live r p t i) {r' : Nat} (hr' : r' ∈ s.roots live)
    (p' : List (Fin 512)) : (s.link t i).table r' p' =
      if r' = r ∧ p' = i :: p then some (pmmAllocFrame s.pmm).1 else s.table r' p' := by
  rw [← h.table_zeroed hr']
  exact h.linkable.write_table (by rwa [h.roots_zeroed]) p'

/-- Linking a table changes one entry. -/
theorem CanLink.link_entry (h : CanLink s live r p t i) {r' : Nat} (hr' : r' ∈ s.roots live)
    (p' : List (Fin 512)) (j : Fin 512) : (s.link t i).entry r' p' j =
      if r' = r ∧ p' = p ∧ j = i then linkEntry (pmmAllocFrame s.pmm).1
      else s.entry r' p' j := by
  have hzero : s.zeroed.entry r' p' j = s.entry r' p' j :=
    Vmm.entry_frame (Vmm.zeroed_currentPml4 h.alloc)
      (fun p t ht => h.wf.zeroed_mem h.alloc t ⟨r', hr', p, ht⟩) p' j
  rw [← hzero]
  exact h.linkable.write_entry (by rwa [h.roots_zeroed]) p' j

theorem CanLink.wf_link (h : CanLink s live r p t i) : Wf (s.link t i) live := h.linkable.wf_write

@[simp] theorem CanLink.link_pmm (h : CanLink s live r p t i) :
    (s.link t i).pmm = (pmmAllocFrame s.pmm).2 := Vmm.zeroed_pmm h.alloc

@[simp] theorem CanLink.link_currentPml4 (h : CanLink s live r p t i) :
    (s.link t i).currentPml4 = s.currentPml4 := Vmm.zeroed_currentPml4 h.alloc

theorem CanLink.link_mem (h : CanLink s live r p t i) {t' : Nat} (ht : t' ≠ t)
    (hx : t' ≠ (pmmAllocFrame s.pmm).1) : (s.link t i).mem t' = s.mem t' := by
  rw [Vmm.link, Vmm.write_mem_of_table_ne _ _ _ _ ht, Vmm.zeroed_mem h.alloc,
    Function.update_of_ne hx]

theorem CanLink.link_touched (h : CanLink s live r p t i) :
    (s.link t i).touched = t :: (pmmAllocFrame s.pmm).1 :: s.touched := by
  rw [Vmm.link, Vmm.write_touched, Vmm.zeroed_touched h.alloc]

/-- What was linked stays linked. -/
theorem CanLink.table_mono (h : CanLink s live r p t i) {r' t' : Nat} {p' : List (Fin 512)}
    (hr' : r' ∈ s.roots live) (ht' : s.table r' p' = some t') :
    (s.link t i).table r' p' = some t' := by
  rw [h.link_table hr', if_neg, ht']
  rintro ⟨rfl, rfl⟩
  rw [Vmm.table_cons h.table, h.none] at ht'
  exact absurd ht' (by simp)

end Link

/-! ## Growing below a root -/

/-- One step of growing the tables below `r`: looking into a table, or linking a new one. -/
inductive LinkStep (live : Finset Nat) (r : Nat) : Vmm → Vmm → Prop
  | touch {s : Vmm} {t : Nat} : Wf s live → s.IsTable live t → LinkStep live r s (s.touch t)
  | link {s : Vmm} {p : List (Fin 512)} {t : Nat} {i : Fin 512} :
      CanLink s live r p t i → LinkStep live r s (s.link t i)

section Grow

variable {s s' : Vmm} {live : Finset Nat} {r t : Nat} {p : List (Fin 512)} {i : Fin 512}

theorem LinkStep.currentPml4 (h : LinkStep live r s s') : s'.currentPml4 = s.currentPml4 := by
  cases h with
  | touch => rfl
  | link h => exact h.link_currentPml4

theorem LinkStep.wf (h : LinkStep live r s s') : Wf s' live := by
  cases h with
  | touch hwf _ => exact hwf.touch _
  | link h => exact h.wf_link

theorem LinkStep.table_mono (h : LinkStep live r s s') {r' t' : Nat} {p' : List (Fin 512)}
    (hr' : r' ∈ s.roots live) (ht' : s.table r' p' = some t') : s'.table r' p' = some t' := by
  cases h with
  | touch => exact ht'
  | link h => exact h.table_mono hr' ht'

/-- A table of another root keeps its entries. -/
theorem LinkStep.mem_of_ne (h : LinkStep live r s s') {r' t' : Nat} {p' : List (Fin 512)}
    (hr' : r' ∈ s.roots live) (hne : r' ≠ r) (ht' : s.table r' p' = some t') :
    s'.mem t' = s.mem t' := by
  cases h with
  | touch => rfl
  | link h =>
    refine h.link_mem ?_ ?_
    · rintro rfl
      exact hne (h.wf.unique hr' h.root ht' h.table).1
    · rintro rfl
      exact (h.wf.freshPage h.alloc).notTable ⟨r', hr', p', ht'⟩

/-- Growing the forest maps no page and unmaps none. -/
theorem LinkStep.pte_eq (h : LinkStep live r s s') {r' : Nat} (hr' : r' ∈ s.roots live)
    (q : PageNumber) : s'.pte r' q = s.pte r' q := by
  cases h with
  | touch => rfl
  | link h =>
    rw [Vmm.pte, h.link_entry hr', if_neg, Vmm.pte]
    rintro ⟨-, hp, -⟩
    have := h.depth
    simp [← hp] at this

theorem LinkStep.touched (h : LinkStep live r s s')
    (hlog : ∀ t ∈ s.touched, s.IsTable live t) : ∀ t ∈ s'.touched, s'.IsTable live t := by
  cases h with
  | touch _ ht =>
    intro t' ht'
    rcases List.mem_cons.mp ht' with rfl | ht'
    · exact ht
    · exact hlog t' ht'
  | @link p t i h =>
    have hroots : (s.link t i).roots live = s.roots live := Vmm.roots_congr h.link_currentPml4
    intro t' ht'
    rw [h.link_touched] at ht'
    rcases List.mem_cons.mp ht' with rfl | ht'
    · exact ⟨r, hroots ▸ h.root, p, h.table_mono h.root h.table⟩
    rcases List.mem_cons.mp ht' with rfl | ht'
    · refine ⟨r, hroots ▸ h.root, i :: p, ?_⟩
      rw [h.link_table h.root, if_pos ⟨rfl, rfl⟩]
    · obtain ⟨r', hr', p', hp'⟩ := hlog t' ht'
      exact ⟨r', hroots ▸ hr', p', h.table_mono hr' hp'⟩

/-- **What `ensureNextTable` does** at an entry that is no 2 MiB leaf: it finds the table the entry
links, or runs out of frames, or links a new one. -/
theorem ensureNextTable_cases (h : Wf s live) (hr : r ∈ s.roots live) (ht : s.table r p = some t)
    (hp : p.length < 3) (hown : s.Own r p i)
    (hleaf : ¬ (p.length = 2 ∧ hasFlag (s.mem t i) pagePresent ∧ hasFlag (s.mem t i) pageHuge ∧
      pageOf (s.mem t i) ≠ 0)) :
    (∃ x, s.table r (i :: p) = some x ∧ x ≠ 0 ∧ ensureNextTable s t i = (x, s.touch t)) ∨
    ((pmmAllocFrame s.pmm).1 = 0 ∧
      ensureNextTable s t i = (0, { s.touch t with pmm := (pmmAllocFrame s.pmm).2 })) ∨
    (CanLink (s.touch t) live r p t i ∧
      ensureNextTable s t i = ((pmmAllocFrame s.pmm).1, (s.touch t).link t i)) := by
  cases he : s.edge r p t i with
  | some x =>
    obtain ⟨hx, hne⟩ := h.getExistingTable_of_edge hr ht he
    refine Or.inl ⟨x, by rw [Vmm.table_cons ht, he], hne, ?_⟩
    simp only [ensureNextTable]
    rw [show getExistingTable (s.touch t) t i = x from hx, if_pos hne]
  | none =>
    have hnone := Wf.getExistingTable_of_none hown hp hleaf he
    by_cases hx : (pmmAllocFrame s.pmm).1 = 0
    · refine Or.inr (Or.inl ⟨hx, ?_⟩)
      simp only [ensureNextTable]
      rw [show getExistingTable (s.touch t) t i = 0 from hnone, if_neg (by simp)]
      simp [allocZeroedTable, hx]
    · have hlink : CanLink (s.touch t) live r p t i :=
        ⟨h.touch t, hr, ht, hp, hown, he, hx⟩
      refine Or.inr (Or.inr ⟨hlink, ?_⟩)
      -- the second lookup finds the entry as it was: the new page is another one
      have hagain : getExistingTable (s.touch t).zeroed t i = 0 := by
        unfold getExistingTable
        rw [hlink.wf.zeroed_mem hlink.alloc t ⟨r, hr, p, ht⟩]
        exact hnone
      simp only [ensureNextTable]
      rw [show getExistingTable (s.touch t) t i = 0 from hnone, if_neg (by simp),
        (Vmm.zeroed_eq hlink.alloc).1]
      simp only [hagain, Vmm.touch_pmm, if_neg hx, if_true]
      rfl

end Grow

/-! ## Adding and removing a root -/

section Roots

variable {s : Vmm} {live : Finset Nat} {x : Nat}

theorem Vmm.roots_insert (s : Vmm) (live : Finset Nat) (x : Nat) :
    s.roots (insert x live) = insert x (s.roots live) := by
  rw [Vmm.roots, Vmm.roots, Finset.coe_insert, Set.insert_comm]

theorem Vmm.table_of_empty (hne : x ≠ s.currentPml4) (hzero : ∀ i ≠ 0, s.mem x i = 0#64)
    {p : List (Fin 512)} {t : Nat} (ht : s.table x p = some t) : p = [] ∧ t = x := by
  refine node_of_childless (fun i => ?_) ht
  by_cases hi : i = 0
  · exact if_pos ⟨hne, rfl, hi⟩
  · rw [Vmm.edge_of_own (Vmm.own_of_ne_zero hi), hzero i hi]
    simp

/-- A page that is no table and holds the kernel's slot only becomes a root. -/
theorem Wf.addRoot (h : Wf s live) (hx : ¬ s.IsTable live x) (hne : x ≠ 0)
    (haligned : x % pageSize = 0) (hused : x ∉ s.pmm.freeStack)
    (hslot : s.mem x 0 = s.mem s.currentPml4 0) (hzero : ∀ i ≠ 0, s.mem x i = 0#64) :
    Wf s (insert x live) := by
  have hkr : x ≠ s.currentPml4 := by
    rintro rfl
    exact hx ⟨_, s.kernel_mem_roots live, [], rfl⟩
  have hcases : ∀ t, s.IsTable (insert x live) t → s.IsTable live t ∨ t = x := by
    rintro t ⟨r, hr, p, ht⟩
    rw [Vmm.roots_insert] at hr
    rcases hr with rfl | hr
    · exact Or.inr (Vmm.table_of_empty hkr hzero ht).2
    · exact Or.inl ⟨r, hr, p, ht⟩
  refine ⟨h.stack, ?_, ?_, ?_, ?_, ?_, ?_, h.kernel_present⟩
  · rw [Vmm.roots_insert]
    exact h.forest.addRoot (fun _ _ _ => rfl) hx fun p t ht => Vmm.table_of_empty hkr hzero ht
  · exact fun t ht => (hcases t ht).elim (h.ne_zero t) fun he => he ▸ hne
  · exact fun t ht => (hcases t ht).elim (h.aligned t) fun he => he ▸ haligned
  · exact fun t ht => (hcases t ht).elim (h.used t) fun he => he ▸ hused
  · rw [Finset.mem_insert, not_or]
    exact ⟨hkr.symm, h.kernel_notMem⟩
  · intro r hr
    rcases Finset.mem_insert.mp hr with rfl | hr
    · exact hslot
    · exact h.kernel_slot r hr

theorem Wf.mono (h : Wf s live) {live' : Finset Nat} (hsub : live' ⊆ live) : Wf s live' := by
  have hroots : s.roots live' ⊆ s.roots live := Set.insert_subset_insert (Finset.coe_subset.mpr hsub)
  have htab : ∀ t, s.IsTable live' t → s.IsTable live t := fun t ⟨r, hr, hp⟩ => ⟨r, hroots hr, hp⟩
  exact ⟨h.stack, h.forest.mono hroots, fun t ht => h.ne_zero t (htab t ht),
    fun t ht => h.aligned t (htab t ht), fun t ht => h.used t (htab t ht),
    fun hk => h.kernel_notMem (hsub hk), fun r hr => h.kernel_slot r (hsub hr), h.kernel_present⟩

/-- The space `vmmCreateAddressSpace` makes of the page `x`. -/
def Vmm.create (s : Vmm) (x : Nat) : Vmm :=
  (s.zeroed.touch s.currentPml4).write x 0 (s.mem s.currentPml4 0)

/-- **What `vmmCreateAddressSpace` does**: it runs out of frames, or makes a page off the free
stack a root. -/
theorem vmmCreateAddressSpace_cases (h : Wf s live) :
    ((pmmAllocFrame s.pmm).1 = 0 ∧
      vmmCreateAddressSpace s = (0, { s with pmm := (pmmAllocFrame s.pmm).2 })) ∨
    ((pmmAllocFrame s.pmm).1 ≠ 0 ∧ vmmCreateAddressSpace s =
      ((pmmAllocFrame s.pmm).1, s.create (pmmAllocFrame s.pmm).1)) := by
  by_cases hx : (pmmAllocFrame s.pmm).1 = 0
  · refine Or.inl ⟨hx, ?_⟩
    simp [vmmCreateAddressSpace, allocZeroedTable, hx]
  · refine Or.inr ⟨hx, ?_⟩
    have hmem := h.zeroed_mem hx _ ⟨_, s.kernel_mem_roots live, [], rfl⟩
    simp only [vmmCreateAddressSpace, (Vmm.zeroed_eq hx).1, if_neg hx, Vmm.zeroed_currentPml4 hx,
      Vmm.create, hmem]

/-- A page off the free stack made a root, in the words the proofs need. -/
structure Created (s : Vmm) (live : Finset Nat) (s' : Vmm) (x : Nat) : Prop where
  wf : Wf s' (insert x live)
  currentPml4 : s'.currentPml4 = s.currentPml4
  pmm : s'.pmm = (pmmAllocFrame s.pmm).2
  fresh : FreshPage s live x
  mem : ∀ t, t ≠ x → s'.mem t = s.mem t
  zero : ∀ i ≠ 0, s'.mem x i = 0#64
  touched : s'.touched = x :: s.currentPml4 :: x :: s.touched

/-- The new root and the kernel's are read or written, and no other page. -/
theorem Created.mem_touched {s' : Vmm} (h : Created s live s' x) {t : Nat} (ht : t ∈ s'.touched) :
    t = x ∨ t = s.currentPml4 ∨ t ∈ s.touched := by
  rw [h.touched, List.mem_cons, List.mem_cons, List.mem_cons] at ht
  rcases ht with rfl | rfl | rfl | ht
  · exact Or.inl rfl
  · exact Or.inr (Or.inl rfl)
  · exact Or.inl rfl
  · exact Or.inr (Or.inr ht)

theorem Wf.create (h : Wf s live) (hx : (pmmAllocFrame s.pmm).1 ≠ 0) :
    Created s live (s.create (pmmAllocFrame s.pmm).1) (pmmAllocFrame s.pmm).1 := by
  have hfresh := h.freshPage hx
  have hkr : (s.create (pmmAllocFrame s.pmm).1).currentPml4 = s.currentPml4 :=
    Vmm.zeroed_currentPml4 hx
  have hpmm : (s.create (pmmAllocFrame s.pmm).1).pmm = (pmmAllocFrame s.pmm).2 := Vmm.zeroed_pmm hx
  -- the new frame is no table, so nothing that is read by the old ones changes
  have hmem : ∀ t, t ≠ (pmmAllocFrame s.pmm).1 →
      (s.create (pmmAllocFrame s.pmm).1).mem t = s.mem t := by
    intro t ht
    rw [Vmm.create, Vmm.write_mem_of_table_ne _ _ _ _ ht, Vmm.touch_mem, Vmm.zeroed_mem hx,
      Function.update_of_ne ht]
  have hzero : ∀ i ≠ 0, (s.create (pmmAllocFrame s.pmm).1).mem (pmmAllocFrame s.pmm).1 i = 0#64 := by
    intro i hi
    rw [Vmm.create, Vmm.write_mem_of_ne _ _ _ _ fun hc => hi hc.2, Vmm.touch_mem,
      Vmm.zeroed_mem hx, Function.update_self]
  have htables : ∀ t, s.IsTable live t →
      (s.create (pmmAllocFrame s.pmm).1).mem t = s.mem t := by
    refine fun t ht => hmem t ?_
    rintro rfl
    exact hfresh.notTable ht
  have hwf : Wf (s.create (pmmAllocFrame s.pmm).1) live := by
    refine h.frame hkr htables ?_ fun t ht => ?_
    · rw [hpmm]
      exact h.stack.alloc
    · rw [hpmm]
      exact h.alloc.used t ht
  -- the new root is empty but for the kernel's entry
  refine ⟨hwf.addRoot ?_ hfresh.ne_zero hfresh.aligned ?_ ?_ hzero, hkr, hpmm, hfresh, hmem, hzero, ?_⟩
  · rw [Vmm.isTable_frame hkr htables]
    exact hfresh.notTable
  · rw [hpmm]
    exact hfresh.taken
  · rw [hkr, htables _ ⟨_, s.kernel_mem_roots live, [], rfl⟩, Vmm.create, Vmm.write_mem_self]
  · rw [Vmm.create, Vmm.write_touched, Vmm.touch_touched, Vmm.zeroed_touched hx]

/-- A new space reaches its root only. -/
theorem Created.table_new {s' : Vmm} (h : Created s live s' x) {p : List (Fin 512)} {t : Nat}
    (ht : s'.table x p = some t) : p = [] ∧ t = x := by
  refine Vmm.table_of_empty ?_ h.zero ht
  rintro rfl
  exact h.wf.kernel_notMem (Finset.mem_insert_self _ _)

/-- The other spaces are as they were. -/
theorem Created.table_old {s' : Vmm} (h : Created s live s' x) {r : Nat} (hr : r ∈ s.roots live)
    (p : List (Fin 512)) : s'.table r p = s.table r p := by
  refine Vmm.table_frame h.currentPml4 (fun p t ht => h.mem t ?_) p
  rintro rfl
  exact h.fresh.notTable ⟨r, hr, p, ht⟩

theorem Created.entry_old {s' : Vmm} (h : Created s live s' x) {r : Nat} (hr : r ∈ s.roots live)
    (p : List (Fin 512)) (i : Fin 512) : s'.entry r p i = s.entry r p i := by
  refine Vmm.entry_frame h.currentPml4 (fun p t ht => h.mem t ?_) p i
  rintro rfl
  exact h.fresh.notTable ⟨r, hr, p, ht⟩

end Roots

end ZohoOs
