import ZohoOs.Memory.PageForest

/-!
# Walks of `vmm_map` and `vmm_unmap`

Each walk goes down the forest from the slot's owner and ends in one write. The way down only
links new tables; the write changes one entry of one table.

## Main definitions

* `MapResult`, `UnmapResult`: the ways a call can end

## Main results

* `vmmMap_spec`, `vmmUnmap_spec`: the calls end in one of them
-/

namespace ZohoOs

open Forest Relation

/-- A run of steps that grow the tables below `r`. -/
abbrev LinkSteps (live : Finset Nat) (r : Nat) : Vmm → Vmm → Prop := ReflTransGen (LinkStep live r)

section Steps

variable {s s' : Vmm} {live : Finset Nat} {r : Nat}

theorem LinkSteps.currentPml4 (h : LinkSteps live r s s') : s'.currentPml4 = s.currentPml4 := by
  induction h with
  | refl => rfl
  | tail _ hstep ih => rw [hstep.currentPml4, ih]

theorem LinkSteps.roots (h : LinkSteps live r s s') : s'.roots live = s.roots live :=
  Vmm.roots_congr h.currentPml4

theorem LinkSteps.wf (h : LinkSteps live r s s') (hwf : Wf s live) : Wf s' live := by
  induction h with
  | refl => exact hwf
  | tail _ hstep _ => exact hstep.wf

theorem LinkSteps.table_mono (h : LinkSteps live r s s') {r' t' : Nat} {p' : List (Fin 512)}
    (hr' : r' ∈ s.roots live) (ht' : s.table r' p' = some t') : s'.table r' p' = some t' := by
  induction h with
  | refl => exact ht'
  | tail hsteps hstep ih => exact hstep.table_mono (LinkSteps.roots hsteps ▸ hr') ih

theorem LinkSteps.mem_of_ne (h : LinkSteps live r s s') {r' t' : Nat} {p' : List (Fin 512)}
    (hr' : r' ∈ s.roots live) (hne : r' ≠ r) (ht' : s.table r' p' = some t') :
    s'.mem t' = s.mem t' := by
  induction h with
  | refl => rfl
  | tail hsteps hstep ih =>
    rw [hstep.mem_of_ne (LinkSteps.roots hsteps ▸ hr') hne (LinkSteps.table_mono hsteps hr' ht'), ih]

theorem LinkSteps.pte_eq (h : LinkSteps live r s s') {r' : Nat} (hr' : r' ∈ s.roots live)
    (q : PageNumber) : s'.pte r' q = s.pte r' q := by
  induction h with
  | refl => rfl
  | tail hsteps hstep ih => rw [hstep.pte_eq (LinkSteps.roots hsteps ▸ hr') q, ih]

theorem LinkSteps.touched (h : LinkSteps live r s s')
    (hlog : ∀ t ∈ s.touched, s.IsTable live t) : ∀ t ∈ s'.touched, s'.IsTable live t := by
  induction h with
  | refl => exact hlog
  | tail _ hstep ih => exact hstep.touched ih

end Steps

/-! ## One level -/

/-- The frames needed to have a table at the end of `p`. -/
def Vmm.missing (s : Vmm) (r : Nat) (p : List (Fin 512)) : Nat :=
  if (s.table r p).isSome then 0 else 1

theorem Vmm.missing_congr {s s' : Vmm} {r : Nat} {p : List (Fin 512)}
    (h : s'.table r p = s.table r p) : s'.missing r p = s.missing r p := by
  rw [Vmm.missing, h, Vmm.missing]

/-- The walk has reached a table `x` at index `i` below `p`, linking it where it was missing. -/
structure Ensured (live : Finset Nat) (r : Nat) (p : List (Fin 512)) (i : Fin 512) (s s' : Vmm)
    (x : Nat) : Prop where
  steps : LinkSteps live r s s'
  ne_zero : x ≠ 0
  table : s'.table r (i :: p) = some x
  table_other : ∀ p', p' ≠ i :: p → s'.table r p' = s.table r p'
  entry_other : ∀ p' j, ¬ (p' = p ∧ j = i) → s'.entry r p' j = s.entry r p' j
  available : ∀ n, s.pmm.Available (n + s.missing r (i :: p)) → s'.pmm.Available n

/-- The state after an allocation that fails. -/
def Vmm.exhausted (s : Vmm) : Vmm := { s with pmm := (pmmAllocFrame s.pmm).2 }

section Ensure

variable {s : Vmm} {live : Finset Nat} {r t : Nat} {p : List (Fin 512)} {i : Fin 512}

theorem Vmm.not_available_of_missing (ht : s.table r p = none) (hx : (pmmAllocFrame s.pmm).1 = 0)
    (n : Nat) : ¬ s.pmm.Available (n + s.missing r p) := by
  intro hav
  rw [Vmm.missing, ht] at hav
  exact (Pmm.available_succ hav).1 hx

/-- `ensureNextTable` reaches the table, or fails to allocate one. -/
theorem ensureNextTable_spec (h : Wf s live) (hr : r ∈ s.roots live) (ht : s.table r p = some t)
    (hp : p.length < 3) (hown : s.Own r p i)
    (hleaf : ¬ (p.length = 2 ∧ s.IsHuge r p i ∧ pageOf (s.entry r p i) ≠ 0)) :
    (∃ s' x, ensureNextTable s t i = (x, s') ∧ Ensured live r p i s s' x) ∨
    (ensureNextTable s t i = (0, (s.touch t).exhausted) ∧ (pmmAllocFrame s.pmm).1 = 0 ∧
      ∀ n, ¬ s.pmm.Available (n + s.missing r (i :: p))) := by
  have hentry := Vmm.entry_of_table ht i
  have htouch : LinkStep live r s (s.touch t) := .touch h ⟨r, hr, p, ht⟩
  -- the table is there, or a frame is needed: there is none, or it is linked
  rcases ensureNextTable_cases h hr ht hp hown (by simpa [Vmm.IsHuge, hentry, and_assoc] using hleaf)
    with ⟨x, hx, hne, heq⟩ | ⟨hx, heq⟩ | ⟨hlink, heq⟩
  · refine Or.inl ⟨_, x, heq, .single htouch, hne, hx, fun _ _ => rfl, fun _ _ _ => rfl, fun n hav => ?_⟩
    rw [Vmm.missing, hx] at hav
    exact hav
  · by_cases hsome : s.table r (i :: p) = none
    · exact Or.inr ⟨heq, hx, Vmm.not_available_of_missing hsome hx⟩
    · -- the allocation fails only when the table is missing
      obtain ⟨x, hx'⟩ := Option.ne_none_iff_exists'.mp hsome
      obtain ⟨hget, hne⟩ := h.getExistingTable_of_edge hr ht (by rw [← hx', Vmm.table_cons ht])
      have hfound : ensureNextTable s t i = (x, s.touch t) := by
        simp only [ensureNextTable]
        rw [show getExistingTable (s.touch t) t i = x from hget, if_pos hne]
      rw [hfound] at heq
      exact absurd (congrArg Prod.fst heq) hne
  -- one table less is missing, and one frame less is free
  · have hnone : s.table r (i :: p) = none := by
      rw [Vmm.table_cons ht]
      exact hlink.none
    refine Or.inl ⟨_, _, heq, (ReflTransGen.single htouch).tail (.link hlink), hlink.alloc, ?_, ?_,
      ?_, fun n hav => ?_⟩
    · rw [hlink.link_table hr, if_pos ⟨rfl, rfl⟩]
      rfl
    · intro p' hp'
      rw [hlink.link_table hr, if_neg fun hc => hp' hc.2]
      rfl
    · intro p' j hne
      rw [hlink.link_entry hr, if_neg fun hc => hne hc.2]
      rfl
    · rw [Vmm.missing, hnone] at hav
      rw [hlink.link_pmm]
      exact (Pmm.available_succ hav).2

/-- At a root, the walk goes on below the owner of the slot. -/
theorem ensureNextTable_root (h : Wf s live) (hr : r ∈ s.roots live) (i : Fin 512) :
    (∃ s' x, ensureNextTable s r i = (x, s') ∧ Ensured live (s.owner r i) [] i s s' x) ∨
    (ensureNextTable s r i = (0, (s.touch r).exhausted) ∧ (pmmAllocFrame s.pmm).1 = 0 ∧
      ∀ n, ¬ s.pmm.Available (n + s.missing (s.owner r i) [i])) := by
  by_cases hi : i = 0
  · -- the kernel's slot is linked, and the space holds the same entry
    subst hi
    have hown : s.owner r 0 = s.currentPml4 := if_pos rfl
    have hedge : s.edge s.currentPml4 [] s.currentPml4 0 =
        some (pageOf (s.mem s.currentPml4 0)) := by
      rw [Vmm.edge_of_own (fun hc => hc.1 rfl), if_pos ⟨by simp, h.kernel_present, by simp⟩]
    obtain ⟨hget, hne⟩ := h.getExistingTable_of_edge (s.kernel_mem_roots live) rfl hedge
    have hmem := h.mem_owner hr 0
    rw [hown] at hmem
    refine Or.inl ⟨s.touch r, pageOf (s.mem s.currentPml4 0), ?_, .single (.touch h ⟨r, hr, [], rfl⟩),
      hne, ?_, fun _ _ => rfl, fun _ _ _ => rfl, fun n hav => ?_⟩
    · simp only [ensureNextTable]
      have hget' : getExistingTable (s.touch r) r 0 = pageOf (s.mem s.currentPml4 0) := by
        rw [← hget]
        unfold getExistingTable
        rw [Vmm.touch_mem, hmem]
      rw [hget', if_pos hne]
    · rw [hown]
      exact hedge
    · rw [hown, Vmm.missing, show s.table s.currentPml4 [0] = some _ from hedge] at hav
      exact hav
  -- in the other slots the space owns its tables
  · have hown : s.owner r i = r := if_neg hi
    rw [hown]
    exact ensureNextTable_spec h hr rfl (by simp) (Vmm.own_of_ne_zero hi) (by simp)

end Ensure

/-! ## `vmm_map` -/

/-- The frames `vmmMap` needs for the tables of a page. -/
def Vmm.mapNeeds (s : Vmm) (r : Nat) (q : PageNumber) : Nat :=
  s.missing r [q.1] + s.missing r [q.2.1, q.1] + s.missing r q.path

/-- The directory entry over a page is a 2 MiB leaf of a page other than 0. -/
def Vmm.UnderLeaf (s : Vmm) (r : Nat) (q : PageNumber) : Prop :=
  s.IsHuge r [q.2.1, q.1] q.2.2.1 ∧ pageOf (s.entry r [q.2.1, q.1] q.2.2.1) ≠ 0

/-- How a call of `vmmMap` ends, below the owner `r` of its slot: an allocation has failed, or a
directory entry was written, or a page-table entry. -/
inductive MapResult (live : Finset Nat) (r : Nat) (q : PageNumber) (phys flags : BitVec 64)
    (s : Vmm) : Vmm → Prop
  | exhausted {s₁ : Vmm} : LinkSteps live r s s₁ → (pmmAllocFrame s₁.pmm).1 = 0 →
      ¬ s.pmm.Available (s.mapNeeds r q) → MapResult live r q phys flags s s₁.exhausted
  | huge {s₁ : Vmm} {pd : Nat} : hasFlag flags pageHuge = true → LinkSteps live r s s₁ →
      s₁.table r [q.2.1, q.1] = some pd →
      (∀ p, p.length = 3 → s₁.table r p = s.table r p) →
      MapResult live r q phys flags s
        (s₁.write pd q.2.2.1 (phys &&& ~~~0x1FFFFF#64 ||| flags ||| pagePresent))
  | page {s₁ : Vmm} {pt : Nat} : hasFlag flags pageHuge = false → LinkSteps live r s s₁ →
      s₁.table r q.path = some pt →
      MapResult live r q phys flags s
        (s₁.write pt q.2.2.2 (phys &&& ~~~0xFFF#64 ||| flags ||| pagePresent))

/-- **The walk of `vmmMap`**, with `PAGE_HUGE` or outside the 2 MiB leaves. -/
theorem vmmMap_spec {s : Vmm} {live : Finset Nat} {a : Nat} (h : Wf s live) (ha : a ∈ s.roots live)
    (virt phys flags : BitVec 64)
    (hleaf : hasFlag flags pageHuge = true ∨
      ¬ s.UnderLeaf (s.owner a (pml4Index virt)) (pageNumber virt)) :
    MapResult live (s.owner a (pml4Index virt)) (pageNumber virt) phys flags s
      (vmmMap s a virt phys flags) := by
  have hr := Vmm.owner_mem_roots (i := pml4Index virt) ha
  generalize hR : s.owner a (pml4Index virt) = r at hr hleaf ⊢
  unfold vmmMap
  rcases ensureNextTable_root h ha (pml4Index virt) with ⟨s₁, pdpt, heq₁, h₁⟩ | ⟨heq, hx, hav⟩
  · rw [hR] at h₁
    have hr₁ : r ∈ s₁.roots live := h₁.steps.roots ▸ hr
    simp only [heq₁, if_neg h₁.ne_zero]
    rcases ensureNextTable_spec (i := pdptIndex virt) (h₁.steps.wf h) hr₁ h₁.table (by simp)
      (Vmm.own_of_ne_nil (by simp)) (by simp) with ⟨s₂, pd, heq₂, h₂⟩ | ⟨heq, hx, hav⟩
    · have hsteps₂ : LinkSteps live r s s₂ := h₁.steps.trans h₂.steps
      have hr₂ : r ∈ s₂.roots live := hsteps₂.roots ▸ hr
      simp only [heq₂, if_neg h₂.ne_zero]
      by_cases hhuge : hasFlag flags pageHuge = true
      · rw [if_pos hhuge]
        refine .huge hhuge hsteps₂ h₂.table fun p hp => ?_
        rw [h₂.table_other, h₁.table_other] <;> rintro rfl <;> simp at hp
      · rw [if_neg hhuge]
        -- the entry over the page is the one the call found
        have hentry : s₂.entry r [pdptIndex virt, pml4Index virt] (pdIndex virt) =
            s.entry r [pdptIndex virt, pml4Index virt] (pdIndex virt) := by
          rw [h₂.entry_other _ _ (by simp), h₁.entry_other _ _ (by simp)]
        have hnot := hleaf.resolve_left hhuge
        simp only [Vmm.UnderLeaf, pageNumber, Vmm.IsHuge, ← hentry] at hnot
        rcases ensureNextTable_spec (i := pdIndex virt) (hsteps₂.wf h) hr₂ h₂.table (by simp)
          (Vmm.own_of_ne_nil (by simp)) (fun hc => hnot hc.2) with ⟨s₃, pt, heq₃, h₃⟩ | ⟨heq, hx, hav⟩
        · simp only [heq₃, if_neg h₃.ne_zero]
          exact .page (by simpa using hhuge) (hsteps₂.trans h₃.steps) h₃.table
        · simp only [heq, if_true]
          refine .exhausted (hsteps₂.tail (.touch (hsteps₂.wf h) ⟨r, hr₂, _, h₂.table⟩)) hx ?_
          intro hall
          refine hav 0 (h₂.available _ (h₁.available _ ?_))
          rw [Vmm.missing_congr (h₂.table_other _ (by simp)),
            Vmm.missing_congr (h₁.table_other _ (by simp)),
            Vmm.missing_congr (h₁.table_other _ (by simp))]
          refine hall.mono (Nat.le_of_eq ?_)
          simp only [Vmm.mapNeeds, pageNumber, PageNumber.path]
          omega
    · simp only [heq, if_true]
      refine .exhausted (h₁.steps.tail (.touch (h₁.steps.wf h) ⟨r, hr₁, _, h₁.table⟩)) hx ?_
      intro hall
      refine hav 0 (h₁.available _ ?_)
      rw [Vmm.missing_congr (h₁.table_other _ (by simp))]
      refine hall.mono ?_
      simp only [Vmm.mapNeeds, pageNumber]
      omega
  · simp only [heq, if_true]
    refine .exhausted (.single (.touch h ⟨a, ha, [], rfl⟩)) hx fun hall => hav 0 ?_
    rw [hR]
    refine hall.mono ?_
    simp only [Vmm.mapNeeds, pageNumber]
    omega

/-- With enough frames, a page is mapped. -/
theorem MapResult.of_available {live : Finset Nat} {r : Nat} {q : PageNumber} {phys flags : BitVec 64}
    {s s' : Vmm} (h : MapResult live r q phys flags s s')
    (hav : s.pmm.Available (s.mapNeeds r q)) (hsmall : hasFlag flags pageHuge = false) :
    ∃ s₁ pt, LinkSteps live r s s₁ ∧ s₁.table r q.path = some pt ∧
      s' = s₁.write pt q.2.2.2 (phys &&& ~~~0xFFF#64 ||| flags ||| pagePresent) := by
  cases h with
  | exhausted _ _ hnot => exact absurd hav hnot
  | huge hhuge _ _ _ => exact absurd hhuge (by simp [hsmall])
  | page _ hsteps hpt => exact ⟨_, _, hsteps, hpt, rfl⟩

/-- With enough frames for a page, a 2 MiB leaf is mapped. -/
theorem MapResult.huge_of_available {live : Finset Nat} {r : Nat} {q : PageNumber}
    {phys flags : BitVec 64} {s s' : Vmm} (h : MapResult live r q phys flags s s')
    (hav : s.pmm.Available (s.mapNeeds r q)) (hhuge : hasFlag flags pageHuge = true) :
    ∃ s₁ pd, LinkSteps live r s s₁ ∧ s₁.table r [q.2.1, q.1] = some pd ∧
      (∀ p, p.length = 3 → s₁.table r p = s.table r p) ∧
      s' = s₁.write pd q.2.2.1 (phys &&& ~~~0x1FFFFF#64 ||| flags ||| pagePresent) := by
  cases h with
  | exhausted _ _ hnot => exact absurd hav hnot
  | huge _ hsteps hpd hsame => exact ⟨_, _, hsteps, hpd, hsame, rfl⟩
  | page hsmall _ _ => exact absurd hhuge (by simp [hsmall])

/-! ## The frames a call takes -/

/-- A call of `ensureNextTable` takes at most one frame. -/
theorem ensureNextTable_available {s : Vmm} {n : Nat} (h : s.pmm.Available (n + 1)) (t : Nat)
    (i : Fin 512) : (ensureNextTable s t i).2.pmm.Available n := by
  have hn := h.mono (Nat.le_succ n)
  have htail := (Pmm.available_succ h).2
  unfold ensureNextTable allocZeroedTable
  dsimp only
  split
  · exact hn
  · split
    · exact htail
    · split
      · exact htail
      · rcases pmmFreeFrame_freeStack (pmmAllocFrame s.pmm).2 (pmmAllocFrame s.pmm).1 with
          heq | heq
        · exact htail.congr heq
        · -- the frame goes back to where it was
          refine hn.congr (heq.trans ?_)
          have hlen := h.1
          unfold pmmAllocFrame
          cases hs : s.pmm.freeStack with
          | nil =>
            rw [hs] at hlen
            exact absurd hlen (by simp)
          | cons top rest => rfl

/-- A call of `vmmMap` takes at most three frames. -/
theorem vmmMap_available {s : Vmm} {n : Nat} (h : s.pmm.Available (n + 3)) (r : Nat)
    (virt phys flags : BitVec 64) : (vmmMap s r virt phys flags).pmm.Available n := by
  have h₁ := ensureNextTable_available h r (pml4Index virt)
  unfold vmmMap
  dsimp only
  generalize ensureNextTable s r (pml4Index virt) = x₁ at h₁ ⊢
  have h₂ := ensureNextTable_available h₁ x₁.1 (pdptIndex virt)
  split
  · exact h₁.mono (by omega)
  · generalize ensureNextTable x₁.2 x₁.1 (pdptIndex virt) = x₂ at h₂ ⊢
    have h₃ := ensureNextTable_available h₂ x₂.1 (pdIndex virt)
    split
    · exact h₂.mono (by omega)
    · split
      · exact h₂.mono (by omega)
      · split
        · exact h₃
        · exact h₃

/-! ## Lookups -/

section Lookup

variable {s : Vmm} {live : Finset Nat} {r t : Nat} {p : List (Fin 512)} {i : Fin 512}

/-- A table `getExistingTable` finds is the one the forest has. -/
theorem Wf.table_of_lookup (hown : s.Own r p i) (ht : s.table r p = some t) (hp : p.length < 3)
    (hleaf : p.length = 2 → hasFlag (s.mem t i) pageHuge = false)
    (hne : getExistingTable s t i ≠ 0) : s.table r (i :: p) = some (getExistingTable s t i) := by
  rw [Vmm.table_cons ht, Vmm.edge_of_own hown]
  unfold getExistingTable at hne ⊢
  split at hne
  · next hpres =>
    rw [if_pos ⟨hp, hpres, fun hc => by simp [hleaf hc.1] at hc⟩, if_pos hpres]
  · exact absurd rfl hne

theorem Wf.lookup_of_table (h : Wf s live) (hr : r ∈ s.roots live) (ht : s.table r p = some t) {x : Nat}
    (hx : s.table r (i :: p) = some x) : getExistingTable s t i = x ∧ x ≠ 0 :=
  h.getExistingTable_of_edge hr ht (by rw [← hx, Vmm.table_cons ht])

/-- From the root, the lookup is that of the slot's owner. -/
theorem Wf.lookup_root (h : Wf s live) (hr : r ∈ s.roots live) (i : Fin 512) :
    getExistingTable s r i = getExistingTable s (s.owner r i) i := by
  unfold getExistingTable
  rw [h.mem_owner hr]

theorem Wf.table_of_lookup_root (h : Wf s live) (hr : r ∈ s.roots live)
    (hne : getExistingTable s r i ≠ 0) :
    s.table (s.owner r i) [i] = some (getExistingTable s r i) := by
  rw [h.lookup_root hr] at hne ⊢
  exact Wf.table_of_lookup (s.owner_own r i) rfl (by simp) (by simp) hne

end Lookup

/-! ## `vmm_unmap` -/

/-- How a call of `vmmUnmap` ends, below the owner `r` of its slot: nothing was mapped, or a 2 MiB
leaf was cleared, or a page-table entry. -/
inductive UnmapResult (live : Finset Nat) (r : Nat) (q : PageNumber) (s : Vmm) : Vmm → Prop
  | unmapped {s₁ : Vmm} : LinkSteps live r s s₁ → UnmapResult live r q s s₁
  | huge {s₁ : Vmm} {pd : Nat} : LinkSteps live r s s₁ → s₁.table r [q.2.1, q.1] = some pd →
      hasFlag (s₁.mem pd q.2.2.1) pageHuge = true →
      UnmapResult live r q s (s₁.write pd q.2.2.1 0#64)
  | page {s₁ : Vmm} {pt : Nat} : LinkSteps live r s s₁ → s₁.table r q.path = some pt →
      UnmapResult live r q s (s₁.write pt q.2.2.2 0#64)

/-- **The walk of `vmmUnmap`**. -/
theorem vmmUnmap_spec {s : Vmm} {live : Finset Nat} {a : Nat} (h : Wf s live) (ha : a ∈ s.roots live)
    (virt : BitVec 64) :
    UnmapResult live (s.owner a (pml4Index virt)) (pageNumber virt) s (vmmUnmap s a virt) := by
  have hr := Vmm.owner_mem_roots (i := pml4Index virt) ha
  have hroot := h.table_of_lookup_root (i := pml4Index virt) ha
  generalize s.owner a (pml4Index virt) = r at hr hroot ⊢
  simp only [vmmUnmap, show ∀ t x i, getExistingTable (s.touch t) x i = getExistingTable s x i from
    fun _ _ _ => rfl, show ∀ t u x i, getExistingTable ((s.touch t).touch u) x i =
    getExistingTable s x i from fun _ _ _ _ => rfl, show ∀ t u v x i,
    getExistingTable (((s.touch t).touch u).touch v) x i = getExistingTable s x i from
    fun _ _ _ _ _ => rfl, Vmm.touch_mem]
  -- The walk only touches tables down to the level at which it stops.
  have hsteps₁ : LinkSteps live r s (s.touch a) := .single (.touch h ⟨a, ha, [], rfl⟩)
  generalize hpdpt : getExistingTable s a (pml4Index virt) = pdpt at hroot ⊢
  split
  · exact .unmapped hsteps₁
  · next hne₁ =>
    have ht₁ := hroot hne₁
    have hsteps₂ := hsteps₁.tail (.touch (h.touch a) ⟨r, hr, _, ht₁⟩)
    have htable₂ : getExistingTable s pdpt (pdptIndex virt) ≠ 0 → s.table r _ = some _ :=
      Wf.table_of_lookup (Vmm.own_of_ne_nil (by simp)) ht₁ (by simp) (by simp)
    generalize getExistingTable s pdpt (pdptIndex virt) = pd at htable₂ ⊢
    split
    · exact .unmapped hsteps₂
    · next hne₂ =>
      have ht₂ := htable₂ hne₂
      have hsteps₃ := hsteps₂.tail (.touch ((h.touch a).touch pdpt) ⟨r, hr, _, ht₂⟩)
      split
      · next hhuge => exact .huge hsteps₃ ht₂ hhuge
      · next hhuge =>
        have htable₃ : getExistingTable s pd (pdIndex virt) ≠ 0 → s.table r _ = some _ :=
          Wf.table_of_lookup (Vmm.own_of_ne_nil (by simp)) ht₂ (by simp)
            fun _ => by simpa using hhuge
        generalize getExistingTable s pd (pdIndex virt) = pt at htable₃ ⊢
        split
        · exact .unmapped hsteps₃
        · next hne₃ => exact .page hsteps₃ (htable₃ hne₃)

end ZohoOs
