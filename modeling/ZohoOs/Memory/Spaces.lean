import ZohoOs.Lib.TransitionSystem
import ZohoOs.Memory.CloneTree
import ZohoOs.Memory.DestroyTree

/-!
# Runs over address spaces

The calls of the virtual memory manager and of the frame allocator, on a machine with any number
of address spaces.

## Main definitions

* `World`: the machine and the address spaces that live on it
* `VmmOp`: the calls, with `VmmOp.Valid` the callers' side of them
* `VmmOp.Tame`: the calls that take no 2 MiB leaf for a table, and no table for a page

## Main results

* `Wf.step`: such a call keeps the tables a forest
* `VmmOp.touched_isTable`: and reads and writes only tables
-/

namespace ZohoOs

open Forest Relation TransitionSystem

/-- The machine, with its live address spaces. -/
structure World where
  vmm : Vmm
  live : Finset Nat

/-- The calls. -/
inductive VmmOp
  | create
  | clone (src : Nat)
  | map (pml4 : Nat) (virt phys flags : BitVec 64)
  | unmap (pml4 : Nat) (virt : BitVec 64)
  | destroy (pml4 : Nat)
  | allocFrame
  | freeFrame (addr : Nat)
  | refInc (addr : Nat)

namespace World

/-- The page at `t` is linked as a table. -/
def IsTable (w : World) (t : Nat) : Prop := w.vmm.IsTable w.live t

/-- The kernel's root and the address spaces. -/
def roots (w : World) : Set Nat := w.vmm.roots w.live

/-- A new space is live, unless it is the null pointer. -/
def add (w : World) (out : Nat × Vmm) : World :=
  ⟨out.2, if out.1 = 0 then w.live else insert out.1 w.live⟩

end World

/-- The state before a call, with an empty record of tables. -/
def Vmm.unread (s : Vmm) : Vmm := { s with touched := [] }

def VmmOp.run : VmmOp → World → World
  | .create, w => w.add (vmmCreateAddressSpace w.vmm.unread)
  | .clone src, w => w.add (vmmCloneAddressSpace w.vmm.unread src)
  | .map pml4 virt phys flags, w => ⟨vmmMap w.vmm.unread pml4 virt phys flags, w.live⟩
  | .unmap pml4 virt, w => ⟨vmmUnmap w.vmm.unread pml4 virt, w.live⟩
  | .destroy pml4, w => ⟨vmmDestroyAddressSpace w.vmm.unread pml4, w.live.erase pml4⟩
  | .allocFrame, w => ⟨{ w.vmm.unread with pmm := (pmmAllocFrame w.vmm.pmm).2 }, w.live⟩
  | .freeFrame addr, w => ⟨{ w.vmm.unread with pmm := pmmFreeFrame w.vmm.pmm addr }, w.live⟩
  | .refInc addr, w => ⟨{ w.vmm.unread with pmm := pmmRefInc w.vmm.pmm addr }, w.live⟩

/-- The callers' side: the space passed is the kernel's or a live one, only a live one is
destroyed, and no client frees a page the tables use. -/
def VmmOp.Valid (w : World) : VmmOp → Prop
  | .create => True
  | .clone src => src ∈ w.roots
  | .map pml4 _ _ _ => pml4 ∈ w.roots
  | .unmap pml4 _ => pml4 ∈ w.roots
  | .destroy pml4 => pml4 ∈ w.live
  | .allocFrame => True
  | .freeFrame addr => addr % pageSize = 0 ∧ ¬ w.IsTable addr
  | .refInc _ => True

/-- The calls whose walks keep to the tables: a 4 KiB mapping outside the 2 MiB leaves; a clone
with a frame for each table; the destruction of a space without 2 MiB leaves, none of whose pages
is mapped to a table of another space. -/
def VmmOp.Tame (w : World) : VmmOp → Prop
  | .clone src => w.vmm.pmm.Available (w.vmm.cloneNeeds src)
  | .map pml4 virt _ flags => hasFlag flags pageHuge = true ∨
      ¬ w.vmm.UnderLeaf (w.vmm.owner pml4 (pml4Index virt)) (pageNumber virt)
  | .destroy pml4 => w.vmm.NoHuge pml4 ∧
      ∀ q a, w.vmm.Maps pml4 q a → ¬ w.vmm.IsTable (w.live.erase pml4) a
  | _ => True

/-- The calls of a run that meet both conditions. -/
abbrev vmmStep : World → VmmOp → World → Prop :=
  Restrict (fun w op => op.Valid w ∧ op.Tame w) (Apply VmmOp.run)

/-! ## The frame allocator's side -/

theorem mem_freeStack_free {s : Pmm} {addr a : Nat} (h : a ∈ (pmmFreeFrame s addr).freeStack) :
    a ∈ s.freeStack ∨ a = addr := by
  rcases pmmFreeFrame_freeStack s addr with heq | heq
  · exact Or.inl (heq ▸ h)
  · rw [heq] at h
    rcases List.mem_cons.mp h with rfl | h
    · exact Or.inr rfl
    · exact Or.inl h

theorem mem_freeStack_freeAll (l : List Nat) {s : Pmm} {a : Nat}
    (h : a ∈ (l.foldl pmmFreeFrame s).freeStack) : a ∈ s.freeStack ∨ a ∈ l := by
  induction l generalizing s with
  | nil => exact Or.inl h
  | cons addr l ih =>
    rcases ih h with h | h
    · rcases mem_freeStack_free h with h | rfl
      · exact Or.inl h
      · exact Or.inr List.mem_cons_self
    · exact Or.inr (List.mem_cons_of_mem _ h)

theorem StackInv.freeAll (l : List Nat) {s : Pmm} (h : StackInv s)
    (hl : ∀ a ∈ l, a % pageSize = 0) : StackInv (l.foldl pmmFreeFrame s) := by
  induction l generalizing s with
  | nil => exact h
  | cons addr l ih =>
    exact ih (h.free (hl addr List.mem_cons_self)) fun a ha => hl a (List.mem_cons_of_mem _ ha)

/-! ## Destroying a space -/

section Destroy

variable {s : Vmm} {live : Finset Nat} {r : Nat}

theorem Wf.table_unique (h : Wf s live) (hr : r ∈ live) :
    ∀ p p' a, s.table r p = some a → s.table r p' = some a → p = p' :=
  fun _ _ _ hp hp' => (h.unique (Vmm.mem_roots hr) (Vmm.mem_roots hr) hp hp').2

theorem Wf.ne_kernel (h : Wf s live) (hr : r ∈ live) : r ≠ s.currentPml4 := by
  rintro rfl
  exact h.kernel_notMem hr

/-- A call frees the pages the space maps, and its tables. -/
theorem Wf.of_mem_freedPages (h : Wf s live) (hr : r ∈ live) (hhuge : s.NoHuge r) {a : Nat}
    (ha : a ∈ freedPages s.mem r) : (∃ q, s.Maps r q a) ∨ ∃ p, s.table r p = some a := by
  have hcount := count_freedPages (h.table_unique hr) hhuge (h.ne_kernel hr) a
  have hpos := List.count_pos_iff.mpr ha
  rw [hcount] at hpos
  by_cases hmap : (s.mappedBelow r [] a).card = 0
  · refine Or.inr ?_
    by_contra hnone
    have hzero : s.tablesBelow r [] a = 0 := if_neg fun ⟨p, _, hp⟩ => hnone ⟨p, hp⟩
    omega
  · obtain ⟨q, hq⟩ := Finset.card_pos.mp (Nat.pos_of_ne_zero hmap)
    rw [mem_mappedBelow] at hq
    exact Or.inl ⟨q, hq.2⟩

theorem Wf.freedPages_aligned (h : Wf s live) (hr : r ∈ live) (hhuge : s.NoHuge r) {a : Nat}
    (ha : a ∈ freedPages s.mem r) : a % pageSize = 0 := by
  rcases h.of_mem_freedPages hr hhuge ha with ⟨q, -, rfl⟩ | ⟨p, hp⟩
  · exact pageOf_mod _
  · exact h.aligned a ⟨r, Vmm.mem_roots hr, p, hp⟩

/-- The other spaces keep their tables, when no page of this one is mapped to one of them. -/
theorem Wf.destroy (h : Wf s live) (hr : r ∈ live) (hhuge : s.NoHuge r)
    (hpages : ∀ q a, s.Maps r q a → ¬ s.IsTable (live.erase r) a) :
    Wf (vmmDestroyAddressSpace s r) (live.erase r) := by
  rw [vmmDestroyAddressSpace_eq]
  have hwf := h.mono (Finset.erase_subset r live)
  refine hwf.frame rfl (fun _ _ => rfl) ?_ fun t ht hmem => ?_
  · exact h.stack.freeAll _ fun a ha => h.freedPages_aligned hr hhuge ha
  · rcases mem_freeStack_freeAll _ hmem with hmem | hmem
    · exact hwf.used t ht hmem
    · rcases h.of_mem_freedPages hr hhuge hmem with ⟨q, hq⟩ | ⟨p, hp⟩
      · exact hpages q t hq ht
      · -- a table of this space is no table of another
        obtain ⟨r', hr', p', hp'⟩ := ht
        rcases hr' with rfl | hr'
        · obtain ⟨rfl, -⟩ := h.unique (s.kernel_mem_roots live) (Vmm.mem_roots hr) hp' hp
          exact h.kernel_notMem hr
        · rw [Finset.mem_coe, Finset.mem_erase] at hr'
          exact hr'.1 (h.unique (Vmm.mem_roots hr'.2) (Vmm.mem_roots hr) hp' hp).1

/-- A call reads the space's tables. -/
theorem mem_readBelow (hhuge : s.NoHuge r) (n : Nat) : ∀ (P : List (Fin 512)) (t : Nat)
    (i : Fin 512), s.table r P = some t → P.length + n = 3 → s.Own r P i →
    ∀ a ∈ readBelow s.mem n t i, ∃ p, s.table r p = some a := by
  induction n with
  | zero =>
    intro P t i ht _ _ a ha
    obtain rfl := List.mem_singleton.mp ha
    exact ⟨P, ht⟩
  | succ n ih =>
    intro P t i ht hlen hown a ha
    rcases List.mem_cons.mp ha with rfl | ha
    · exact ⟨P, ht⟩
    · split at ha
      · next hpres =>
        have hnext : s.table r (i :: P) = some (pageOf (s.mem t i)) := by
          rw [Vmm.table_cons ht, Vmm.edge_of_own hown, if_pos]
          refine ⟨by omega, hpres, fun hc => hhuge P i hc.1 ?_⟩
          rw [Vmm.IsHuge, Vmm.entry_of_table ht]
          exact ⟨hpres, hc.2⟩
        obtain ⟨j, -, hj⟩ := List.mem_flatMap.mp ha
        exact ih (i :: P) _ j hnext (by simp; omega) (Vmm.own_of_ne_nil (by simp)) a hj
      · simp at ha

theorem Wf.mem_readPages (hhuge : s.NoHuge r) {a : Nat} (ha : a ∈ readPages s.mem r) :
    ∃ p, s.table r p = some a := by
  obtain ⟨i, hi, ha⟩ := List.mem_flatMap.mp ha
  exact mem_readBelow hhuge 3 [] r i rfl rfl (Vmm.own_of_ne_zero (mem_userSlots.mp hi)) a ha

end Destroy

/-! ## Mapping and unmapping -/

section Map

variable {s s' : Vmm} {live : Finset Nat} {r : Nat} {q : PageNumber} {phys flags : BitVec 64}

/-- The entry of a 2 MiB leaf links no table. -/
theorem hugeEntry_isHuge (phys : BitVec 64) (h : hasFlag flags pageHuge = true) :
    hasFlag (phys &&& ~~~0x1FFFFF#64 ||| flags ||| pagePresent) pageHuge = true := by
  rw [hasFlag_or, hasFlag_or, h, Bool.or_true, Bool.true_or]

/-- Writing a leaf over a directory entry. -/
theorem Wf.setHuge (h : Wf s live) (hr : r ∈ s.roots live) {pd : Nat} {p : List (Fin 512)}
    {k : Fin 512} {e : BitVec 64} (hp : p.length = 2) (hpd : s.table r p = some pd)
    (he : hasFlag e pageHuge = true) :
    SetEdge s.edge (s.write pd k e).edge (s.roots live) r p pd k none :=
  h.setEdge hr hpd (Vmm.edge_none_of_huge hp (by rw [Vmm.write_mem_self, he])) (Or.inl hp)
    (Or.inl hp)

theorem Wf.writeHuge (h : Wf s live) (hr : r ∈ s.roots live) {pd : Nat} {p : List (Fin 512)}
    {k : Fin 512} {e : BitVec 64} (hp : p.length = 2) (hpd : s.table r p = some pd)
    (he : hasFlag e pageHuge = true) : Wf (s.write pd k e) live := by
  refine h.write (h.setHuge hr hp hpd he) ?_ fun y hy => by simp at hy
  rintro ⟨rfl, -⟩
  simp at hp

theorem WriteLeaf.of_page (h : Wf s live) (hr : r ∈ s.roots live) {pt : Nat}
    (hpt : s.table r q.path = some pt) (e : BitVec 64) :
    WriteLeaf s live r q.path pt q.2.2.2 e :=
  ⟨h, hr, hpt, Vmm.edge_none_of_length rfl, Vmm.edge_none_of_length rfl⟩

/-- Clearing a 2 MiB leaf. -/
theorem WriteLeaf.of_clear (h : Wf s live) (hr : r ∈ s.roots live) {pd : Nat} {p : List (Fin 512)}
    {k : Fin 512} (hp : p.length = 2) (hpd : s.table r p = some pd)
    (hhuge : hasFlag (s.mem pd k) pageHuge = true) : WriteLeaf s live r p pd k 0#64 :=
  ⟨h, hr, hpd, Vmm.edge_none_of_huge hp hhuge,
    Vmm.edge_none_of_not_present (by rw [Vmm.write_mem_self, zero_hasFlag])⟩

theorem MapResult.wf (h : Wf s live) (hr : r ∈ s.roots live)
    (hmap : MapResult live r q phys flags s s') : Wf s' live := by
  cases hmap with
  | exhausted hsteps _ _ => exact (hsteps.wf h).alloc
  | huge hflags hsteps hpd _ =>
    exact (hsteps.wf h).writeHuge (hsteps.roots ▸ hr) rfl hpd (hugeEntry_isHuge phys hflags)
  | page _ hsteps hpt =>
    exact (WriteLeaf.of_page (hsteps.wf h) (hsteps.roots ▸ hr) hpt _).wf_write (by simp)

theorem UnmapResult.wf (h : Wf s live) (hr : r ∈ s.roots live)
    (hunmap : UnmapResult live r q s s') : Wf s' live := by
  cases hunmap with
  | unmapped hsteps => exact hsteps.wf h
  | huge hsteps hpd hhuge =>
    exact (WriteLeaf.of_clear (hsteps.wf h) (hsteps.roots ▸ hr) rfl hpd hhuge).wf_write (by simp)
  | page hsteps hpt =>
    exact (WriteLeaf.of_page (hsteps.wf h) (hsteps.roots ▸ hr) hpt _).wf_write (by simp)

/-- The last write of a walk is to a table it has reached. -/
theorem LinkSteps.touched_write {t : Nat} {i : Fin 512} {e : BitVec 64} {p : List (Fin 512)}
    (hsteps : LinkSteps live r s s') (hr : r ∈ s.roots live) (ht : s'.table r p = some t)
    (hlog : ∀ t ∈ s.touched, s.IsTable live t) :
    ∀ a ∈ (s'.write t i e).touched, s'.IsTable live a := by
  intro a ha
  rcases List.mem_cons.mp ha with rfl | ha
  · exact ⟨r, hsteps.roots ▸ hr, p, ht⟩
  · exact hsteps.touched hlog a ha

end Map

/-! ## Steps -/

theorem Wf.unread {s : Vmm} {live : Finset Nat} (h : Wf s live) : Wf s.unread live :=
  h.frame rfl (fun _ _ => rfl) h.stack h.used

theorem World.add_of_ne {w : World} {out : Nat × Vmm} (hne : out.1 ≠ 0) :
    w.add out = ⟨out.2, insert out.1 w.live⟩ := by
  rw [World.add, if_neg hne]

theorem World.add_mk {w : World} {r : Nat} {s : Vmm} (hne : r ≠ 0) :
    w.add (r, s) = ⟨s, insert r w.live⟩ := World.add_of_ne hne

/-- **A call that meets the conditions keeps the tables a forest.** -/
theorem Wf.step {w w' : World} {op : VmmOp} (h : Wf w.vmm w.live) (hstep : vmmStep w op w') :
    Wf w'.vmm w'.live := by
  obtain ⟨⟨hvalid, htame⟩, rfl⟩ := hstep
  have hwf := h.unread
  -- each call is a sequence of steps that keep the forest
  cases op with
  | create =>
    rcases vmmCreateAddressSpace_cases hwf with ⟨-, heq⟩ | ⟨hx, heq⟩
    · simp only [VmmOp.run, heq]
      exact hwf.alloc
    · simp only [VmmOp.run, heq, World.add_mk hx]
      exact (hwf.create hx).wf
  | clone src =>
    have hclone := vmmCloneAddressSpace_spec hwf hvalid htame
    rw [VmmOp.run, World.add_of_ne hclone.created.fresh.ne_zero]
    exact hclone.steps.wf hclone.created.wf
  | map pml4 virt phys flags =>
    exact (vmmMap_spec hwf hvalid virt phys flags htame).wf hwf (Vmm.owner_mem_roots hvalid)
  | unmap pml4 virt =>
    exact (vmmUnmap_spec hwf hvalid virt).wf hwf (Vmm.owner_mem_roots hvalid)
  | destroy pml4 => exact hwf.destroy hvalid htame.1 htame.2
  | allocFrame => exact hwf.alloc
  | freeFrame addr =>
    refine h.frame rfl (fun _ _ => rfl) (h.stack.free hvalid.1) fun t ht hmem => ?_
    rcases mem_freeStack_free hmem with hmem | rfl
    · exact h.used t ht hmem
    · exact hvalid.2 ht
  | refInc addr =>
    refine h.frame rfl (fun _ _ => rfl) (h.stack.refInc addr) fun t ht hmem => ?_
    have hmem' : t ∈ (pmmRefInc w.vmm.pmm addr).freeStack := hmem
    rw [pmmRefInc_freeStack] at hmem'
    exact h.used t ht hmem'

/-- What such a call reads or writes as a table is one before the call, or after it. -/
theorem VmmOp.touched_isTable {w w' : World} {op : VmmOp} (h : Wf w.vmm w.live)
    (hstep : vmmStep w op w') : ∀ t ∈ w'.vmm.touched, w.IsTable t ∨ w'.IsTable t := by
  obtain ⟨⟨hvalid, htame⟩, rfl⟩ := hstep
  have hwf := h.unread
  have hlog : ∀ t ∈ w.vmm.unread.touched, w.vmm.unread.IsTable w.live t := fun t ht => by
    simp [Vmm.unread] at ht
  cases op with
  | create =>
    rcases vmmCreateAddressSpace_cases hwf with ⟨-, heq⟩ | ⟨hx, heq⟩
    · simp only [VmmOp.run, heq]
      exact fun t ht => Or.inl (hlog t ht)
    · have hcreated := hwf.create hx
      simp only [VmmOp.run, heq, World.add_mk hx]
      intro t ht
      have hnew : (w.vmm.unread.create (pmmAllocFrame w.vmm.unread.pmm).1).IsTable
          (insert (pmmAllocFrame w.vmm.unread.pmm).1 w.live) (pmmAllocFrame w.vmm.unread.pmm).1 :=
        ⟨_, Vmm.mem_roots (Finset.mem_insert_self _ _), [], rfl⟩
      rcases hcreated.mem_touched ht with rfl | rfl | ht
      · exact Or.inr hnew
      · exact Or.inl ⟨_, w.vmm.kernel_mem_roots w.live, [], rfl⟩
      · exact Or.inl (hlog t ht)
  | clone src =>
    have hclone := vmmCloneAddressSpace_spec hwf hvalid htame
    have hcreated := hclone.created
    rw [VmmOp.run, World.add_of_ne hcreated.fresh.ne_zero]
    refine fun t ht => Or.inr (hclone.steps.touched (fun t ht => ?_) t ht)
    have hroots : (w.vmm.unread.create (vmmCloneAddressSpace w.vmm.unread src).1).roots
        (insert (vmmCloneAddressSpace w.vmm.unread src).1 w.live) =
        insert (vmmCloneAddressSpace w.vmm.unread src).1 (w.vmm.unread.roots w.live) := by
      rw [Vmm.roots_congr hcreated.currentPml4, Vmm.roots_insert]
    have hnew : (w.vmm.unread.create (vmmCloneAddressSpace w.vmm.unread src).1).IsTable
        (insert (vmmCloneAddressSpace w.vmm.unread src).1 w.live)
        (vmmCloneAddressSpace w.vmm.unread src).1 :=
      ⟨_, hroots ▸ Set.mem_insert _ _, [], rfl⟩
    -- the walk starts with the tables of the new space, and reads those it reaches
    rcases hcreated.mem_touched ht with rfl | rfl | ht
    · exact hnew
    · exact ⟨_, hroots ▸ Set.mem_insert_of_mem _ (w.vmm.unread.kernel_mem_roots w.live), [], rfl⟩
    · simp [Vmm.unread] at ht
  | map pml4 virt phys flags =>
    have hr := Vmm.owner_mem_roots (s := w.vmm.unread) (i := pml4Index virt) hvalid
    have hmap := vmmMap_spec hwf hvalid virt phys flags htame
    refine fun t ht => ?_
    simp only [VmmOp.run] at ht
    simp only [VmmOp.run]
    generalize vmmMap w.vmm.unread pml4 virt phys flags = s' at hmap ht
    cases hmap with
    | exhausted hsteps _ _ => exact Or.inr (hsteps.touched hlog t ht)
    | @huge s₁ pd hflags hsteps hpd hkeep =>
      -- the leaf may take the place of a page table, which was there before the call
      obtain ⟨r', hr', p', hp'⟩ := hsteps.touched_write hr hpd hlog t ht
      by_cases hat : r' = w.vmm.unread.owner pml4 (pml4Index virt) ∧ p' = (pageNumber virt).path
      · obtain ⟨rfl, rfl⟩ := hat
        exact Or.inl ⟨_, hr, _, (hkeep _ rfl).symm.trans hp'⟩
      · refine Or.inr ⟨r', hr', p', ?_⟩
        have hset := (hsteps.wf hwf).setHuge (k := (pageNumber virt).2.2.1) (hsteps.roots ▸ hr) rfl
          hpd (hugeEntry_isHuge phys hflags)
        exact (Vmm.write_table hset hr' p').trans ((if_neg hat).trans hp')
    | @page s₁ pt _ hsteps hpt =>
      obtain ⟨r', hr', p', hp'⟩ := hsteps.touched_write hr hpt hlog t ht
      refine Or.inr ⟨r', hr', p', ?_⟩
      exact ((WriteLeaf.of_page (hsteps.wf hwf) (hsteps.roots ▸ hr) hpt _).write_table hr' p').trans hp'
  | unmap pml4 virt =>
    have hr := Vmm.owner_mem_roots (s := w.vmm.unread) (i := pml4Index virt) hvalid
    have hunmap := vmmUnmap_spec hwf hvalid virt
    refine fun t ht => Or.inr ?_
    simp only [VmmOp.run] at ht ⊢
    generalize vmmUnmap w.vmm.unread pml4 virt = s' at hunmap ht
    cases hunmap with
    | unmapped hsteps => exact hsteps.touched hlog t ht
    | huge hsteps hpd hhuge =>
      -- a leaf that is cleared leads to no table
      obtain ⟨r', hr', p', hp'⟩ := hsteps.touched_write hr hpd hlog t ht
      have hleaf := WriteLeaf.of_clear (hsteps.wf hwf) (hsteps.roots ▸ hr) rfl hpd hhuge
      exact ⟨r', hr', p', (hleaf.write_table hr' p').trans hp'⟩
    | page hsteps hpt =>
      obtain ⟨r', hr', p', hp'⟩ := hsteps.touched_write hr hpt hlog t ht
      have hleaf := WriteLeaf.of_page (hsteps.wf hwf) (hsteps.roots ▸ hr) hpt 0#64
      exact ⟨r', hr', p', (hleaf.write_table hr' p').trans hp'⟩
  | destroy pml4 =>
    -- the tables that are freed were there before
    refine fun t ht => Or.inl ?_
    simp only [VmmOp.run, vmmDestroyAddressSpace_eq, Vmm.freeAll] at ht
    rcases List.mem_append.mp ht with ht | ht
    · obtain ⟨p, hp⟩ := Wf.mem_readPages htame.1 (List.mem_reverse.mp ht)
      exact ⟨pml4, Vmm.mem_roots hvalid, p, hp⟩
    · exact hlog t ht
  | allocFrame => exact fun t ht => by simp [VmmOp.run, Vmm.unread] at ht
  | freeFrame addr => exact fun t ht => by simp [VmmOp.run, Vmm.unread] at ht
  | refInc addr => exact fun t ht => by simp [VmmOp.run, Vmm.unread] at ht

end ZohoOs
