import ZohoOs.Memory.CowSpaces
import ZohoOs.Memory.PageMap

/-!
# Addresses that are not mapped

`vmm_get_phys` answers 0 where its walk stops at a missing table. Where the walk reaches a page table
it answers the address bits of the entry with the offset of the address, whether the entry is present
or not: an address off the start of its page is answered by its offset.

## Main definitions

* `walkEntry`: the entry the walks of `vmmGetPhys` and `vmmGetFlags` end at
* `ReportsUnmapped`: an address without `PAGE_PRESENT` is answered by 0
* `Clean`: the entries without `PAGE_PRESENT` are zero

## Main results

* `Clean.step`: every call keeps it
* `vmmGetPhys_unmapped_iff`: when an address that is not mapped is answered by 0
-/

namespace ZohoOs

open Forest TransitionSystem

/-! ## Where a walk ends -/

/-- The entry at which the walks over `virt` end, with the mask of the offset in its page. There is
none where a table is missing. -/
def walkEntry (s : Vmm) (pml4 : Nat) (virt : BitVec 64) : Option (BitVec 64 × BitVec 64) :=
  let pdpt := getExistingTable s pml4 (pml4Index virt)
  if pdpt = 0 then none
  else
    let pd := getExistingTable s pdpt (pdptIndex virt)
    if pd = 0 then none
    else if hasFlag (s.mem pd (pdIndex virt)) pageHuge then
      some (s.mem pd (pdIndex virt), 0x1FFFFF#64)
    else
      let pt := getExistingTable s pd (pdIndex virt)
      if pt = 0 then none else some (s.mem pt (ptIndex virt), 0xFFF#64)

/-- `vmmGetPhys` answers 0 where `vmmGetFlags` has no `PAGE_PRESENT`. -/
def ReportsUnmapped (s : Vmm) (pml4 : Nat) (virt : BitVec 64) : Prop :=
  hasFlag (vmmGetFlags s pml4 virt) pagePresent = false → vmmGetPhys s pml4 virt = 0#64

section Walk

variable {s : Vmm} {pml4 : Nat} {virt : BitVec 64}

theorem vmmGetFlags_walkEntry : vmmGetFlags s pml4 virt =
    (walkEntry s pml4 virt).elim 0#64 fun leaf => leaf.1 &&& 0xFFF#64 := by
  unfold vmmGetFlags walkEntry
  dsimp only
  split_ifs <;> rfl

theorem vmmGetPhys_walkEntry : vmmGetPhys s pml4 virt =
    (walkEntry s pml4 virt).elim 0#64 fun leaf =>
      leaf.1 &&& ~~~leaf.2 ||| virt &&& leaf.2 := by
  unfold vmmGetPhys walkEntry
  dsimp only
  split_ifs <;> rfl

/-- **When an address is answered by 0**, in any state: an entry that is not present must have no
address bits, and the address no offset. -/
theorem reportsUnmapped_iff : ReportsUnmapped s pml4 virt ↔
    ∀ e mask, walkEntry s pml4 virt = some (e, mask) → hasFlag e pagePresent = false →
      e &&& ~~~mask = 0#64 ∧ virt &&& mask = 0#64 := by
  unfold ReportsUnmapped
  rw [vmmGetFlags_walkEntry, vmmGetPhys_walkEntry]
  cases hwalk : walkEntry s pml4 virt with
  | none => simp
  | some leaf =>
    obtain ⟨e, mask⟩ := leaf
    simp only [Option.elim_some, Option.some.injEq, Prod.mk.injEq, BitVec.or_eq_zero_iff]
    rw [hasFlag_low e (by decide)]
    constructor
    · rintro h _ _ ⟨rfl, rfl⟩ habsent
      exact h habsent
    · intro h habsent
      exact h e mask ⟨rfl, rfl⟩ habsent

end Walk

/-! ## Entries that are not present -/

/-- Each entry of the tables is zero, or has `PAGE_PRESENT`. -/
def Clean (s : Vmm) (live : Finset Nat) : Prop :=
  ∀ r ∈ s.roots live, ∀ p i, s.entry r p i = 0#64 ∨ hasFlag (s.entry r p i) pagePresent = true

section Clean

variable {s s' : Vmm} {live : Finset Nat} {r : Nat}

theorem Clean.mono (h : Clean s live) {live' : Finset Nat} (hsub : live' ⊆ live) :
    Clean s live' :=
  fun r hr => h r (Set.insert_subset_insert (Finset.coe_subset.mpr hsub) hr)

/-- A change of entries to zero, or to entries with `PAGE_PRESENT`. -/
theorem Clean.of_entries (h : Clean s live) (hroots : s'.roots live = s.roots live)
    (hentry : ∀ r ∈ s.roots live, ∀ p i, s'.entry r p i = s.entry r p i ∨ s'.entry r p i = 0#64 ∨
      hasFlag (s'.entry r p i) pagePresent = true) : Clean s' live := by
  intro r hr p i
  rw [hroots] at hr
  rcases hentry r hr p i with heq | hnew
  · rw [heq]
    exact h r hr p i
  · exact hnew

theorem Clean.linkStep (h : Clean s live) (hstep : LinkStep live r s s') : Clean s' live := by
  cases hstep with
  | touch => exact h
  | link hlink =>
    refine h.of_entries (Vmm.roots_congr hlink.link_currentPml4) fun r' hr' p' j => ?_
    rw [hlink.link_entry hr']
    split
    · exact Or.inr (Or.inr (linkEntry_present _))
    · exact Or.inl rfl

theorem Clean.linkSteps (h : Clean s live) (hsteps : LinkSteps live r s s') : Clean s' live := by
  induction hsteps with
  | refl => exact h
  | tail _ hstep ih => exact ih.linkStep hstep

theorem Clean.writeLeaf {p : List (Fin 512)} {t : Nat} {i : Fin 512} {e : BitVec 64}
    (h : Clean s live) (hwrite : WriteLeaf s live r p t i e)
    (he : e = 0#64 ∨ hasFlag e pagePresent = true) : Clean (s.write t i e) live := by
  refine h.of_entries rfl fun r' hr' p' j => ?_
  rw [hwrite.write_entry hr']
  split
  · exact Or.inr he
  · exact Or.inl rfl

/-- What a 2 MiB leaf is written over is no longer linked. -/
theorem Wf.writeHuge_table (h : Wf s live) (hr : r ∈ s.roots live) {pd : Nat} {p : List (Fin 512)}
    {k : Fin 512} {e : BitVec 64} (hp : p.length = 2) (hpd : s.table r p = some pd)
    (he : hasFlag e pageHuge = true) {r' : Nat} (hr' : r' ∈ s.roots live) (p' : List (Fin 512)) :
    (s.write pd k e).table r' p' = if r' = r ∧ p' = k :: p then none else s.table r' p' :=
  Vmm.write_table (h.setHuge hr hp hpd he) hr' p'

/-- Writing a 2 MiB leaf: its entry is set, and the entries of the page table it is written over
are gone. -/
theorem Wf.writeHuge_entry (h : Wf s live) (hr : r ∈ s.roots live) {pd : Nat} {p : List (Fin 512)}
    {k : Fin 512} {e : BitVec 64} (hp : p.length = 2) (hpd : s.table r p = some pd)
    (he : hasFlag e pageHuge = true) {r' : Nat} (hr' : r' ∈ s.roots live) (p' : List (Fin 512))
    (j : Fin 512) : (s.write pd k e).entry r' p' j =
      if r' = r ∧ p' = k :: p then 0#64 else if r' = r ∧ p' = p ∧ j = k then e
        else s.entry r' p' j := by
  have htable := h.writeHuge_table (k := k) hr hp hpd he hr' p'
  split at htable
  · next hbelow => rw [if_pos hbelow, Vmm.entry_of_none htable]
  · next hbelow =>
    rw [if_neg hbelow]
    cases ht : s.table r' p' with
    | none =>
      rw [Vmm.entry_of_none (htable.trans ht), Vmm.entry_of_none ht, if_neg]
      rintro ⟨rfl, rfl, -⟩
      rw [hpd] at ht
      cases ht
    | some t =>
      rw [Vmm.entry_of_table (htable.trans ht), Vmm.entry_of_table ht]
      split
      · next hself =>
        obtain ⟨rfl, rfl, rfl⟩ := hself
        obtain rfl := Option.some.inj (hpd.symm.trans ht)
        exact Vmm.write_mem_self s pd j e
      · next hself =>
        -- a table is reached along one path only
        refine Vmm.write_mem_of_ne s pd k e ?_
        rintro ⟨rfl, rfl⟩
        obtain ⟨rfl, rfl⟩ := h.unique hr' hr ht hpd
        exact hself ⟨rfl, rfl, rfl⟩

theorem Clean.map {q : PageNumber} {phys flags : BitVec 64} (h : Clean s live) (hwf : Wf s live)
    (hr : r ∈ s.roots live) (hmap : MapResult live r q phys flags s s') : Clean s' live := by
  have hpres : ∀ e, hasFlag (e ||| pagePresent) pagePresent = true := by
    intro e
    rw [hasFlag_or, show hasFlag pagePresent pagePresent = true by decide, Bool.or_true]
  cases hmap with
  | exhausted hsteps _ _ =>
    have hclean := h.linkSteps hsteps
    exact hclean
  | huge hflags hsteps hpd _ =>
    refine (h.linkSteps hsteps).of_entries rfl fun r' hr' p' j => ?_
    rw [(hsteps.wf hwf).writeHuge_entry (hsteps.roots ▸ hr) rfl hpd (hugeEntry_isHuge phys hflags)
      hr']
    split
    · exact Or.inr (Or.inl rfl)
    · split
      · exact Or.inr (Or.inr (hpres _))
      · exact Or.inl rfl
  | page _ hsteps hpt =>
    have hwrite := WriteLeaf.of_page (hsteps.wf hwf) (hsteps.roots ▸ hr) hpt
    exact (h.linkSteps hsteps).writeLeaf (hwrite _) (Or.inr (hpres _))

theorem Clean.unmap {q : PageNumber} (h : Clean s live) (hwf : Wf s live) (hr : r ∈ s.roots live)
    (hunmap : UnmapResult live r q s s') : Clean s' live := by
  cases hunmap with
  | unmapped hsteps => exact h.linkSteps hsteps
  | huge hsteps hpd hhuge =>
    have hwrite := WriteLeaf.of_clear (hsteps.wf hwf) (hsteps.roots ▸ hr) rfl hpd hhuge
    exact (h.linkSteps hsteps).writeLeaf hwrite (Or.inl rfl)
  | page hsteps hpt =>
    have hwrite := WriteLeaf.of_page (hsteps.wf hwf) (hsteps.roots ▸ hr) hpt
    exact (h.linkSteps hsteps).writeLeaf (hwrite _) (Or.inl rfl)

/-- A new space holds the kernel's slot, which is present. -/
theorem Clean.create {x : Nat} (h : Clean s live) (hc : Created s live s' x) :
    Clean s' (insert x live) := by
  intro r hr p i
  rw [Vmm.roots_insert, Vmm.roots_congr hc.currentPml4] at hr
  rcases hr with rfl | hr
  · rcases eq_or_ne p [] with rfl | hp
    · rw [Vmm.entry_of_table (Vmm.table_nil s' r)]
      rcases eq_or_ne i 0 with rfl | hi
      · refine Or.inr ?_
        rw [hc.wf.kernel_slot r (Finset.mem_insert_self _ _)]
        exact hc.wf.kernel_present
      · exact Or.inl (hc.zero i hi)
    · exact Or.inl (hc.entry_new hp i)
  · rw [hc.entry_old hr]
    exact h r hr p i

/-- A leaf is copied with its present bit, whichever bits of it are the address. -/
theorem Clean.cloneLeaf {src dst ts td : Nat} {p : List (Fin 512)} {i : Fin 512} (h : Clean s live)
    (hcopy : CanCopy s live src dst p ts td i) (addrMask : BitVec 64) :
    Clean (cloneLeaf addrMask ts td s i) live := by
  refine h.of_entries (Vmm.roots_congr (cloneLeaf_currentPml4 _)) fun r' hr' p' j => ?_
  rw [hcopy.cloneLeaf_entry _ hr']
  split_ifs
  · exact Or.inr (Or.inr (leafCopy_present _ _))
  · exact Or.inr (Or.inr (leafCopy_present _ _))
  · exact Or.inl rfl

theorem Clean.cloneStep {src dst : Nat} (h : Clean s live) (hstep : CloneStep live src dst s s') :
    Clean s' live := by
  cases hstep with
  | grow hlink => exact h.linkStep hlink
  | page hcopy _ => exact h.cloneLeaf hcopy _
  | huge hcopy _ _ => exact h.cloneLeaf hcopy _

theorem Clean.cloneSteps {src dst : Nat} (h : Clean s live)
    (hsteps : CloneSteps live src dst s s') : Clean s' live := by
  induction hsteps with
  | refl => exact h
  | tail _ hstep ih => exact ih.cloneStep hstep

end Clean

/-- **Every call keeps the entries clean.** -/
theorem Clean.step {w w' : World} {op : VmmOp} (h : Clean w.vmm w.live) (hwf : Wf w.vmm w.live)
    (hstep : vmmStep w op w') : Clean w'.vmm w'.live := by
  obtain ⟨⟨hvalid, htame⟩, rfl⟩ := hstep
  have hwf := hwf.unread
  have h : Clean w.vmm.unread w.live := h
  cases op with
  | create =>
    rcases vmmCreateAddressSpace_cases hwf with ⟨-, heq⟩ | ⟨hx, heq⟩
    · simp only [VmmOp.run, heq]
      exact h
    · simp only [VmmOp.run, heq, World.add_mk hx]
      exact h.create (hwf.create hx)
  | clone src =>
    have hclone := vmmCloneAddressSpace_spec hwf hvalid htame
    rw [VmmOp.run, World.add_of_ne hclone.created.fresh.ne_zero]
    exact (h.create hclone.created).cloneSteps hclone.steps
  | map pml4 virt phys flags =>
    exact h.map hwf (Vmm.owner_mem_roots hvalid) (vmmMap_spec hwf hvalid virt phys flags htame)
  | unmap pml4 virt =>
    exact h.unmap hwf (Vmm.owner_mem_roots hvalid) (vmmUnmap_spec hwf hvalid virt)
  | destroy pml4 =>
    rw [VmmOp.run, vmmDestroyAddressSpace_eq]
    exact h.mono (Finset.erase_subset pml4 w.live)
  | allocFrame => exact h
  | freeFrame addr => exact h
  | refInc addr => exact h

/-- The entries of the boot page tables are zero, or have `PAGE_PRESENT`. -/
theorem bootWorld_clean (pmm : Pmm) : Clean (bootWorld pmm).vmm (bootWorld pmm).live := by
  have hpres : ∀ e flags : BitVec 64, hasFlag flags pagePresent = true →
      hasFlag (e ||| flags) pagePresent = true := by
    intro e flags hflags
    rw [hasFlag_or, hflags, Bool.or_true]
  intro r hr p i
  have hroots : (bootWorld pmm).vmm.roots (bootWorld pmm).live = {0x100000} := by
    simp [Vmm.roots, bootWorld, bootVmm]
  rw [hroots] at hr
  obtain rfl := hr
  cases ht : (bootWorld pmm).vmm.table 0x100000 p with
  | none => exact Or.inl (Vmm.entry_of_none ht i)
  | some t =>
    rw [Vmm.entry_of_table ht]
    rcases bootVmm_table (by decide) (by decide) ht with ⟨-, rfl⟩ | ⟨-, rfl⟩ | ⟨d, hd, -, rfl⟩
    · rw [bootWorld_p4]
      split
      · exact Or.inr (by decide)
      · exact Or.inl rfl
    · rw [bootWorld_p3]
      split
      · exact Or.inr (hpres _ _ (by decide))
      · exact Or.inl rfl
    · rw [bootWorld_p2 pmm hd rfl]
      exact Or.inr (hpres _ _ (by decide))

/-! ## 2 MiB leaves -/

section Large

variable {s : Vmm} {live : Finset Nat} {b : Nat} {v v' : BitVec 64}

theorem Clean.large_iff (h : Clean s live) (hb : b ∈ s.roots live) :
    s.Large b v ↔ hasFlag (s.pde (s.owner b (pml4Index v)) (pageNumber v)) pageHuge = true := by
  constructor
  · exact fun hlarge => hlarge.2
  · intro hhuge
    refine ⟨?_, hhuge⟩
    -- an entry that is not zero is present
    refine (h _ (Vmm.owner_mem_roots hb) _ _).resolve_left fun hzero => ?_
    rw [Vmm.pde] at hhuge
    simp only [pageNumber] at hhuge
    rw [hzero, zero_hasFlag] at hhuge
    cases hhuge

/-- A leaf is over all pages of its block. -/
theorem Vmm.large_congr (h : (pageNumber v).directory = (pageNumber v').directory) :
    s.Large b v ↔ s.Large b v' := by
  simp only [PageNumber.directory, pageNumber, Prod.mk.injEq] at h
  rw [Vmm.Large, Vmm.Large, h.1, h.2.1, h.2.2]

end Large

/-! ## Unmapped addresses of reachable spaces -/

/-- In a clean space, an address is not answered by 0 just when a page table is linked over it, its
entry is not present, and the address is off the start of its page. -/
theorem Clean.reportsUnmapped_iff {s : Vmm} {live : Finset Nat} {b : Nat} (h : Clean s live)
    (hwf : Wf s live) (hb : b ∈ s.roots live) (virt : BitVec 64) :
    ReportsUnmapped s b virt ↔
      s.table (s.owner b (pml4Index virt)) (pageNumber virt).path = none ∨
      hasFlag (s.pte (s.owner b (pml4Index virt)) (pageNumber virt)) pagePresent = true ∨
      virt &&& 0xFFF#64 = 0#64 := by
  have hroot := Vmm.owner_mem_roots (i := pml4Index virt) hb
  unfold ReportsUnmapped
  rw [vmmGetFlags_eq hwf hb rfl rfl, vmmGetPhys_eq hwf hb rfl rfl]
  generalize s.owner b (pml4Index virt) = r at hroot ⊢
  generalize pageNumber virt = q
  by_cases hhuge : hasFlag (s.pde r q) pageHuge = true
  · -- a directory entry that is not zero is present
    have hpres : hasFlag (s.pde r q) pagePresent = true := by
      refine (h r hroot [q.2.1, q.1] q.2.2.1).resolve_left fun hzero => ?_
      rw [Vmm.pde, hzero, zero_hasFlag] at hhuge
      cases hhuge
    have hnone : s.table r q.path = none := by
      by_contra hne
      obtain ⟨t, ht⟩ := Option.ne_none_iff_exists'.mp hne
      rw [(Vmm.pde_of_table ht).2] at hhuge
      cases hhuge
    rw [if_pos hhuge, hasFlag_low _ (by decide), hpres]
    simp [hnone]
  -- a page table entry, if there is a page table
  · rw [if_neg hhuge, if_neg hhuge, hasFlag_low _ (by decide)]
    rcases Option.eq_none_or_eq_some (s.table r q.path) with hnone | ⟨t, ht⟩
    · simp [hnone]
    · rw [if_neg (by rw [ht]; simp)]
      -- where the tables are clean, an entry is zero or present
      rcases h r hroot q.path q.2.2.2 with hzero | hpres
      · have hpte : s.pte r q = 0#64 := hzero
        simp [hpte, ht]
      · have hpte : hasFlag (s.pte r q) pagePresent = true := hpres
        simp [hpte]

/-- **When an address that is not mapped is answered by 0.** In every run of calls: iff no page table
is linked over the address, or it is mapped, or it is the start of a page. In any state at all: iff
the entry the walk ends at is present, or has no address bits while the address has no offset. -/
theorem vmmGetPhys_unmapped_iff {w₀ w : World} {ops : List VmmOp} (h₀ : Wf w₀.vmm w₀.live)
    (hclean : Clean w₀.vmm w₀.live) (hrun : Run vmmStep w₀ ops w) {b : Nat} (hb : b ∈ w.roots)
    (virt : BitVec 64) :
    (ReportsUnmapped w.vmm b virt ↔
      w.vmm.table (w.vmm.owner b (pml4Index virt)) (pageNumber virt).path = none ∨
      hasFlag (w.vmm.pte (w.vmm.owner b (pml4Index virt)) (pageNumber virt)) pagePresent = true ∨
      virt &&& 0xFFF#64 = 0#64) ∧
    ∀ (s : Vmm) (pml4 : Nat) (addr : BitVec 64), ReportsUnmapped s pml4 addr ↔
      ∀ e mask, walkEntry s pml4 addr = some (e, mask) → hasFlag e pagePresent = false →
        e &&& ~~~mask = 0#64 ∧ addr &&& mask = 0#64 := by
  have hinv : Wf w.vmm w.live ∧ Clean w.vmm w.live :=
    hrun.invariant (I := fun w : World => Wf w.vmm w.live ∧ Clean w.vmm w.live)
      (fun _ _ _ h hstep => ⟨h.1.step hstep, h.2.step h.1 hstep⟩) ⟨h₀, hclean⟩
  exact ⟨hinv.2.reportsUnmapped_iff hinv.1 hb virt, fun _ _ _ => reportsUnmapped_iff⟩

/-! ## A page at boot -/

/-- The machine at boot, after two spaces are created and a page is mapped in the first: the page is
the one entry of its page table. -/
theorem bootWorld_page : ∃ pmm w, pmmInit bootMachine 0x106000 = some pmm ∧
    Wf (bootWorld pmm).vmm (bootWorld pmm).live ∧ Run vmmStep (bootWorld pmm)
      [.create, .create, .map 0x10D000 0x8000000000#64 0x300000#64 0x7#64] w ∧
    0x10D000 ∈ w.live ∧ Wf w.vmm w.live ∧ (∀ q, hasFlag (w.vmm.pde 0x10D000 q) pageHuge = false) ∧
    w.vmm.table 0x10D000 (pageNumber 0x8000000000#64).path ≠ none ∧
    ∀ q, w.vmm.pte 0x10D000 q =
      if q = pageNumber 0x8000000000#64 then pageEntry 0x300000#64 0x7#64 else 0#64 := by
  obtain ⟨pmm, w, h, hwf, hrun, ha, hb, hav, -, -, hempty⟩ := bootWorld_spaces
  have hw : Wf w.vmm w.live :=
    hrun.invariant (I := fun w : World => Wf w.vmm w.live) (fun _ _ _ h hs => h.step hs) hwf
  -- the space has no table but its root
  have hnone : ∀ p, p ≠ [] → w.vmm.unread.table 0x10D000 p = none := by
    intro p hp
    by_contra hne
    obtain ⟨t, ht⟩ := Option.ne_none_iff_exists'.mp hne
    exact hp (hempty p t ht)
  have hpde : ∀ q, hasFlag (w.vmm.unread.pde 0x10D000 q) pageHuge = false := by
    intro q
    rw [Vmm.pde, Vmm.entry_of_none (hnone _ (by simp)), zero_hasFlag]
  have hset : EntrySet w.live 0x10D000 (pageNumber 0x8000000000#64) _ w.vmm.unread
      (vmmMap w.vmm.unread 0x10D000 0x8000000000#64 0x300000#64 0x7#64) :=
    vmmMap_entrySet hw.unread ha (by decide) hpde (by decide) _
  have hav' : w.vmm.unread.pmm.Available 3 := hav
  rw [if_pos (hav'.mono (Vmm.mapNeeds_le _ _ _))] at hset
  have hpte : ∀ q, (vmmMap w.vmm.unread 0x10D000 0x8000000000#64 0x300000#64 0x7#64).pte 0x10D000 q =
      if q = pageNumber 0x8000000000#64 then pageEntry 0x300000#64 0x7#64 else 0#64 := by
    intro q
    rw [hset.pte]
    split
    · rfl
    · exact Vmm.entry_of_none (hnone _ (by simp)) _
  have hstep : vmmStep w (.map 0x10D000 0x8000000000#64 0x300000#64 0x7#64)
      ⟨vmmMap w.vmm.unread 0x10D000 0x8000000000#64 0x300000#64 0x7#64, w.live⟩ := by
    refine ⟨⟨Vmm.mem_roots ha, Or.inr ?_⟩, rfl⟩
    rintro ⟨⟨hpres, -⟩, -⟩
    rw [Vmm.owner, if_neg (by decide)] at hpres
    have hzero : hasFlag (w.vmm.unread.entry 0x10D000 [0, 1] 0) pagePresent = true := hpres
    rw [Vmm.entry_of_none (hnone _ (by simp)), zero_hasFlag] at hzero
    cases hzero
  refine ⟨pmm, _, h, hwf, hrun.append (Run.single hstep), ha, hset.wf, hset.pde, ?_, hpte⟩
  intro hgone
  have hzero := Vmm.entry_of_none hgone (pageNumber 0x8000000000#64).2.2.2
  rw [← Vmm.pte, hpte, if_pos rfl] at hzero
  exact absurd hzero (by decide)

/-- At boot: an address of the page that is mapped. -/
theorem vmmGetPhys_unmapped_boot : ∃ pmm w, pmmInit bootMachine 0x106000 = some pmm ∧
    Run vmmStep (bootWorld pmm)
      [.create, .create, .map 0x10D000 0x8000000000#64 0x300000#64 0x7#64] w ∧
    hasFlag (w.vmm.pte 0x10D000 (pageNumber 0x8000000123#64)) pagePresent = true ∧
    ReportsUnmapped w.vmm 0x10D000 0x8000000123#64 := by
  obtain ⟨pmm, w, h, hwf, hrun, ha, -, -, -, hpte⟩ := bootWorld_page
  have hpres : hasFlag (w.vmm.pte 0x10D000 (pageNumber 0x8000000123#64)) pagePresent = true := by
    rw [hpte]
    decide
  refine ⟨pmm, w, h, hrun, hpres, ?_⟩
  apply (vmmGetPhys_unmapped_iff hwf (bootWorld_clean pmm) hrun (Vmm.mem_roots ha) _).1.mpr
  rw [Vmm.owner, if_neg (by decide)]
  exact Or.inr (Or.inl hpres)

/-- **An address that is not mapped is answered by its offset.** At boot, with the page before it
mapped. -/
theorem vmmGetPhys_offset : ∃ pmm w, pmmInit bootMachine 0x106000 = some pmm ∧
    Run vmmStep (bootWorld pmm)
      [.create, .create, .map 0x10D000 0x8000000000#64 0x300000#64 0x7#64] w ∧
    0x10D000 ∈ w.live ∧ vmmGetFlags w.vmm 0x10D000 0x8000001234#64 = 0#64 ∧
    vmmGetPhys w.vmm 0x10D000 0x8000001234#64 = 0x234#64 := by
  obtain ⟨pmm, w, h, -, hrun, ha, hw, hpde, htable, hpte⟩ := bootWorld_page
  have hroot : 0x10D000 ∈ w.vmm.roots w.live := Vmm.mem_roots ha
  have howner : w.vmm.owner 0x10D000 (pml4Index 0x8000001234#64) = 0x10D000 := if_neg (by decide)
  have hpath : (pageNumber 0x8000001234#64).path = (pageNumber 0x8000000000#64).path := by decide
  refine ⟨pmm, w, h, hrun, ha, ?_, ?_⟩
  · rw [vmmGetFlags_eq hw hroot howner rfl, hpde, hpte, if_neg (by simp), if_neg (by decide)]
    decide
  · rw [vmmGetPhys_eq hw hroot howner rfl, hpde, hpte, if_neg (by simp), hpath, if_neg htable,
      if_neg (by decide)]
    decide

end ZohoOs
