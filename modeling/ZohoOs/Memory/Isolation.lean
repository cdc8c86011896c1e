import ZohoOs.Memory.BootTables
import ZohoOs.Memory.Translation

/-!
# Isolation of address spaces

Every address space takes slot 0 of its root from the kernel's, so all of them hold the same tables
below it. A mapping there is one in every space; a mapping in any other slot is the space's own.

## Main definitions

* `Isolated`: mapping a page in one space leaves another as it was

## Main results

* `isolated_iff`: two spaces are isolated at an address iff it is outside slot 0
* `vmmMap_leaks`: on the machine at boot, a page mapped in one space shows up in another
-/

namespace ZohoOs

open Forest TransitionSystem

/-- Mapping any page at `virt` in the space `a`, for user mode, changes no translation of `b`. -/
def Isolated (s : Vmm) (a b : Nat) (virt : BitVec 64) : Prop :=
  ∀ phys flags, hasFlag flags pageUser = true → ∀ addr,
    vmmGetPhys (vmmMap s a virt phys flags) b addr = vmmGetPhys s b addr ∧
    vmmGetFlags (vmmMap s a virt phys flags) b addr = vmmGetFlags s b addr

/-- The address is under a 2 MiB leaf of the space. -/
def Vmm.Large (s : Vmm) (a : Nat) (virt : BitVec 64) : Prop :=
  s.IsHuge (s.owner a (pml4Index virt)) [pdptIndex virt, pml4Index virt] (pdIndex virt)

section Map

variable {s s' : Vmm} {live : Finset Nat} {a b r : Nat} {q : PageNumber} {phys flags : BitVec 64}

theorem MapResult.currentPml4 (h : MapResult live r q phys flags s s') :
    s'.currentPml4 = s.currentPml4 := by
  cases h with
  | exhausted hsteps _ _ => exact hsteps.currentPml4
  | huge _ hsteps _ _ => exact hsteps.currentPml4
  | page _ hsteps _ => exact hsteps.currentPml4

/-- Mapping below one root keeps the tables of the others. -/
theorem MapResult.mem_of_ne (h : MapResult live r q phys flags s s') (hwf : Wf s live)
    (hr : r ∈ s.roots live) {r' t : Nat} {p : List (Fin 512)} (hr' : r' ∈ s.roots live)
    (hne : r' ≠ r) (ht : s.table r' p = some t) : s'.mem t = s.mem t := by
  -- the table written at the end is `r`'s
  have hwrite : ∀ {s₁ : Vmm} {t₁ : Nat} {p₁ : List (Fin 512)} (i : Fin 512) (e : BitVec 64),
      LinkSteps live r s s₁ → s₁.table r p₁ = some t₁ → (s₁.write t₁ i e).mem t = s.mem t := by
    intro s₁ t₁ p₁ i e hsteps ht₁
    rw [Vmm.write_mem_of_table_ne, hsteps.mem_of_ne hr' hne ht]
    rintro rfl
    exact hne ((hsteps.wf hwf).unique (hsteps.roots ▸ hr') (hsteps.roots ▸ hr)
      (hsteps.table_mono hr' ht) ht₁).1
  cases h with
  | exhausted hsteps _ _ => exact hsteps.mem_of_ne hr' hne ht
  | huge _ hsteps hpd _ => exact hwrite _ _ hsteps hpd
  | page _ hsteps hpt => exact hwrite _ _ hsteps hpt

theorem Vmm.mapNeeds_le (s : Vmm) (r : Nat) (q : PageNumber) : s.mapNeeds r q ≤ 3 := by
  have hmissing : ∀ p, s.missing r p ≤ 1 := by
    intro p
    unfold Vmm.missing
    split <;> omega
  have h₁ := hmissing [q.1]
  have h₂ := hmissing [q.2.1, q.1]
  have h₃ := hmissing q.path
  unfold Vmm.mapNeeds
  omega

/-- **Outside slot 0**, a mapping is the space's own. -/
theorem isolated_of_slot (h : Wf s live) (ha : a ∈ live) (hb : b ∈ live) (hne : a ≠ b)
    {virt : BitVec 64} (hleaf : ¬ s.Large a virt) (hslot : pml4Index virt ≠ 0) :
    Isolated s a b virt := by
  intro phys flags _ addr
  have hr : s.owner a (pml4Index virt) = a := if_neg hslot
  have hmap := vmmMap_spec h (Vmm.mem_roots ha) virt phys flags (Or.inr fun hunder => hleaf hunder.1)
  have hroot : s.owner a (pml4Index virt) ∈ s.roots live := Vmm.owner_mem_roots (Vmm.mem_roots ha)
  refine translation_congr h (hmap.wf h hroot) (Vmm.mem_roots hb) hmap.currentPml4 ?_ addr
  rintro r (rfl | rfl) p t ht
  · exact hmap.mem_of_ne h hroot (Vmm.mem_roots hb) (by rw [hr]; exact hne.symm) ht
  · refine hmap.mem_of_ne h hroot (s.kernel_mem_roots live) ?_ ht
    rw [hr]
    exact fun he => h.kernel_notMem (he ▸ ha)

/-- **In slot 0**, every space sees the flags of the mapping. -/
theorem vmmGetFlags_vmmMap (h : Wf s live) (ha : a ∈ live) (hb : b ∈ live) {virt : BitVec 64}
    (hleaf : ¬ s.Large a virt) (hslot : pml4Index virt = 0) (hav : s.pmm.Available 3)
    (phys : BitVec 64) (hsmall : hasFlag flags pageHuge = false) :
    vmmGetFlags (vmmMap s a virt phys flags) b virt = (flags ||| pagePresent) &&& 0xFFF#64 := by
  have howner : ∀ r, s.owner r (pml4Index virt) = s.currentPml4 := fun r => if_pos hslot
  have hmap := vmmMap_spec h (Vmm.mem_roots ha) virt phys flags (Or.inr fun hunder => hleaf hunder.1)
  have hwf := hmap.wf h (Vmm.owner_mem_roots (Vmm.mem_roots ha))
  rw [howner a] at hmap
  obtain ⟨s₁, pt, hsteps, hpt, heq⟩ := hmap.of_available (hav.mono (s.mapNeeds_le _ _)) hsmall
  rw [heq] at hwf ⊢
  have hkr := hsteps.currentPml4
  have hroot : s.currentPml4 ∈ s₁.roots live := hsteps.roots ▸ s.kernel_mem_roots live
  have hwrite := WriteLeaf.of_page (hsteps.wf h) hroot hpt
    (phys &&& ~~~0xFFF#64 ||| flags ||| pagePresent)
  have hpt' := (hwrite.write_table hroot (pageNumber virt).path).trans hpt
  have hpte := hwrite.write_entry hroot (pageNumber virt).path (pageNumber virt).2.2.2
  rw [if_pos ⟨rfl, rfl, rfl⟩] at hpte
  rw [vmmGetFlags_eq hwf (r := s.currentPml4) (Vmm.mem_roots hb)
    ((if_pos hslot).trans hkr) rfl, (Vmm.pde_of_table hpt').2, if_neg (by simp), Vmm.pte, hpte]
  -- the address has no low bits
  ext i hi
  simp only [BitVec.getElem_and, BitVec.getElem_or, BitVec.getElem_not]
  cases phys[i] <;> cases (0xFFF#64)[i] <;> simp

/-- Two mappings in slot 0 that differ in their flags leave no space as it was. -/
theorem not_isolated_of_slot (h : Wf s live) (ha : a ∈ live) (hb : b ∈ live) {virt : BitVec 64}
    (hleaf : ¬ s.Large a virt) (hslot : pml4Index virt = 0) (hav : s.pmm.Available 3) :
    ¬ Isolated s a b virt := by
  intro hiso
  have hro := (hiso 0#64 pageUser (by decide) virt).2
  have hrw := (hiso 0#64 (pageUser ||| pageWritable) (by decide) virt).2
  rw [vmmGetFlags_vmmMap h ha hb hleaf hslot hav 0#64 (by decide)] at hro hrw
  exact absurd (hro.trans hrw.symm) (by decide)

end Map

/-- **When two address spaces are isolated.** In every run: with enough frames and outside the
2 MiB leaves, a page mapped at an address of one space leaves the other as it was iff the
address is outside slot 0. -/
theorem isolated_iff {w₀ w : World} {ops : List VmmOp} (h₀ : Wf w₀.vmm w₀.live)
    (hrun : Run vmmStep w₀ ops w) {a b : Nat} (ha : a ∈ w.live) (hb : b ∈ w.live) (hne : a ≠ b)
    (virt : BitVec 64) (hleaf : ¬ w.vmm.Large a virt) (hav : w.vmm.pmm.Available 3) :
    Isolated w.vmm a b virt ↔ pml4Index virt ≠ 0 := by
  have hwf : Wf w.vmm w.live :=
    hrun.invariant (I := fun w : World => Wf w.vmm w.live) (fun _ _ _ h hs => h.step hs) h₀
  constructor
  · intro hiso hslot
    exact not_isolated_of_slot hwf ha hb hleaf hslot hav hiso
  · exact isolated_of_slot hwf ha hb hne hleaf

/-! ## Two spaces at boot -/

/-- Creating a space takes the top frame. -/
theorem vmmStep_create {w : World} (h : Wf w.vmm w.live) {x : Nat} {l : List Nat}
    (hstack : w.vmm.pmm.freeStack = x :: l) (hx : x ≠ 0) :
    ∃ s, vmmStep w .create ⟨s, insert x w.live⟩ ∧ Created w.vmm.unread w.live s x ∧
      s.pmm.freeStack = l := by
  have htop : (pmmAllocFrame w.vmm.unread.pmm).1 = x := by
    rw [pmmAllocFrame, show w.vmm.unread.pmm.freeStack = x :: l from hstack]
  have hne : (pmmAllocFrame w.vmm.unread.pmm).1 ≠ 0 := htop ▸ hx
  rcases vmmCreateAddressSpace_cases h.unread with ⟨hzero, -⟩ | ⟨-, heq⟩
  · exact absurd hzero hne
  have hcreated := h.unread.create hne
  rw [htop] at heq hcreated
  refine ⟨w.vmm.unread.create x, ⟨⟨trivial, trivial⟩, ?_⟩, hcreated, ?_⟩
  · rw [Apply, VmmOp.run, heq, World.add_mk hx]
  · rw [hcreated.pmm, freeStack_alloc, show w.vmm.unread.pmm.freeStack = x :: l from hstack]
    rfl

/-- The machine at boot, after two spaces are created. -/
theorem bootWorld_spaces : ∃ pmm w, pmmInit bootMachine 0x106000 = some pmm ∧
    Wf (bootWorld pmm).vmm (bootWorld pmm).live ∧ Run vmmStep (bootWorld pmm) [.create, .create] w ∧
    0x10D000 ∈ w.live ∧ 0x10C000 ∈ w.live ∧ w.vmm.pmm.Available 3 ∧
    w.vmm.currentPml4 = 0x100000 ∧
    (∀ p i, w.vmm.entry 0x100000 p i = (bootWorld pmm).vmm.entry 0x100000 p i) ∧
    ∀ p t, w.vmm.table 0x10D000 p = some t → p = [] := by
  obtain ⟨pmm, h, hstack⟩ := pmmInit_bootMachine
  have hwf := bootWorld_wf h hstack
  obtain ⟨s₁, hstep₁, hc₁, hl₁⟩ := vmmStep_create hwf hstack (by decide)
  obtain ⟨s₂, hstep₂, hc₂, hl₂⟩ := vmmStep_create (w := ⟨s₁, _⟩) hc₁.wf hl₁ (by decide)
  have hk₁ : s₁.currentPml4 = 0x100000 := hc₁.currentPml4
  refine ⟨pmm, _, h, hwf, Run.cons hstep₁ (Run.single hstep₂), by simp, by simp, ?_,
    hc₂.currentPml4.trans hk₁, fun p i => ?_, fun p t ht => ?_⟩
  · rw [Pmm.Available, hl₂]
    decide
  · have hroot₁ : 0x100000 ∈ s₁.unread.roots (insert 0x10D000 ∅) := Set.mem_insert_iff.mpr (Or.inl hk₁.symm)
    exact (hc₂.entry_old hroot₁ p i).trans
      (hc₁.entry_old (Set.mem_insert_iff.mpr (Or.inl rfl)) p i)
  · have hroot : 0x10D000 ∈ s₁.unread.roots (insert 0x10D000 ∅) := Vmm.mem_roots (by simp)
    exact (hc₁.table_new ((hc₂.table_old hroot p).symm.trans ht)).1

/-- At boot, and outside slot 0: what the first space maps there, the second does not see. -/
theorem isolated_iff_boot : ∃ pmm w, pmmInit bootMachine 0x106000 = some pmm ∧
    Run vmmStep (bootWorld pmm) [.create, .create] w ∧
    (Isolated w.vmm 0x10D000 0x10C000 0x8000000000#64 ↔ pml4Index 0x8000000000#64 ≠ 0) := by
  obtain ⟨pmm, w, h, hwf, hrun, ha, hb, hav, -, -, hempty⟩ := bootWorld_spaces
  refine ⟨pmm, w, h, hrun, isolated_iff hwf hrun ha hb (by decide) _ ?_ hav⟩
  -- the space has no table but its root
  rintro ⟨hpres, -⟩
  rw [Vmm.owner, if_neg (by decide), Vmm.entry_of_none, zero_hasFlag] at hpres
  · exact absurd hpres (by decide)
  · by_contra hne
    obtain ⟨t, ht⟩ := Option.ne_none_iff_exists'.mp hne
    exact absurd (hempty _ t ht) (by simp)

/-- **The spaces share slot 0.** At boot, the first space maps a writable page at 4 GiB, and the
second space has it mapped too. -/
theorem vmmMap_leaks : ∃ pmm w, pmmInit bootMachine 0x106000 = some pmm ∧
    Run vmmStep (bootWorld pmm) [.create, .create] w ∧ 0x10D000 ∈ w.live ∧ 0x10C000 ∈ w.live ∧
    ¬ w.vmm.Large 0x10D000 0x100000000#64 ∧ w.vmm.pmm.Available 3 ∧
    vmmGetFlags w.vmm 0x10C000 0x100000000#64 = 0#64 ∧
    vmmGetFlags (vmmMap w.vmm 0x10D000 0x100000000#64 0x300000#64 (pageUser ||| pageWritable))
      0x10C000 0x100000000#64 = 0x7#64 := by
  obtain ⟨pmm, w, h, hwf, hrun, ha, hb, hav, hkr, hkernel, -⟩ := bootWorld_spaces
  have hw : Wf w.vmm w.live :=
    hrun.invariant (I := fun w : World => Wf w.vmm w.live) (fun _ _ _ h hs => h.step hs) hwf
  have howner : ∀ r, w.vmm.owner r (pml4Index 0x100000000#64) = 0x100000 := by
    intro r
    rw [Vmm.owner, if_pos (by decide), hkr]
  -- the pointer table at boot has four entries, and this address needs the fifth
  have hnone : (bootWorld pmm).vmm.table 0x100000 [4, 0] = none := by
    have hpdpt : (bootWorld pmm).vmm.table 0x100000 [0] = some 0x101000 := by
      rw [Vmm.table_cons (Vmm.table_nil _ _), Vmm.edge_of_own (s := (bootWorld pmm).vmm) (r := 0x100000)
        fun hc => hc.1 rfl, bootWorld_p4]
      decide
    rw [Vmm.table_cons hpdpt]
    refine Vmm.edge_none_of_not_present ?_
    rw [bootWorld_p3]
    decide
  have hpde : w.vmm.pde 0x100000 (pageNumber 0x100000000#64) = 0#64 := by
    rw [Vmm.pde, hkernel]
    exact Vmm.entry_of_none hnone _
  have hpte : w.vmm.pte 0x100000 (pageNumber 0x100000000#64) = 0#64 := by
    rw [Vmm.pte, hkernel]
    exact Vmm.entry_of_none (Vmm.table_none_of_suffix hnone ⟨[0], rfl⟩) _
  have hleaf : ¬ w.vmm.Large 0x10D000 0x100000000#64 := by
    rintro ⟨hpres, -⟩
    rw [howner] at hpres
    have hzero : hasFlag (w.vmm.pde 0x100000 (pageNumber 0x100000000#64)) pagePresent = true := hpres
    rw [hpde, zero_hasFlag] at hzero
    exact absurd hzero (by decide)
  refine ⟨pmm, w, h, hrun, ha, hb, hleaf, hav, ?_, ?_⟩
  · rw [vmmGetFlags_eq hw (Vmm.mem_roots hb) (howner _) rfl, hpde, hpte, zero_hasFlag]
    rfl
  · rw [vmmGetFlags_vmmMap hw ha hb hleaf (by decide) hav _ (by decide)]
    decide

end ZohoOs
