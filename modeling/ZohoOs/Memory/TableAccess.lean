import ZohoOs.Memory.BootTables

/-!
# What the walks read and write as page tables

`vmmUnmap`, `vmmGetPhys`, `vmmGetFlags` and `vmmCloneAddressSpace` look for `PAGE_HUGE` before they
go below a directory entry. `vmmMap` and `vmmDestroyAddressSpace` do not: under a 2 MiB leaf they
take the mapped memory for a page table. Calls that avoid this keep to the tables.

## Main results

* `vmmRun_touched_isTable`: in a run of such calls, every page read or written as a table is one
* `vmmMap_writes_leaf`: mapping a page under the boot identity map writes into the page it maps
-/

namespace ZohoOs

open Forest TransitionSystem

/-- **Only tables are read or written as tables.** From any machine whose tables form a forest, in
every run of calls that take no 2 MiB leaf for a table and no table for a page: the tables stay a
forest, and each page a call reads or writes as a page table is linked as one before the call or
after it. -/
theorem vmmRun_touched_isTable {w₀ w w' : World} {ops : List VmmOp} {op : VmmOp}
    (h₀ : Wf w₀.vmm w₀.live) (hrun : Run vmmStep w₀ ops w) (hstep : vmmStep w op w') :
    Wf w'.vmm w'.live ∧ ∀ t ∈ w'.vmm.touched, w.IsTable t ∨ w'.IsTable t := by
  have hwf : Wf w.vmm w.live :=
    hrun.invariant (I := fun w : World => Wf w.vmm w.live) (fun _ _ _ h hs => h.step hs) h₀
  exact ⟨hwf.step hstep, VmmOp.touched_isTable hwf hstep⟩

/-- On the machine at boot: a space is created, then a 2 MiB page is mapped in the kernel's. -/
theorem vmmRun_touched_isTable_boot :
    ∃ pmm w w', pmmInit bootMachine 0x106000 = some pmm ∧
      Run vmmStep (bootWorld pmm) [.create] w ∧
      vmmStep w (.map 0x100000 0x8000000000#64 0x200000#64 0x83#64) w' ∧
      ∀ t ∈ w'.vmm.touched, w.IsTable t ∨ w'.IsTable t := by
  obtain ⟨pmm, h, hstack⟩ := pmmInit_bootMachine
  have hroot : (VmmOp.run .create (bootWorld pmm)).vmm.currentPml4 = 0x100000 := by
    have hwf := (bootWorld_wf h hstack).unread
    rcases vmmCreateAddressSpace_cases hwf with ⟨-, heq⟩ | ⟨hx, heq⟩
    · simp only [VmmOp.run, heq]
      rfl
    · simp only [VmmOp.run, heq]
      exact (hwf.create hx).currentPml4
  have hcreate : vmmStep (bootWorld pmm) .create (VmmOp.run .create (bootWorld pmm)) :=
    ⟨⟨trivial, trivial⟩, rfl⟩
  have hmap : vmmStep (VmmOp.run .create (bootWorld pmm))
      (.map 0x100000 0x8000000000#64 0x200000#64 0x83#64) _ :=
    ⟨⟨Or.inl hroot.symm, Or.inl (by decide)⟩, rfl⟩
  have hrun : Run vmmStep (bootWorld pmm) [.create] _ := Run.single hcreate
  exact ⟨pmm, _, _, h, hrun, hmap, (vmmRun_touched_isTable (bootWorld_wf h hstack) hrun hmap).2⟩

/-- The mapping `kmain` makes for the local APIC. -/
def lapicMap : VmmOp := .map 0x100000 0xFEE00000#64 0xFEE00000#64 0x1A#64

/-- The walk finds a present entry at each level, the last of them a leaf. -/
theorem lapicMap_run (pmm : Pmm) : lapicMap.run (bootWorld pmm) =
    ⟨(((((bootWorld pmm).vmm.unread).touch 0x100000).touch 0x101000).touch 0x105000).write 0xFEE00000 0
      0xFEE0001B#64, ∅⟩ := by
  have h₁ : ensureNextTable (bootWorld pmm).vmm.unread 0x100000 0 =
      (0x101000, (bootWorld pmm).vmm.unread.touch 0x100000) :=
    ensureNextTable_of_mem (e := 0x101003#64) (bootWorld_p4 pmm 0) (by decide) (by decide)
  have h₂ : ensureNextTable ((bootWorld pmm).vmm.unread.touch 0x100000) 0x101000 3 =
      (0x105000, ((bootWorld pmm).vmm.unread.touch 0x100000).touch 0x101000) :=
    ensureNextTable_of_mem (e := 0x105003#64) ((bootWorld_p3 pmm 3).trans (by decide)) (by decide)
      (by decide)
  have h₃ : ensureNextTable (((bootWorld pmm).vmm.unread.touch 0x100000).touch 0x101000) 0x105000
      0x1F7 = (0xFEE00000, (((bootWorld pmm).vmm.unread.touch 0x100000).touch 0x101000).touch 0x105000) :=
    ensureNextTable_of_mem (e := 0xFEE00083#64)
      ((bootWorld_p2 pmm (d := 3) (by decide) rfl 0x1F7).trans (by decide)) (by decide) (by decide)
  simp only [lapicMap, VmmOp.run, vmmMap, show pml4Index 0xFEE00000#64 = 0 by decide,
    show pdptIndex 0xFEE00000#64 = 3 by decide, show pdIndex 0xFEE00000#64 = 0x1F7 by decide,
    show ptIndex 0xFEE00000#64 = 0 by decide, show hasFlag 0x1A#64 pageHuge = false by decide, h₁, h₂,
    h₃]
  rfl

/-- **The boot identity map is not left alone.** Mapping the local APIC under it reads the page
`0xFEE00000` as a page table and writes an entry there, though it is none before or after. -/
theorem vmmMap_writes_leaf :
    ∃ pmm, pmmInit bootMachine 0x106000 = some pmm ∧ Wf (bootWorld pmm).vmm (bootWorld pmm).live ∧
      lapicMap.Valid (bootWorld pmm) ∧
      0xFEE00000 ∈ (lapicMap.run (bootWorld pmm)).vmm.touched ∧
      (lapicMap.run (bootWorld pmm)).vmm.mem 0xFEE00000 0 = 0xFEE0001B#64 ∧
      ¬ (bootWorld pmm).IsTable 0xFEE00000 ∧ ¬ (lapicMap.run (bootWorld pmm)).IsTable 0xFEE00000 := by
  obtain ⟨pmm, h, hstack⟩ := pmmInit_bootMachine
  have hnot : ¬ (bootWorld pmm).IsTable 0xFEE00000 := by
    rintro ⟨r, hr, p, ht⟩
    obtain rfl : r = 0x100000 := by simpa [Vmm.roots, bootWorld, bootVmm] using hr
    rcases bootVmm_table (by decide) (by decide) ht with ⟨-, h⟩ | ⟨-, h⟩ | ⟨i, hi, -, h⟩ <;> omega
  refine ⟨pmm, h, bootWorld_wf h hstack, Or.inl rfl, ?_, ?_, hnot, ?_⟩
  · rw [lapicMap_run]
    exact List.mem_cons_self
  · rw [lapicMap_run]
    exact Vmm.write_mem_self _ _ _ _
  · -- the write is to no table, so it links none
    rw [lapicMap_run]
    have hmem : ∀ t, (bootWorld pmm).vmm.IsTable ∅ t →
        (((((bootWorld pmm).vmm.unread).touch 0x100000).touch 0x101000).touch 0x105000 |>.write
          0xFEE00000 0 0xFEE0001B#64).mem t = (bootWorld pmm).vmm.mem t := by
      intro t ht
      refine Vmm.write_mem_of_table_ne _ _ _ _ ?_
      rintro rfl
      exact hnot ht
    exact fun ht => hnot ((Vmm.isTable_frame (Vmm.write_currentPml4 _ _ _ _) hmem _).mp ht)

end ZohoOs
