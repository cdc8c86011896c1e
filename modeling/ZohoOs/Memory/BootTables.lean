import ZohoOs.Memory.Spaces

/-!
# The machine at boot

`setup_page_tables` identity-maps the first 4 GiB with 2 MiB leaves; `vmm_init` then captures its
root. The tables lie in the kernel image, so the frame allocator never holds them.

## Main definitions

* `setupPageTables`: the boot page tables
* `bootWorld`: the machine after `pmm_init` and `vmm_init`

## Main results

* `bootWorld_wf`: its tables form a forest
-/

namespace ZohoOs

open Forest

/-- `setup_page_tables`: the root at `p4Table`, the pointer table and the four directories behind
it, over memory that holds `ram`. Each loop writes one entry per round. -/
def setupPageTables (ram : Nat → Fin 512 → BitVec 64) (p4Table : Nat) :
    Nat → Fin 512 → BitVec 64 := fun t i =>
  let p3Table := p4Table + 0x1000
  let p2Table := p4Table + 0x2000
  if t = p4Table then if i = 0 then BitVec.ofNat 64 p3Table ||| 0b11#64 else 0#64
  else if t = p3Table then
    if i.val < 4 then BitVec.ofNat 64 (4096 * i.val + p2Table) ||| 0b11#64 else 0#64
  else if p2Table ≤ t ∧ t < p2Table + 0x4000 then
    BitVec.ofNat 64 (0x200000 * (512 * ((t - p2Table) / 4096) + i.val)) ||| 0b10000011#64
  else ram t i

/-- The state `vmm_init` finds. -/
def bootVmm (ram : Nat → Fin 512 → BitVec 64) (p4Table : Nat) (pmm : Pmm) : Vmm where
  mem := setupPageTables ram p4Table
  pmm := pmm
  currentPml4 := p4Table
  touched := []

section Boot

variable {ram : Nat → Fin 512 → BitVec 64} {p4Table : Nat} {pmm : Pmm}

theorem setupPageTables_p4 (i : Fin 512) : setupPageTables ram p4Table p4Table i =
    if i = 0 then BitVec.ofNat 64 (p4Table + 0x1000) ||| 0b11#64 else 0#64 := by
  simp [setupPageTables]

theorem setupPageTables_p3 (i : Fin 512) : setupPageTables ram p4Table (p4Table + 0x1000) i =
    if i.val < 4 then BitVec.ofNat 64 (4096 * i.val + (p4Table + 0x2000)) ||| 0b11#64 else 0#64 := by
  simp [setupPageTables]

theorem setupPageTables_p2 {d : Nat} (hd : d < 4) (i : Fin 512) :
    setupPageTables ram p4Table (4096 * d + (p4Table + 0x2000)) i =
      BitVec.ofNat 64 (0x200000 * (512 * d + i.val)) ||| 0b10000011#64 := by
  have h4 : 4096 * d + (p4Table + 0x2000) ≠ p4Table := by omega
  have h3 : 4096 * d + (p4Table + 0x2000) ≠ p4Table + 0x1000 := by omega
  have h2 : p4Table + 0x2000 ≤ 4096 * d + (p4Table + 0x2000) ∧
      4096 * d + (p4Table + 0x2000) < p4Table + 0x2000 + 0x4000 := by omega
  have hdiv : (4096 * d + (p4Table + 0x2000) - (p4Table + 0x2000)) / 4096 = d := by omega
  simp only [setupPageTables, if_neg h4, if_neg h3, if_pos h2, hdiv]

theorem getExistingTable_of_mem {s : Vmm} {t : Nat} {i : Fin 512} {e : BitVec 64}
    (h : s.mem t i = e) (hpres : hasFlag e pagePresent = true) :
    getExistingTable s t i = pageOf e := by
  rw [getExistingTable, h, if_pos hpres]

/-- `ensureNextTable` at an entry that is present and has an address: it looks no further. -/
theorem ensureNextTable_of_mem {s : Vmm} {t : Nat} {i : Fin 512} {e : BitVec 64}
    (h : s.mem t i = e) (hpres : hasFlag e pagePresent = true) (hne : pageOf e ≠ 0) :
    ensureNextTable s t i = (pageOf e, s.touch t) := by
  have hget : getExistingTable (s.touch t) t i = pageOf e := getExistingTable_of_mem h hpres
  simp only [ensureNextTable, hget, if_pos hne]

/-- The tables of the boot page tables: a root, a pointer table and four directories of leaves. -/
theorem bootVmm_table (halign : p4Table % pageSize = 0) (hlt : p4Table + 0x6000 ≤ 2 ^ 32)
    {p : List (Fin 512)} {t : Nat} (ht : (bootVmm ram p4Table pmm).table p4Table p = some t) :
    (p = [] ∧ t = p4Table) ∨ (p = [0] ∧ t = p4Table + 0x1000) ∨
      ∃ i : Fin 512, i.val < 4 ∧ p = [i, 0] ∧ t = 4096 * i.val + (p4Table + 0x2000) := by
  simp only [pageSize] at halign
  induction p generalizing t with
  | nil => exact Or.inl ⟨rfl, by simpa using ht.symm⟩
  | cons i p ih =>
    obtain ⟨t', ht', he⟩ := Vmm.table_cons_eq_some.mp ht
    rw [Vmm.edge_of_own (Vmm.edge_own he)] at he
    -- an entry of the root, of the table below it, or of one of the four directories
    rcases ih ht' with ⟨rfl, rfl⟩ | ⟨rfl, rfl⟩ | ⟨j, hj, rfl, rfl⟩
    · right; left
      rw [show (bootVmm ram t' pmm).mem t' i = _ from setupPageTables_p4 i] at he
      by_cases hi : i = 0
      · rw [if_pos hi, pageOf_or (by decide), pageOf_ofNat (by simp only [pageSize]; omega) (by omega)]
          at he
        split at he
        · exact ⟨by rw [hi], (Option.some.inj he).symm⟩
        · exact absurd he (by simp)
      · simp [hi] at he
    · right; right
      rw [show (bootVmm ram p4Table pmm).mem _ i = _ from setupPageTables_p3 i] at he
      by_cases hi : i.val < 4
      · rw [if_pos hi, pageOf_or (by decide), pageOf_ofNat (by simp only [pageSize]; omega) (by omega)]
          at he
        split at he
        · exact ⟨i, hi, rfl, (Option.some.inj he).symm⟩
        · exact absurd he (by simp)
      · simp [hi] at he
    · -- every directory entry is a leaf
      rw [show (bootVmm ram p4Table pmm).mem _ i = _ from setupPageTables_p2 hj i, if_neg] at he
      · exact absurd he (by simp)
      · rw [hasFlag_or _ _ pageHuge, show hasFlag 0b10000011#64 pageHuge = true by decide]
        simp

/-- **The boot page tables are well formed**, when the frame allocator holds none of them. -/
theorem bootVmm_wf (halign : p4Table % pageSize = 0) (hne : p4Table ≠ 0)
    (hlt : p4Table + 0x6000 ≤ 2 ^ 32) (hpmm : StackInv pmm)
    (hfree : ∀ a ∈ pmm.freeStack, ¬ (p4Table ≤ a ∧ a < p4Table + 0x6000)) :
    Wf (bootVmm ram p4Table pmm) ∅ := by
  -- the tables are the root, one below it and the four directories
  have hroots : (bootVmm ram p4Table pmm).roots ∅ = {p4Table} := by simp [Vmm.roots, bootVmm]
  have hcases : ∀ t, (bootVmm ram p4Table pmm).IsTable ∅ t →
      t % pageSize = 0 ∧ p4Table ≤ t ∧ t < p4Table + 0x6000 := by
    rintro t ⟨r, hr, p, ht⟩
    rw [hroots] at hr
    obtain rfl := hr
    simp only [pageSize] at halign ⊢
    rcases bootVmm_table halign hlt ht with ⟨-, rfl⟩ | ⟨-, rfl⟩ | ⟨i, hi, -, rfl⟩ <;> omega
  refine ⟨hpmm, ?_, fun t ht => ?_, fun t ht => (hcases t ht).1, fun t ht hmem => ?_, by simp,
    by simp, ?_⟩
  -- their places are told apart by their addresses
  · rw [hroots]
    rintro r rfl r' hr' p p' t ht ht'
    obtain rfl : r' = r := hr'
    refine ⟨rfl, ?_⟩
    rcases bootVmm_table halign hlt ht with ⟨rfl, rfl⟩ | ⟨rfl, rfl⟩ | ⟨i, hi, rfl, rfl⟩
    · rcases bootVmm_table halign hlt ht' with ⟨rfl, h⟩ | ⟨rfl, h⟩ | ⟨j, hj, rfl, h⟩
      · rfl
      · omega
      · omega
    · rcases bootVmm_table halign hlt ht' with ⟨rfl, h⟩ | ⟨rfl, h⟩ | ⟨j, hj, rfl, h⟩
      · omega
      · rfl
      · omega
    · rcases bootVmm_table halign hlt ht' with ⟨rfl, h⟩ | ⟨rfl, h⟩ | ⟨j, hj, rfl, h⟩
      · omega
      · omega
      · rw [Fin.ext (show i.val = j.val by omega)]
  · have := hcases t ht
    omega
  · exact hfree t hmem (hcases t ht).2
  -- the kernel's entry is written at boot
  · change hasFlag (setupPageTables ram p4Table p4Table 0) pagePresent = true
    rw [setupPageTables_p4, if_pos rfl, hasFlag_or, show hasFlag 0b11#64 pagePresent = true by decide,
      Bool.or_true]

end Boot

/-! ## A small machine -/

/-- A machine whose kernel image ends at `0x106000`, with eight free frames behind it. -/
def bootMachine : MultibootInfo where
  address := 0x9000
  totalSize := 0x100
  tags := [.mmap [⟨0x100000, 0xE000, 1⟩]]

/-- The frames free at boot. -/
def bootFrames : List Nat :=
  [0x10D000, 0x10C000, 0x10B000, 0x10A000, 0x109000, 0x108000, 0x107000, 0x106000]

theorem pmmInit_bootMachine :
    ∃ pmm, pmmInit bootMachine 0x106000 = some pmm ∧ pmm.freeStack = bootFrames := by
  obtain ⟨pmm, h⟩ : ∃ pmm, pmmInit bootMachine 0x106000 = some pmm :=
    Option.isSome_iff_exists.mp (pmmInit_isSome (by decide) (by decide) (by decide))
  refine ⟨pmm, h, ?_⟩
  have hcut : (List.range maxFrames).filter (freeAtBoot bootMachine 0x106000) =
      (List.range 0x10E).filter (freeAtBoot bootMachine 0x106000) := by
    refine filter_range_of_le (by decide) fun f _ hf => ?_
    simp only [freeAtBoot, Bool.and_eq_true] at hf
    have hcov := hf.1.1.2
    simp [bootMachine, MultibootInfo.covers, MultibootTag.covers, MultibootTag.entries,
      MmapEntry.covers, visits, pageSize] at hcov
    omega
  rw [(pmmInit_spec h).1, hcut]
  decide +kernel

/-- The machine after `pmm_init` and `vmm_init`, with its page tables at 1 MiB. -/
def bootWorld (pmm : Pmm) : World := ⟨bootVmm (fun _ _ => 0#64) 0x100000 pmm, ∅⟩

theorem bootWorld_p4 (pmm : Pmm) (i : Fin 512) :
    (bootWorld pmm).vmm.mem 0x100000 i = if i = 0 then 0x101003#64 else 0#64 :=
  @setupPageTables_p4 (fun _ _ => 0#64) 0x100000 i

theorem bootWorld_p3 (pmm : Pmm) (i : Fin 512) : (bootWorld pmm).vmm.mem 0x101000 i =
    if i.val < 4 then BitVec.ofNat 64 (4096 * i.val + 0x102000) ||| 0b11#64 else 0#64 :=
  @setupPageTables_p3 (fun _ _ => 0#64) 0x100000 i

theorem bootWorld_p2 (pmm : Pmm) {d t : Nat} (hd : d < 4) (ht : t = 4096 * d + 0x102000)
    (i : Fin 512) : (bootWorld pmm).vmm.mem t i =
      BitVec.ofNat 64 (0x200000 * (512 * d + i.val)) ||| 0b10000011#64 := by
  have h := @setupPageTables_p2 (fun _ _ => 0#64) 0x100000 d hd i
  rwa [show 4096 * d + (0x100000 + 0x2000) = t by omega] at h

theorem bootWorld_wf {pmm : Pmm} (h : pmmInit bootMachine 0x106000 = some pmm)
    (hstack : pmm.freeStack = bootFrames) : Wf (bootWorld pmm).vmm (bootWorld pmm).live := by
  refine bootVmm_wf (by decide) (by decide) (by decide) (pmmInit_inv h).toStackInv fun a ha => ?_
  have hall : ∀ a ∈ bootFrames, ¬ (0x100000 ≤ a ∧ a < 0x106000) := by decide
  exact hall a (hstack ▸ ha)

end ZohoOs
