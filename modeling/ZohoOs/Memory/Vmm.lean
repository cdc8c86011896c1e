import Mathlib.Data.Fin.Basic
import ZohoOs.Memory.Pmm

/-!
# The virtual memory manager

The four-level page tables of `vmm.c`. Physical memory is read as pages of 512 entries of 64
bits, by the page's address; the kernel reaches each page at its physical address. A pointer is
a natural number, with `0` the null pointer: a table that an entry places at page `0` is taken
for a missing one. The lock makes each function one step.

`touched` records the pages a call reads or writes as a page table. It is no part of the
kernel's state.

## Main definitions

* `Vmm`: physical memory, the frame allocator and the captured root table
* `vmmCreateAddressSpace`, `vmmCloneAddressSpace`, `vmmDestroyAddressSpace`, `vmmMap`, `vmmUnmap`,
  `vmmGetPhys`, `vmmGetFlags`: the operations
-/

namespace ZohoOs

/-! ## Entries -/

/-- `PAGE_PRESENT`. -/
abbrev pagePresent : BitVec 64 := 0x1#64

/-- `PAGE_WRITABLE`. -/
abbrev pageWritable : BitVec 64 := 0x2#64

/-- `PAGE_USER`. -/
abbrev pageUser : BitVec 64 := 0x4#64

/-- `PAGE_HUGE`. -/
abbrev pageHuge : BitVec 64 := 0x80#64

/-- `PAGE_COW`. -/
abbrev pageCow : BitVec 64 := 0x200#64

/-- The test `e & flag`. -/
def hasFlag (e flag : BitVec 64) : Bool := e &&& flag != 0#64

/-- The pointer `(uint64_t*)(e & ~0xFFF)`. -/
def pageOf (e : BitVec 64) : Nat := (e &&& ~~~0xFFF#64).toNat

/-- `PML4_INDEX`. -/
def pml4Index (addr : BitVec 64) : Fin 512 := Fin.ofNat 512 (addr >>> 39 &&& 0x1FF#64).toNat

/-- `PDPT_INDEX`. -/
def pdptIndex (addr : BitVec 64) : Fin 512 := Fin.ofNat 512 (addr >>> 30 &&& 0x1FF#64).toNat

/-- `PD_INDEX`. -/
def pdIndex (addr : BitVec 64) : Fin 512 := Fin.ofNat 512 (addr >>> 21 &&& 0x1FF#64).toNat

/-- `PT_INDEX`. -/
def ptIndex (addr : BitVec 64) : Fin 512 := Fin.ofNat 512 (addr >>> 12 &&& 0x1FF#64).toNat

/-- The slots of a table. -/
@[irreducible] def tableSlots : List (Fin 512) := List.finRange 512

/-- The slots `1 .. 511` of a root table. -/
def userSlots : List (Fin 512) := tableSlots.filter (· ≠ 0)

@[simp] theorem mem_tableSlots (i : Fin 512) : i ∈ tableSlots := by
  unfold tableSlots
  exact List.mem_finRange i

theorem nodup_tableSlots : tableSlots.Nodup := by
  unfold tableSlots
  exact List.nodup_finRange 512

theorem mem_userSlots {i : Fin 512} : i ∈ userSlots ↔ i ≠ 0 := by simp [userSlots]

theorem nodup_userSlots : userSlots.Nodup := nodup_tableSlots.filter _

@[simp] theorem hasFlag_or (a b flag : BitVec 64) :
    hasFlag (a ||| b) flag = (hasFlag a flag || hasFlag b flag) := by
  have hdistrib : (a ||| b) &&& flag = a &&& flag ||| b &&& flag := by
    ext i
    simp [Bool.and_or_distrib_right]
  rw [Bool.eq_iff_iff]
  simp only [hasFlag, hdistrib, bne_iff_ne, Bool.or_eq_true, ne_eq, BitVec.or_eq_zero_iff]
  tauto

theorem hasFlag_and (a mask flag : BitVec 64) :
    hasFlag (a &&& mask) flag = hasFlag a (mask &&& flag) := by
  rw [hasFlag, hasFlag, BitVec.and_assoc]

@[simp] theorem hasFlag_zero (a : BitVec 64) : hasFlag a 0#64 = false := by simp [hasFlag]

@[simp] theorem zero_hasFlag (flag : BitVec 64) : hasFlag 0#64 flag = false := by simp [hasFlag]

theorem pageOf_mod (e : BitVec 64) : pageOf e % pageSize = 0 := by
  have hand : (e &&& ~~~0xFFF#64) &&& 0xFFF#64 = 0#64 := by
    rw [BitVec.and_assoc, show ~~~0xFFF#64 &&& 0xFFF#64 = 0#64 by decide, BitVec.and_zero]
  have := congrArg BitVec.toNat hand
  rw [BitVec.toNat_and] at this
  rw [pageOf, pageSize, show (4096 : Nat) = 2 ^ 12 by decide, ← Nat.and_two_pow_sub_one_eq_mod]
  exact this

/-- An entry keeps the address it was built from. -/
theorem pageOf_or {a b : BitVec 64} (hb : b &&& ~~~0xFFF#64 = 0#64) : pageOf (a ||| b) = pageOf a := by
  have hdistrib : (a ||| b) &&& ~~~0xFFF#64 = a &&& ~~~0xFFF#64 ||| b &&& ~~~0xFFF#64 := by
    ext i
    simp [Bool.and_or_distrib_right]
  rw [pageOf, hdistrib, hb, BitVec.or_zero, pageOf]

theorem pageOf_and_page (e : BitVec 64) : pageOf (e &&& ~~~0xFFF#64) = pageOf e := by
  rw [pageOf, pageOf, BitVec.and_assoc, BitVec.and_self]

theorem and_page_of_aligned {e : BitVec 64} (h : e &&& 0xFFF#64 = 0#64) : e &&& ~~~0xFFF#64 = e := by
  refine BitVec.eq_of_getLsbD_eq fun i hi => ?_
  have hbit := congrArg (·.getLsbD i) h
  simp only [BitVec.getLsbD_and, BitVec.getLsbD_zero] at hbit
  simp only [BitVec.getLsbD_and, BitVec.getLsbD_not, hi, decide_true, Bool.true_and]
  cases he : e.getLsbD i <;> simp_all

/-- The address of a page, cast to an entry and back. -/
theorem pageOf_ofNat {a : Nat} (ha : a % pageSize = 0) (hlt : a < 2 ^ 64) :
    pageOf (BitVec.ofNat 64 a) = a := by
  have hlow : BitVec.ofNat 64 a &&& 0xFFF#64 = 0#64 := by
    apply BitVec.eq_of_toNat_eq
    rw [BitVec.toNat_and, BitVec.toNat_ofNat, Nat.mod_eq_of_lt hlt]
    rw [show (0xFFF#64).toNat = 2 ^ 12 - 1 by decide, Nat.and_two_pow_sub_one_eq_mod]
    exact ha
  rw [pageOf, and_page_of_aligned hlow, BitVec.toNat_ofNat, Nat.mod_eq_of_lt hlt]

/-! ## The state -/

structure Vmm where
  /-- The entries of the page at each address. -/
  mem : Nat → Fin 512 → BitVec 64
  pmm : Pmm
  currentPml4 : Nat
  touched : List Nat

/-- Reading `table` as a page table. -/
def Vmm.touch (s : Vmm) (table : Nat) : Vmm := { s with touched := table :: s.touched }

/-- `table[index] = e`. -/
def Vmm.write (s : Vmm) (table : Nat) (index : Fin 512) (e : BitVec 64) : Vmm :=
  { s with
    mem := Function.update s.mem table (Function.update (s.mem table) index e)
    touched := table :: s.touched }

section Fields

variable (s : Vmm) (table : Nat) (index : Fin 512) (e : BitVec 64)

@[simp] theorem Vmm.touch_mem : (s.touch table).mem = s.mem := rfl
@[simp] theorem Vmm.touch_pmm : (s.touch table).pmm = s.pmm := rfl
@[simp] theorem Vmm.touch_currentPml4 : (s.touch table).currentPml4 = s.currentPml4 := rfl
@[simp] theorem Vmm.touch_touched : (s.touch table).touched = table :: s.touched := rfl
@[simp] theorem Vmm.write_pmm : (s.write table index e).pmm = s.pmm := rfl
@[simp] theorem Vmm.write_currentPml4 : (s.write table index e).currentPml4 = s.currentPml4 := rfl
@[simp] theorem Vmm.write_touched : (s.write table index e).touched = table :: s.touched := rfl

theorem Vmm.write_mem : (s.write table index e).mem =
    Function.update s.mem table (Function.update (s.mem table) index e) := rfl

@[simp] theorem Vmm.write_mem_self : (s.write table index e).mem table index = e := by
  simp [Vmm.write]

theorem Vmm.write_mem_of_ne {t : Nat} {i : Fin 512} (h : ¬ (t = table ∧ i = index)) :
    (s.write table index e).mem t i = s.mem t i := by
  rw [Vmm.write_mem, Function.update_apply]
  split
  · next ht =>
    subst ht
    rw [Function.update_of_ne fun hi => h ⟨rfl, hi⟩]
  · rfl

theorem Vmm.write_mem_of_table_ne {t : Nat} (h : t ≠ table) :
    (s.write table index e).mem t = s.mem t := by
  rw [Vmm.write_mem, Function.update_of_ne h]

end Fields

/-! ## Tables -/

/-- `alloc_zeroed_table`. -/
def allocZeroedTable (s : Vmm) : Nat × Vmm :=
  let (nextTable, pmm) := pmmAllocFrame s.pmm
  let s := { s with pmm }
  if nextTable = 0 then (0, s)
  else (nextTable, { s with
    mem := Function.update s.mem nextTable fun _ => 0#64
    touched := nextTable :: s.touched })

/-- `get_existing_table`. -/
def getExistingTable (s : Vmm) (table : Nat) (index : Fin 512) : Nat :=
  if hasFlag (s.mem table index) pagePresent then pageOf (s.mem table index) else 0

/-- `ensure_next_table`. -/
def ensureNextTable (s : Vmm) (table : Nat) (index : Fin 512) : Nat × Vmm :=
  let s := s.touch table
  let next := getExistingTable s table index
  if next ≠ 0 then (next, s)
  else
    let (newTable, s) := allocZeroedTable s
    if newTable = 0 then (0, s)
    else
      -- looked up again, now under the lock
      let next := getExistingTable s table index
      if next = 0 then
        (newTable, s.write table index
          (BitVec.ofNat 64 newTable ||| pagePresent ||| pageWritable ||| pageUser))
      else (next, { s with pmm := pmmFreeFrame s.pmm newTable })

/-! ## Address spaces -/

/-- `vmm_create_address_space`. -/
def vmmCreateAddressSpace (s : Vmm) : Nat × Vmm :=
  let (newPml4, s) := allocZeroedTable s
  if newPml4 = 0 then (0, s)
  else (newPml4, (s.touch s.currentPml4).write newPml4 0 (s.mem s.currentPml4 0))

/-- The copy-on-write copy of the leaf `src[i]` to `dst[i]`; `addrMask` selects its address. -/
def cloneLeaf (addrMask : BitVec 64) (src dst : Nat) (s : Vmm) (i : Fin 512) : Vmm :=
  let phys := s.mem src i &&& addrMask
  let flags := s.mem src i &&& 0xFFF#64
  let (flags, s) :=
    if hasFlag flags pageWritable then
      let flags := flags &&& ~~~pageWritable ||| pageCow
      (flags, s.write src i (phys ||| flags ||| pagePresent))
    else (flags, s)
  let s := s.write dst i (phys ||| flags ||| pagePresent)
  { s with pmm := pmmRefInc s.pmm phys.toNat }

/-- The body of the loops of `vmm_clone_address_space`, by the level of the table it reads: `3` the
root, `1` a page directory, `0` a page table. Only entries of a page directory may be leaves. -/
def cloneEntry : Nat → Nat → Nat → Vmm → Fin 512 → Vmm
  | 0, srcPt, dstPt, s, l =>
    let s := s.touch srcPt
    if hasFlag (s.mem srcPt l) pagePresent then cloneLeaf (~~~0xFFF#64) srcPt dstPt s l else s
  | level + 1, src, dst, s, i =>
    let s := s.touch src
    if hasFlag (s.mem src i) pagePresent then
      if level = 0 ∧ hasFlag (s.mem src i) pageHuge then
        cloneLeaf (~~~0x1FFFFF#64) src dst s i
      else
        let srcNext := pageOf (s.mem src i)
        let (dstNext, s) := ensureNextTable s dst i
        tableSlots.foldl (cloneEntry level srcNext dstNext) s
    else s

/-- `vmm_clone_address_space`. -/
def vmmCloneAddressSpace (s : Vmm) (srcPml4 : Nat) : Nat × Vmm :=
  let (dstPml4, s) := vmmCreateAddressSpace s
  (dstPml4, userSlots.foldl (cloneEntry 3 srcPml4 dstPml4) s)

/-- The body of the loops of `vmm_destroy_address_space`, by the level of the table it reads. -/
def destroyEntry : Nat → Nat → Vmm → Fin 512 → Vmm
  | 0, pt, s, l =>
    let s := s.touch pt
    if hasFlag (s.mem pt l) pagePresent then
      { s with pmm := pmmFreeFrame s.pmm (pageOf (s.mem pt l)) }
    else s
  | level + 1, table, s, i =>
    let s := s.touch table
    if hasFlag (s.mem table i) pagePresent then
      let next := pageOf (s.mem table i)
      let s := tableSlots.foldl (destroyEntry level next) s
      { s with pmm := pmmFreeFrame s.pmm next }
    else s

/-- `vmm_destroy_address_space`. -/
def vmmDestroyAddressSpace (s : Vmm) (pml4 : Nat) : Vmm :=
  let s := userSlots.foldl (destroyEntry 3 pml4) s
  { s with pmm := pmmFreeFrame s.pmm pml4 }

/-! ## Mappings -/

/-- `vmm_map`. -/
def vmmMap (s : Vmm) (pml4 : Nat) (virt phys flags : BitVec 64) : Vmm :=
  let (pdpt, s) := ensureNextTable s pml4 (pml4Index virt)
  if pdpt = 0 then s
  else
    let (pd, s) := ensureNextTable s pdpt (pdptIndex virt)
    if pd = 0 then s
    else if hasFlag flags pageHuge then
      s.write pd (pdIndex virt) (phys &&& ~~~0x1FFFFF#64 ||| flags ||| pagePresent)
    else
      let (pt, s) := ensureNextTable s pd (pdIndex virt)
      if pt = 0 then s
      else s.write pt (ptIndex virt) (phys &&& ~~~0xFFF#64 ||| flags ||| pagePresent)

/-- `vmm_unmap`. -/
def vmmUnmap (s : Vmm) (pml4 : Nat) (virt : BitVec 64) : Vmm :=
  let s := s.touch pml4
  let pdpt := getExistingTable s pml4 (pml4Index virt)
  if pdpt = 0 then s
  else
    let s := s.touch pdpt
    let pd := getExistingTable s pdpt (pdptIndex virt)
    if pd = 0 then s
    else
      let s := s.touch pd
      if hasFlag (s.mem pd (pdIndex virt)) pageHuge then s.write pd (pdIndex virt) 0#64
      else
        let pt := getExistingTable s pd (pdIndex virt)
        if pt = 0 then s else s.write pt (ptIndex virt) 0#64

/-- `vmm_get_phys`. -/
def vmmGetPhys (s : Vmm) (pml4 : Nat) (virt : BitVec 64) : BitVec 64 :=
  let pdpt := getExistingTable s pml4 (pml4Index virt)
  if pdpt = 0 then 0#64
  else
    let pd := getExistingTable s pdpt (pdptIndex virt)
    if pd = 0 then 0#64
    else if hasFlag (s.mem pd (pdIndex virt)) pageHuge then
      s.mem pd (pdIndex virt) &&& ~~~0x1FFFFF#64 ||| virt &&& 0x1FFFFF#64
    else
      let pt := getExistingTable s pd (pdIndex virt)
      if pt = 0 then 0#64
      else s.mem pt (ptIndex virt) &&& ~~~0xFFF#64 ||| virt &&& 0xFFF#64

/-- `vmm_get_flags`. -/
def vmmGetFlags (s : Vmm) (pml4 : Nat) (virt : BitVec 64) : BitVec 64 :=
  let pdpt := getExistingTable s pml4 (pml4Index virt)
  if pdpt = 0 then 0#64
  else
    let pd := getExistingTable s pdpt (pdptIndex virt)
    if pd = 0 then 0#64
    else if hasFlag (s.mem pd (pdIndex virt)) pageHuge then s.mem pd (pdIndex virt) &&& 0xFFF#64
    else
      let pt := getExistingTable s pd (pdIndex virt)
      if pt = 0 then 0#64 else s.mem pt (ptIndex virt) &&& 0xFFF#64

end ZohoOs
