import ZohoOs.Net.Packet
import ZohoOs.Lib.RecordWalk
import Mathlib.Data.List.TakeWhile

/-!
# The CPUs of the machine

`acpi_init` of `acpi.c` goes through the tables of the firmware and puts the id of each enabled local APIC
into `cpu_ids`, an array of 64. `smp_init` starts the other CPUs, and `sys_get_sys_info` reports on them in an
array of 16, which the `monitor` command reads.

## Main definitions

* `acpiInit`: the tables, with the stores into `cpu_ids`
* `smpStarted`, `cpuGetCount`: the CPUs that are started
* `sysInfoWrites`, `monitorReads`: the entries of `sys_info_t.cpus` that are written, and those that are read
* `apicIds`: the enabled local APICs of the tables
* `CpusSafe`: an enumeration that ends and stays in the arrays

## Main results

* `acpiInit_sound`: tables whose entries have lengths are enumerated
* `cpusSafe_iff`: when the enumeration is safe
-/

namespace ZohoOs

open RecordWalk

/-! ## The tables -/

/-- What `acpi.c` keeps: the stores into `cpu_ids`, each an index and an id, and the count. -/
structure Acpi where
  lapicAddr : BitVec 32
  stores : List (Nat × Byte)
  cpuCount : Nat

def acpiStart : Acpi := ⟨0, [], 0⟩

/-- `"RSD PTR "`. -/
def rsdpSignature : List Byte := [0x52, 0x53, 0x44, 0x20, 0x50, 0x54, 0x52, 0x20]

/-- `"APIC"`. -/
def madtSignature : List Byte := [0x41, 0x50, 0x49, 0x43]

/-- The loop of `find_rsdp`, with this many addresses left. -/
def findRsdpFrom (mem : Buffer) : Nat → Nat → Option Nat
  | 0, _ => none
  | left + 1, addr =>
    if readBytes mem addr 8 = rsdpSignature then some addr else findRsdpFrom mem left (addr + 16)

/-- `find_rsdp`, from `0xE0000` to `0x100000`. -/
def findRsdp (mem : Buffer) : Option Nat := findRsdpFrom mem 8192 0xE0000

/-- `entries` of `acpi_init`: the length is a number of 32 bits, the size of a header one of 64, and the
quotient is cut to an `int`. -/
def rsdtEntries (length : BitVec 32) : Int :=
  (((length.setWidth 64 - 36#64) / 4#64).setWidth 32).toInt

/-- `sdt_ptrs`. -/
def sdtPtrs (mem : Buffer) (rsdt : Nat) : List Nat :=
  (List.range (rsdtEntries (le32 mem (rsdt + 4))).toNat).map fun i => (le32 mem (rsdt + 36 + 4 * i)).toNat

/-- The id of an entry that is an enabled local APIC. -/
def apicId (mem : Buffer) (entry : Nat) : Option Byte :=
  if mem entry = 0 ∧ le32 mem (entry + 4) &&& 1 ≠ 0 then some (mem (entry + 3)) else none

/-- An entry of a MADT. -/
def Acpi.entry (mem : Buffer) (s : Acpi) (entry : Nat) : Acpi :=
  match apicId mem entry with
  | some id => { s with stores := s.stores ++ [(s.cpuCount, id)], cpuCount := s.cpuCount + 1 }
  | none => s

/-- The loop over the entries of a MADT; `none` where it takes more than `fuel` rounds. -/
def madtLoop (mem : Buffer) (endPtr : Nat) : Nat → Nat → Acpi → Option Acpi
  | 0, _, _ => none
  | fuel + 1, entryPtr, s =>
    if entryPtr < endPtr then
      madtLoop mem endPtr fuel (entryPtr + (mem (entryPtr + 1)).toNat) (s.entry mem entryPtr)
    else some s

/-- A table of the RSDT. -/
def acpiTable (mem : Buffer) (fuel : Nat) (s : Acpi) (header : Nat) : Option Acpi :=
  if readBytes mem header 4 = madtSignature then
    let s := { s with lapicAddr := le32 mem (header + 36) }
    madtLoop mem (header + (le32 mem (header + 4)).toNat) fuel (header + 44) s
  else some s

/-- `acpi_init`, on the physical memory. -/
def acpiInit (mem : Buffer) (fuel : Nat) : Option Acpi :=
  match findRsdp mem with
  | none => some acpiStart
  | some rsdp => (sdtPtrs mem (le32 mem (rsdp + 16)).toNat).foldlM (acpiTable mem fuel) acpiStart

/-! ## The CPUs -/

/-- The CPUs `smp_init` starts: those that are not the one it runs on, and come up. -/
def smpStarted (ids : List Byte) (bspId : Byte) (starts : Nat → Bool) : List Byte :=
  (ids.zipIdx.filter fun p => p.1 ≠ bspId && starts p.2).map Prod.fst

/-- `cpu_get_count` after that: the first CPU, and those `cpu_init` does not return for. -/
def cpuGetCount (started : List Byte) : Nat := 1 + (started.filter (· ≠ 0)).length

/-- The entries of `info->cpus` that `sys_get_sys_info` writes. -/
def sysInfoWrites (cpuCount : Nat) : List Nat := (List.range cpuCount).takeWhile (· < 16)

/-- Those the `monitor` command reads. -/
def monitorReads (cpuCount : Nat) : List Nat := List.range cpuCount

/-! ## Enumerations -/

/-- Where the next entry starts. -/
def madtNext (mem : Buffer) (entry : Nat) : Nat := entry + (mem (entry + 1)).toNat

/-- The end of a table. -/
def tableEnd (mem : Buffer) (header : Nat) : Nat := header + (le32 mem (header + 4)).toNat

/-- The MADTs of the machine. -/
def madts (mem : Buffer) : List Nat :=
  match findRsdp mem with
  | none => []
  | some rsdp => (sdtPtrs mem (le32 mem (rsdp + 16)).toNat).filter
    fun header => readBytes mem header 4 = madtSignature

/-- The entries of a MADT that the loop comes to. -/
def MadtEntry (mem : Buffer) (madt : Nat) : Nat → Prop :=
  Visited (madtNext mem) (fun _ => false) (tableEnd mem madt) (madt + 44)

/-- Every entry has a length. -/
def MadtSound (mem : Buffer) (madt : Nat) : Prop := ∀ entry, MadtEntry mem madt entry → mem (entry + 1) ≠ 0

/-- The enabled local APICs of a MADT. -/
def madtApics (mem : Buffer) (madt : Nat) : List Byte :=
  ((walk (madtNext mem) (fun _ => false) (tableEnd mem madt) (tableEnd mem madt + 1)
    (madt + 44)).getD ([], none)).1.filterMap (apicId mem)

/-- Those of all MADTs. -/
def apicIds (mem : Buffer) : List Byte := (madts mem).flatMap (madtApics mem)

/-- **A safe enumeration**: the walk ends, it stores inside `cpu_ids`, and with the CPUs that are started the
entries of `sys_info_t.cpus` that are written and read are inside that array. -/
def CpusSafe (mem : Buffer) (bspId : Byte) (starts : Nat → Bool) : Prop :=
  ∃ fuel s, acpiInit mem fuel = some s ∧ (∀ st ∈ s.stores, st.1 < 64) ∧
    ∀ i ∈ sysInfoWrites (cpuGetCount (smpStarted (s.stores.map Prod.snd) bspId starts)) ++
      monitorReads (cpuGetCount (smpStarted (s.stores.map Prod.snd) bspId starts)), i < 16

/-- The stores are those of these ids, one behind the other. -/
structure Acpi.Lists (s : Acpi) (ids : List Byte) : Prop where
  indices : s.stores.map Prod.fst = List.range ids.length
  values : s.stores.map Prod.snd = ids
  count : s.cpuCount = ids.length

section Enumeration

variable {mem : Buffer} {s s' : Acpi} {ids : List Byte} {fuel madt : Nat}

/-- **The loop over the entries** is a walk. -/
theorem madtLoop_eq_walk {endPtr entryPtr : Nat} : madtLoop mem endPtr fuel entryPtr s =
    (walk (madtNext mem) (fun _ => false) endPtr fuel entryPtr).map fun w =>
      w.1.foldl (Acpi.entry mem) s := by
  induction fuel generalizing entryPtr s with
  | zero => rfl
  | succ fuel ih =>
    by_cases hlt : entryPtr < endPtr
    · rw [walk_next hlt rfl, madtLoop, if_pos hlt, ih, Option.map_map]
      rfl
    · rw [walk_end hlt, madtLoop, if_neg hlt]
      rfl

/-- An entry. -/
theorem Acpi.Lists.entry (h : s.Lists ids) (entry : Nat) :
    (s.entry mem entry).Lists (ids ++ (apicId mem entry).toList) := by
  rw [Acpi.entry]
  cases apicId mem entry with
  | none =>
    rw [Option.toList_none, List.append_nil]
    exact h
  | some id =>
    refine ⟨?_, ?_, ?_⟩
    · rw [List.map_append, h.indices, h.count, Option.toList_some, List.length_append,
        List.length_singleton, List.range_succ]
      rfl
    · rw [List.map_append, h.values]
      rfl
    · rw [Option.toList_some, List.length_append, ← h.count]
      rfl

/-- The entries of a walk. -/
theorem Acpi.Lists.foldl (h : s.Lists ids) (entries : List Nat) :
    (entries.foldl (Acpi.entry mem) s).Lists (ids ++ entries.filterMap (apicId mem)) := by
  induction entries generalizing s ids with
  | nil =>
    rw [List.filterMap_nil, List.append_nil]
    exact h
  | cons entry entries ih =>
    have hnext := ih (@Acpi.Lists.entry mem _ _ h entry)
    rw [List.append_assoc] at hnext
    rw [List.foldl_cons, List.filterMap_cons]
    cases hid : apicId mem entry with
    | none => simpa [hid] using hnext
    | some id => simpa [hid] using hnext

/-- **A sound MADT** is enumerated. -/
theorem MadtSound.madtLoop (h : MadtSound mem madt) (hfuel : tableEnd mem madt < fuel) :
    ∃ s', madtLoop mem (tableEnd mem madt) fuel (madt + 44) s = some s' := by
  obtain ⟨w, hw⟩ : ∃ w, walk (madtNext mem) (fun _ => false) (tableEnd mem madt) fuel (madt + 44) =
      some w := by
    refine walk_ends (fun _ => Nat.le_add_right ..) (fun entry hentry _ hstuck => ?_) (by omega)
    have hzero : (mem (entry + 1)).toNat = 0 := by
      rw [madtNext] at hstuck
      omega
    exact h entry hentry (BitVec.eq_of_toNat_eq hzero)
  exact ⟨_, by rw [madtLoop_eq_walk, hw, Option.map_some]⟩

/-- **A MADT that is enumerated** is sound, and its APICs are listed. -/
theorem madtLoop_lists (hs : s.Lists ids)
    (h : madtLoop mem (tableEnd mem madt) fuel (madt + 44) s = some s') :
    MadtSound mem madt ∧ s'.Lists (ids ++ madtApics mem madt) := by
  rw [madtLoop_eq_walk, Option.map_eq_some_iff] at h
  obtain ⟨w, hw, rfl⟩ := h
  have hsound : MadtSound mem madt := by
    intro entry hentry hzero
    have hstuck : madtNext mem entry = entry := by rw [madtNext, hzero]; rfl
    rw [walk_stuck hentry rfl hstuck] at hw
    cases hw
  refine ⟨hsound, ?_⟩
  -- the walk ended, so it took no more rounds than the table has bytes
  have hall : walk (madtNext mem) (fun _ => false) (tableEnd mem madt) (tableEnd mem madt + 1)
      (madt + 44) = some w :=
    walk_bound (fun _ => Nat.le_add_right ..) hw (by omega)
  rw [madtApics, hall]
  exact hs.foldl w.1

/-- **The tables that are enumerated**: their MADTs are sound, and the APICs of these are listed. -/
theorem acpiTables_lists {tables : List Nat} (hs : s.Lists ids)
    (h : tables.foldlM (acpiTable mem fuel) s = some s') :
    (∀ madt ∈ tables.filter fun header => readBytes mem header 4 = madtSignature, MadtSound mem madt) ∧
      s'.Lists (ids ++ (tables.filter fun header => readBytes mem header 4 = madtSignature).flatMap
        (madtApics mem)) := by
  induction tables generalizing s ids with
  | nil =>
    obtain rfl : s = s' := Option.some.inj h
    exact ⟨fun madt hmadt => absurd hmadt List.not_mem_nil, by simpa using hs⟩
  | cons header tables ih =>
    rw [List.foldlM_cons] at h
    obtain ⟨t, ht, hrest⟩ := Option.bind_eq_some_iff.mp h
    rw [acpiTable] at ht
    split at ht
    · rename_i hmadt
      -- the address of the local APIC is no part of the list
      have hlapic : Acpi.Lists { s with lapicAddr := le32 mem (header + 36) } ids :=
        ⟨hs.indices, hs.values, hs.count⟩
      obtain ⟨hsound, hlists⟩ := madtLoop_lists hlapic ht
      obtain ⟨hall, hlater⟩ := ih hlists hrest
      rw [List.filter_cons_of_pos (by simpa using hmadt), List.flatMap_cons, ← List.append_assoc]
      exact ⟨List.forall_mem_cons.mpr ⟨hsound, hall⟩, hlater⟩
    · rename_i hmadt
      obtain rfl : s = t := Option.some.inj ht
      rw [List.filter_cons_of_neg (by simpa using hmadt)]
      exact ih hs hrest

/-- **Sound tables** are enumerated. -/
theorem acpiTables_sound {tables : List Nat}
    (h : ∀ madt ∈ tables.filter fun header => readBytes mem header 4 = madtSignature,
      MadtSound mem madt ∧ tableEnd mem madt < fuel) :
    ∃ s', tables.foldlM (acpiTable mem fuel) s = some s' := by
  induction tables generalizing s with
  | nil => exact ⟨s, rfl⟩
  | cons header tables ih =>
    rw [List.foldlM_cons]
    by_cases hmadt : readBytes mem header 4 = madtSignature
    · rw [List.filter_cons_of_pos (by simpa using hmadt)] at h
      obtain ⟨⟨hsound, hfuel⟩, hlater⟩ := List.forall_mem_cons.mp h
      obtain ⟨t, ht⟩ := hsound.madtLoop (s := { s with lapicAddr := le32 mem (header + 36) }) hfuel
      obtain ⟨s', hs'⟩ := ih (s := t) hlater
      refine ⟨s', ?_⟩
      rw [acpiTable, if_pos hmadt]
      exact (congrArg (· >>= _) ht).trans hs'
    · rw [List.filter_cons_of_neg (by simpa using hmadt)] at h
      obtain ⟨s', hs'⟩ := ih (s := s) h
      refine ⟨s', ?_⟩
      rw [acpiTable, if_neg hmadt]
      exact hs'

/-- More rounds than any table has bytes. -/
def acpiFuel : Nat := 2 ^ 34

/-- **Sound MADTs** are enumerated. -/
theorem acpiInit_sound (h : ∀ madt ∈ madts mem, MadtSound mem madt) :
    ∃ s, acpiInit mem acpiFuel = some s := by
  rw [acpiInit]
  rw [madts] at h
  cases hrsdp : findRsdp mem with
  | none => exact ⟨_, rfl⟩
  | some rsdp =>
    simp only [hrsdp] at h
    refine acpiTables_sound fun madt hmadt => ⟨h madt hmadt, ?_⟩
    -- the addresses and the lengths have 32 bits
    obtain ⟨i, -, rfl⟩ := List.mem_map.mp (List.mem_of_mem_filter hmadt)
    have haddr := (le32 mem ((le32 mem (rsdp + 16)).toNat + 36 + 4 * i)).isLt
    have hlength := (le32 mem ((le32 mem ((le32 mem (rsdp + 16)).toNat + 36 + 4 * i)).toNat + 4)).isLt
    rw [tableEnd, acpiFuel]
    omega

/-- **Tables that are enumerated**: their MADTs are sound, and the APICs are stored in order. -/
theorem acpiInit_lists (h : acpiInit mem fuel = some s) :
    (∀ madt ∈ madts mem, MadtSound mem madt) ∧ s.Lists (apicIds mem) := by
  rw [acpiInit] at h
  rw [apicIds, madts]
  cases hrsdp : findRsdp mem with
  | none =>
    simp only [hrsdp, Option.some.injEq] at h
    rw [← h]
    exact ⟨fun madt hmadt => absurd hmadt List.not_mem_nil, ⟨rfl, rfl, rfl⟩⟩
  | some rsdp =>
    simp only [hrsdp] at h
    exact acpiTables_lists ⟨rfl, rfl, rfl⟩ h

/-- The entries of `sys_info_t.cpus` are in the array where there are no more CPUs than it has entries. -/
theorem sysInfo_within_iff (n : Nat) : (∀ i ∈ sysInfoWrites n ++ monitorReads n, i < 16) ↔ n ≤ 16 := by
  have hwrites : ∀ i ∈ sysInfoWrites n, i < 16 := by
    intro i hi
    rw [sysInfoWrites] at hi
    simpa using List.mem_takeWhile_imp hi
  constructor
  · intro h
    by_contra hmore
    -- the writes stop at 16 by themselves, the reads do not
    have hread : 16 ∈ monitorReads n := List.mem_range.mpr (not_le.mp hmore)
    exact absurd (h 16 (List.mem_append_right _ hread)) (lt_irrefl _)
  · intro hle i hi
    rcases List.mem_append.mp hi with hi | hi
    · exact hwrites i hi
    · exact (List.mem_range.mp hi).trans_le hle

/-- **When the enumeration is safe**: each entry the walk comes to has a length, no more than 64 local APICs
are enabled, and no more than 16 CPUs run in the end. -/
theorem cpusSafe_iff (mem : Buffer) (bspId : Byte) (starts : Nat → Bool) : CpusSafe mem bspId starts ↔
    (∀ madt ∈ madts mem, MadtSound mem madt) ∧ (apicIds mem).length ≤ 64 ∧
      cpuGetCount (smpStarted (apicIds mem) bspId starts) ≤ 16 := by
  have hstores : ∀ {s : Acpi}, s.Lists (apicIds mem) →
      ((∀ st ∈ s.stores, st.1 < 64) ↔ (apicIds mem).length ≤ 64) := by
    intro s hs
    have hindex : (∀ st ∈ s.stores, st.1 < 64) ↔ ∀ i ∈ s.stores.map Prod.fst, i < 64 := by
      rw [List.forall_mem_map]
    rw [hindex, hs.indices]
    constructor
    · intro h
      by_contra hmore
      exact absurd (h 64 (List.mem_range.mpr (not_le.mp hmore))) (lt_irrefl _)
    · exact fun hle i hi => (List.mem_range.mp hi).trans_le hle
  constructor
  · rintro ⟨fuel, s, hs, hindices, hentries⟩
    obtain ⟨hsound, hlists⟩ := acpiInit_lists hs
    rw [hlists.values, sysInfo_within_iff] at hentries
    exact ⟨hsound, (hstores hlists).mp hindices, hentries⟩
  · rintro ⟨hsound, hcount, hcpus⟩
    obtain ⟨s, hs⟩ := acpiInit_sound hsound
    obtain ⟨-, hlists⟩ := acpiInit_lists hs
    refine ⟨acpiFuel, s, hs, (hstores hlists).mpr hcount, ?_⟩
    rw [hlists.values, sysInfo_within_iff]
    exact hcpus

/-- A machine with one MADT, at `0x2000`, of this length and with these entries. -/
def firmware (length : Byte) (entries : Nat → Byte) : Buffer := fun p =>
  if 0xE0000 ≤ p ∧ p < 0xE0008 then rsdpSignature.getD (p - 0xE0000) 0
  -- the address of the RSDT, its length and its pointer
  else if p = 0xE0011 then 0x10#8
  else if p = 0x1004 then 40#8
  else if p = 0x1025 then 0x20#8
  else if 0x2000 ≤ p ∧ p < 0x2004 then madtSignature.getD (p - 0x2000) 0
  else if p = 0x2004 then length
  else if 0x202C ≤ p ∧ p < 0x2100 then entries (p - 0x202C)
  else 0#8

/-- Seventeen local APICs, all of them enabled. -/
def seventeenApics : Buffer := firmware 180 fun i =>
  if i % 8 = 1 then 8 else if i % 8 = 3 then BitVec.ofNat 8 (i / 8) else if i % 8 = 4 then 1 else 0

/-- With an entry without a length the walk does not end. With seventeen CPUs `monitor` reads the entry
behind the array. -/
theorem cpus_unsafe : (∀ fuel, acpiInit (firmware 46 fun _ => 0) fuel = none) ∧
    ¬ CpusSafe (firmware 46 fun _ => 0) 0 (fun _ => true) ∧
    ¬ CpusSafe seventeenApics 0 fun _ => true := by
  have hmadts : madts (firmware 46 fun _ => 0) = [0x2000] := by decide
  have hstuck : ∀ fuel, acpiInit (firmware 46 fun _ => 0) fuel = none := by
    intro fuel
    by_contra hends
    obtain ⟨s, hs⟩ := Option.ne_none_iff_exists'.mp hends
    have hsound := (acpiInit_lists hs).1 0x2000 (hmadts ▸ List.mem_singleton_self _)
    -- the first entry has type 0 and no length
    exact absurd (by decide) (hsound 0x202C (.start (by decide)))
  refine ⟨hstuck, ?_, ?_⟩
  · rintro ⟨fuel, s, hs, -⟩
    rw [hstuck fuel] at hs
    cases hs
  · have hcpus : cpuGetCount (smpStarted (apicIds seventeenApics) 0 fun _ => true) = 17 := by decide
    rintro ⟨fuel, s, hs, -, hentries⟩
    rw [(acpiInit_lists hs).2.values, sysInfo_within_iff, hcpus] at hentries
    exact absurd hentries (by decide)

end Enumeration

end ZohoOs
