import ZohoOs.Memory.ConcurrentMap
import ZohoOs.Memory.CowAccounting

/-!
# Clones that run out of frames

`vmm_clone_address_space` tests no allocation of its own. When frames run out, the root it has
is returned with a part of the copy below it; without a root, the null pointer is taken for one.

## Main definitions

* `CleanFailure`: what a failed clone should leave behind
* `Vmm.NoPages`: a space that maps no page in its user slots

## Main results

* `vmmClone_failsCleanly`: when a clone that runs out of frames fails cleanly
-/

namespace ZohoOs

open TransitionSystem

/-- The null pointer is returned, and the reference counts, the number of free frames and the
translations of `src` are as before. -/
structure CleanFailure (s : Vmm) (src : Nat) (out : Nat × Vmm) : Prop where
  null : out.1 = 0
  refs : ∀ frame, pmmGetRef out.2.pmm frame = pmmGetRef s.pmm frame
  freeCount : pmmGetFreeCount out.2.pmm = pmmGetFreeCount s.pmm
  phys : ∀ virt, vmmGetPhys out.2 src virt = vmmGetPhys s src virt
  flags : ∀ virt, vmmGetFlags out.2 src virt = vmmGetFlags s src virt

/-- A clone of `src` fails cleanly if the frames run out. -/
def FailsCleanly (s : Vmm) (src : Nat) : Prop :=
  ¬ s.pmm.Available (s.cloneNeeds src) → CleanFailure s src (vmmCloneAddressSpace s src)

/-- No page is mapped in the user slots, of 4 KiB or of 2 MiB. -/
structure Vmm.NoPages (s : Vmm) (src : Nat) : Prop where
  page : ∀ q : PageNumber, q.1 ≠ 0 → ¬ hasFlag (s.pte src q) pagePresent
  huge : ∀ i j k : Fin 512, i ≠ 0 → ¬ s.IsHuge src [j, i] k

/-- Nothing is mapped below slots that hold no table. -/
theorem Vmm.NoPages.of_slots {s : Vmm} {src : Nat}
    (hslots : ∀ i ≠ 0, ¬ hasFlag (s.mem src i) pagePresent) : s.NoPages src := by
  have hnone : ∀ i ≠ 0, s.table src [i] = none := by
    intro i hi
    rw [Vmm.table_cons (Vmm.table_nil s src)]
    apply Vmm.edge_none_of_not_present
    simpa using hslots i hi
  refine ⟨fun q hq => ?_, fun i j k hi hhuge => ?_⟩
  · rw [Vmm.pte_of_table_none (hnone q.1 hq) ⟨[q.2.2.2, q.2.2.1, q.2.1], rfl⟩ (by simp),
      zero_hasFlag]
    simp
  · have hbelow : s.table src [j, i] = none :=
      Vmm.table_none_of_suffix (hnone i hi) (List.suffix_cons j [i])
    have hpres := hhuge.1
    rw [Vmm.entry_of_none hbelow, zero_hasFlag] at hpres
    simp at hpres

/-! ## Without a free frame -/

section NoFrames

variable {s : Vmm} {src : Nat}

theorem ensureNextTable_noFrames {s : Vmm} (hstack : s.pmm.freeStack = []) (t : Nat) (i : Fin 512) :
    (ensureNextTable s t i).2 = s.touch t := by
  have halloc : pmmAllocFrame s.pmm = (0, s.pmm) := by
    rw [pmmAllocFrame, hstack]
  simp only [ensureNextTable, allocZeroedTable, Vmm.touch_pmm, halloc, if_true]
  split <;> rfl

theorem vmmCreateAddressSpace_noFrames (hstack : s.pmm.freeStack = []) :
    vmmCreateAddressSpace s = (0, s) := by
  have halloc : pmmAllocFrame s.pmm = (0, s.pmm) := by
    rw [pmmAllocFrame, hstack]
  simp only [vmmCreateAddressSpace, allocZeroedTable, halloc, if_true]

/-- A loop whose body leaves the machine as it was does so too. -/
theorem foldl_unread {body : Vmm → Fin 512 → Vmm} (l : List (Fin 512))
    (hbody : ∀ i ∈ l, ∀ t, t.unread = s.unread → (body t i).unread = s.unread) (t : Vmm)
    (ht : t.unread = s.unread) : (l.foldl body t).unread = s.unread := by
  induction l generalizing t with
  | nil => exact ht
  | cons a l ih =>
    apply ih fun i hi => hbody i (List.mem_cons_of_mem a hi)
    exact hbody a List.mem_cons_self t ht

theorem Vmm.unread_mem {t : Vmm} (h : t.unread = s.unread) : t.mem = s.mem :=
  congrArg (fun u => u.mem) h

theorem Vmm.unread_pmm {t : Vmm} (h : t.unread = s.unread) : t.pmm = s.pmm :=
  congrArg (fun u => u.pmm) h

theorem getExistingTable_congr {t : Vmm} (hmem : t.mem = s.mem) :
    getExistingTable t = getExistingTable s := by
  funext table index
  rw [getExistingTable, hmem, getExistingTable]

theorem vmmGetPhys_congr {t : Vmm} (hmem : t.mem = s.mem) (r : Nat) (virt : BitVec 64) :
    vmmGetPhys t r virt = vmmGetPhys s r virt := by
  rw [vmmGetPhys, vmmGetPhys, getExistingTable_congr hmem, hmem]

theorem vmmGetFlags_congr {t : Vmm} (hmem : t.mem = s.mem) (r : Nat) (virt : BitVec 64) :
    vmmGetFlags t r virt = vmmGetFlags s r virt := by
  rw [vmmGetFlags, vmmGetFlags, getExistingTable_congr hmem, hmem]

/-- Where the source maps nothing, the loops only read. By induction on the level. -/
theorem cloneEntry_noPages (hstack : s.pmm.freeStack = []) (hpages : s.NoPages src) (n : Nat) :
    ∀ (P : List (Fin 512)) (i : Fin 512) (ts td : Nat) (t : Vmm), t.unread = s.unread →
      P.length + n = 3 → (i :: P).getLast? ≠ some 0 → s.table src P = some ts →
      (cloneEntry n ts td t i).unread = s.unread := by
  induction n with
  | zero =>
    intro P i ts td t ht hlen hslot hts
    obtain ⟨q, rfl, rfl⟩ := PageNumber.exists_of_path hlen i
    have hpres : ¬ hasFlag (t.mem ts q.2.2.2) pagePresent := by
      rw [Vmm.unread_mem ht, ← Vmm.entry_of_table hts]
      apply hpages.page q
      rintro hq
      exact hslot (congrArg some hq)
    rw [cloneEntry, Vmm.touch_mem, if_neg hpres]
    exact ht
  | succ n ih =>
    intro P i ts td t ht hlen hslot hts
    have hmem : t.mem ts i = s.entry src P i := by
      rw [Vmm.unread_mem ht, ← Vmm.entry_of_table hts]
    rw [cloneEntry_succ]
    by_cases hpres : hasFlag (t.mem ts i) pagePresent = true
    · have hnotHuge : ¬ (n = 0 ∧ hasFlag (t.mem ts i) pageHuge = true) := by
        rintro ⟨rfl, hhuge⟩
        obtain ⟨j, k, rfl⟩ : ∃ j k, P = [j, k] := List.length_eq_two.mp (by omega)
        apply hpages.huge k j i
        · rintro rfl
          exact hslot rfl
        · exact ⟨hmem ▸ hpres, hmem ▸ hhuge⟩
      rw [if_pos hpres, if_neg hnotHuge,
        ensureNextTable_noFrames (by rw [Vmm.touch_pmm, Vmm.unread_pmm ht, hstack])]
      have hown : s.Own src P i := by
        rintro ⟨-, rfl, rfl⟩
        exact hslot rfl
      have hnext : s.table src (i :: P) = some (pageOf (t.mem ts i)) := by
        rw [Vmm.table_cons hts, Vmm.edge_of_own hown, ← Vmm.entry_of_table hts, ← hmem, if_pos]
        exact ⟨by omega, hpres, fun hc => hnotHuge ⟨by omega, hc.2⟩⟩
      -- every entry of the next table is below the same root slot
      refine foldl_unread tableSlots (fun j _ t' ht' => ?_) _ ht
      apply ih (i :: P) j _ _ t' ht' (by simp; omega) _ hnext
      rwa [List.getLast?_cons_cons]
    · rw [if_neg hpres]
      exact ht

/-- **Nothing to copy and no frame**: the clone fails cleanly. -/
theorem vmmClone_noPages (hstack : s.pmm.freeStack = []) (hpages : s.NoPages src) :
    CleanFailure s src (vmmCloneAddressSpace s src) := by
  have hsame : (userSlots.foldl (cloneEntry 3 src 0) s).unread = s.unread := by
    refine foldl_unread userSlots (fun i hi t ht => ?_) s rfl
    apply cloneEntry_noPages hstack hpages 3 [] i src 0 t ht rfl _ rfl
    simpa using mem_userSlots.mp hi
  have heq : vmmCloneAddressSpace s src = (0, userSlots.foldl (cloneEntry 3 src 0) s) := by
    simp only [vmmCloneAddressSpace, vmmCreateAddressSpace_noFrames hstack]
  rw [heq]
  generalize userSlots.foldl (cloneEntry 3 src 0) s = t at hsame ⊢
  have hpmm := Vmm.unread_pmm hsame
  have hmem := Vmm.unread_mem hsame
  refine ⟨rfl, fun frame => by rw [hpmm], by rw [hpmm], fun virt => ?_, fun virt => ?_⟩
  · exact vmmGetPhys_congr hmem src virt
  · exact vmmGetFlags_congr hmem src virt

end NoFrames

/-! ## What every clone does -/

/-- A call of the loops gives no frame back that it did not take, and forgets no table it read. -/
structure CloneGrows (s s' : Vmm) : Prop where
  free_le : s'.pmm.freeStack.length ≤ s.pmm.freeStack.length
  touched : s.touched ⊆ s'.touched

section Grows

variable {s s' s'' : Vmm}

theorem CloneGrows.refl (s : Vmm) : CloneGrows s s := ⟨Nat.le_refl _, List.Subset.refl _⟩

theorem CloneGrows.trans (h : CloneGrows s s') (h' : CloneGrows s' s'') : CloneGrows s s'' :=
  ⟨Nat.le_trans h'.free_le h.free_le, List.Subset.trans h.touched h'.touched⟩

theorem CloneGrows.touch (s : Vmm) (t : Nat) : CloneGrows s (s.touch t) :=
  ⟨Nat.le_refl _, List.subset_cons_self t _⟩

theorem CloneGrows.write (s : Vmm) (t : Nat) (i : Fin 512) (e : BitVec 64) :
    CloneGrows s (s.write t i e) :=
  ⟨Nat.le_refl _, List.subset_cons_self t _⟩

theorem length_freeStack_free (pmm : Pmm) (a : Nat) :
    (pmmFreeFrame pmm a).freeStack.length ≤ pmm.freeStack.length + 1 := by
  unfold pmmFreeFrame
  dsimp only
  split_ifs <;> simp

/-- After it has read its table. -/
theorem CloneGrows.ensureNextTable (s : Vmm) (t : Nat) (i : Fin 512) :
    CloneGrows (s.touch t) (ensureNextTable s t i).2 := by
  have hlen : (pmmAllocFrame s.pmm).2.freeStack.length = s.pmm.freeStack.length - 1 := by
    rw [freeStack_alloc, List.length_tail]
  unfold ZohoOs.ensureNextTable
  by_cases hnext : getExistingTable (s.touch t) t i = 0
  · by_cases hx : (pmmAllocFrame s.pmm).1 = 0
    · simp only [hnext, allocZeroedTable, Vmm.touch_pmm, hx, ne_eq, not_true, if_false, if_true]
      exact ⟨by simp only [hlen, Vmm.touch_pmm]; omega, List.Subset.refl _⟩
    · simp only [hnext, allocZeroedTable, Vmm.touch_pmm, hx, ne_eq, not_true, if_false]
      have hpos : 0 < s.pmm.freeStack.length := by
        apply List.length_pos_iff.mpr
        intro hnil
        rw [pmmAllocFrame, hnil] at hx
        exact hx rfl
      split
      · refine ⟨by simp only [Vmm.write_pmm, Vmm.touch_pmm, hlen]; omega, fun x hmem => ?_⟩
        simpa using Or.inr (Or.inr hmem)
      · -- the frame taken is the one given back
        have hfree := length_freeStack_free (pmmAllocFrame s.pmm).2 (pmmAllocFrame s.pmm).1
        refine ⟨by simp only [Vmm.touch_pmm]; omega, fun x hmem => ?_⟩
        exact List.mem_cons_of_mem _ hmem
  · simp only [hnext, ne_eq, not_false_eq_true, if_true]
    exact .refl _

theorem CloneGrows.cloneLeaf (addrMask : BitVec 64) (ts td : Nat) (s : Vmm) (i : Fin 512) :
    CloneGrows s (cloneLeaf addrMask ts td s i) := by
  have harmed : CloneGrows s (s.armed addrMask ts i) := by
    unfold Vmm.armed
    split
    · exact .write s ts i _
    · exact .refl s
  have hwrites := harmed.trans (.write _ td i (leafCopy addrMask (s.mem ts i)))
  refine ⟨?_, ?_⟩
  · rw [cloneLeaf_pmm, pmmRefInc_freeStack]
  · rw [cloneLeaf_armed]
    exact hwrites.touched

theorem CloneGrows.foldl {body : Vmm → Fin 512 → Vmm} (l : List (Fin 512))
    (hbody : ∀ t i, CloneGrows t (body t i)) (s : Vmm) : CloneGrows s (l.foldl body s) := by
  induction l generalizing s with
  | nil => exact .refl s
  | cons a l ih => exact (hbody s a).trans (ih (body s a))

/-- The body of the loops, by induction on the level. -/
theorem CloneGrows.cloneEntry (n : Nat) :
    ∀ (ts td : Nat) (s : Vmm) (i : Fin 512), CloneGrows s (cloneEntry n ts td s i) := by
  induction n with
  | zero =>
    intro ts td s i
    rw [ZohoOs.cloneEntry]
    split
    · exact (CloneGrows.touch s ts).trans (.cloneLeaf _ ts td _ i)
    · exact .touch s ts
  | succ n ih =>
    intro ts td s i
    rw [cloneEntry_succ]
    split
    · split
      · exact (CloneGrows.touch s ts).trans (.cloneLeaf _ ts td _ i)
      · apply (CloneGrows.touch s ts).trans
        apply (CloneGrows.touch _ td).trans
        apply (CloneGrows.ensureNextTable _ td i).trans
        exact .foldl tableSlots (fun t j => ih _ _ t j) _
    · exact .touch s ts

/-- A root slot in use makes the loops read `dst` as a table. -/
theorem dst_touched {src dst : Nat} (l : List (Fin 512)) (s : Vmm)
    (hslot : ∃ i ∈ l, hasFlag (s.mem src i) pagePresent = true) :
    dst ∈ (l.foldl (cloneEntry 3 src dst) s).touched := by
  induction l generalizing s with
  | nil => simp at hslot
  | cons a l ih =>
    rw [List.foldl_cons, cloneEntry_succ]
    by_cases hpres : hasFlag (s.mem src a) pagePresent = true
    · rw [if_pos hpres, if_neg (by simp)]
      -- read here, whatever the tables are from here on
      apply (CloneGrows.foldl l (fun t j => .cloneEntry 3 src dst t j) _).touched
      apply (CloneGrows.foldl tableSlots (fun t j => .cloneEntry 2 _ _ t j) _).touched
      apply (CloneGrows.ensureNextTable _ dst a).touched
      exact List.mem_cons_self
    · rw [if_neg hpres]
      apply ih
      obtain ⟨i, hi, hi'⟩ := hslot
      rcases List.mem_cons.mp hi with rfl | hi
      · exact absurd hi' hpres
      · exact ⟨i, hi, hi'⟩

end Grows

/-! ## When a clone fails cleanly -/

section Fails

variable {s : Vmm} {src : Nat}

/-- A frame that was free is gone after the call. -/
theorem vmmClone_takes (src : Nat) (hstack : s.pmm.freeStack ≠ []) :
    (vmmCloneAddressSpace s src).2.pmm.freeStack.length < s.pmm.freeStack.length := by
  have hcreate : (vmmCreateAddressSpace s).2.pmm.freeStack = s.pmm.freeStack.tail := by
    rw [← freeStack_alloc]
    simp only [vmmCreateAddressSpace, allocZeroedTable]
    split_ifs <;> rfl
  have hgrows := CloneGrows.foldl userSlots
    (fun t i => .cloneEntry 3 src (vmmCreateAddressSpace s).1 t i) (vmmCreateAddressSpace s).2
  have hpos := List.length_pos_iff.mpr hstack
  have hle := hgrows.free_le
  rw [hcreate, List.length_tail] at hle
  exact Nat.lt_of_le_of_lt hle (by omega)

/-- Without a frame, a source with a root slot in use has the null pointer read as a table. -/
theorem vmmClone_reads_null (hstack : s.pmm.freeStack = []) (hpages : ¬ s.NoPages src) :
    0 ∈ (vmmCloneAddressSpace s.unread src).2.touched := by
  have hunread : s.unread.pmm.freeStack = [] := hstack
  have heq : vmmCloneAddressSpace s.unread src =
      (0, userSlots.foldl (cloneEntry 3 src 0) s.unread) := by
    simp only [vmmCloneAddressSpace, vmmCreateAddressSpace_noFrames hunread]
  rw [heq]
  apply dst_touched
  by_contra hnone
  apply hpages
  apply Vmm.NoPages.of_slots
  intro i hi hpres
  exact hnone ⟨i, mem_userSlots.mpr hi, hpres⟩

/-- **When a clone fails cleanly**: if the frames suffice, or none is free and the source maps no
page. In every other state it does not, or takes the null pointer for a table: with a frame for
the root, the root is returned and the frame is gone. -/
theorem vmmClone_failsCleanly (s : Vmm) (src : Nat) :
    (s.pmm.Available (s.cloneNeeds src) ∨ s.pmm.freeStack = [] ∧ s.NoPages src →
      FailsCleanly s src) ∧
    (FailsCleanly s src → s.pmm.Available (s.cloneNeeds src) ∨ s.pmm.freeStack = [] ∧
      (s.NoPages src ∨ 0 ∈ (vmmCloneAddressSpace s.unread src).2.touched)) := by
  refine ⟨?_, fun hclean => ?_⟩
  · rintro (hav | ⟨hstack, hpages⟩) hno
    · exact absurd hav hno
    · exact vmmClone_noPages hstack hpages
  · by_cases hav : s.pmm.Available (s.cloneNeeds src)
    · exact Or.inl hav
    · obtain ⟨-, -, hcount, -, -⟩ := hclean hav
      have hstack : s.pmm.freeStack = [] := by
        by_contra hne
        have hlt := vmmClone_takes src hne
        rw [pmmGetFreeCount_eq, pmmGetFreeCount_eq] at hcount
        omega
      refine Or.inr ⟨hstack, ?_⟩
      by_cases hpages : s.NoPages src
      · exact Or.inl hpages
      · exact Or.inr (vmmClone_reads_null hstack hpages)

end Fails

/-! ## A clone at boot -/

theorem smallPmm_inv : PmmInv smallPmm where
  toStackInv := smallPmm_stack
  ref_free _ _ := rfl
  conserved := by
    have hnone : referenced smallPmm.refCounts = ∅ := by
      apply Finset.filter_eq_empty_iff.mpr
      intro f _
      exact Nat.lt_irrefl 0
    rw [hnone]
    rfl

/-- A space that maps one page: three of the eight frames are left, and a copy takes four. -/
def onePage : List CowOp :=
  [.create 0x10D000, .map 0x10D000 0x8000000000#64 0x7#64 fun _ => 0#64]

/-- The small machine with such a space. -/
def onePageWorld : World :=
  onePage.foldl (fun w op => op.run w) ⟨bootVmm (fun _ _ => 0#64) 0x100000 smallPmm, ∅⟩

theorem onePageWorld_inv : CowInv {a | a ∈ bootFrames} onePageWorld.live (fun _ => 0) onePageWorld.vmm := by
  have hallowed : Allowed CowOp.Valid CowOp.run ⟨bootVmm (fun _ _ => 0#64) 0x100000 smallPmm, ∅⟩
      onePage := by
    refine ⟨⟨by decide +kernel, by decide +kernel⟩, ⟨by decide +kernel, by decide, by decide,
      by decide, by decide, by decide +kernel, by decide +kernel, ?_⟩, trivial⟩
    decide +kernel
  exact cowRun_inv (bootVmm_wf (by decide) (by decide) (by decide) smallPmm_stack (by decide)) rfl
    smallPmm_inv hallowed.run

/-- The clone of a space that maps one page, with three frames free, leaves none of them. -/
theorem vmmClone_failsCleanly_onePage : Wf onePageWorld.vmm onePageWorld.live ∧
    0x10D000 ∈ onePageWorld.live ∧ onePageWorld.vmm.NoHuge 0x10D000 ∧
    ¬ FailsCleanly onePageWorld.vmm 0x10D000 := by
  have hinv := onePageWorld_inv
  have hsrc : 0x10D000 ∈ onePageWorld.live := by decide +kernel
  refine ⟨hinv.wf, hsrc, hinv.noHuge hsrc, fun hclean => ?_⟩
  have hstack : onePageWorld.vmm.pmm.freeStack.length = 3 := by decide +kernel
  have hneeds : onePageWorld.vmm.cloneNeeds 0x10D000 = 4 := by decide +kernel
  have hno : ¬ onePageWorld.vmm.pmm.Available (onePageWorld.vmm.cloneNeeds 0x10D000) := by
    rw [hneeds]
    rintro ⟨hlen, -⟩
    omega
  -- the frames are gone, whatever the clone has made of them
  have hcount := (hclean hno).freeCount
  have hsome : onePageWorld.vmm.pmm.freeStack ≠ [] := List.length_pos_iff.mp (by omega)
  have hlt := vmmClone_takes 0x10D000 hsome
  rw [pmmGetFreeCount_eq, pmmGetFreeCount_eq] at hcount
  omega

end ZohoOs
