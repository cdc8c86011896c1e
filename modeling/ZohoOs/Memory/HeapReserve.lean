import Mathlib.Order.Interval.Finset.Nat
import ZohoOs.Memory.Kmalloc
import ZohoOs.Memory.PmmInvariant

/-!
# The heap and the frame allocator share a range

`kmallocInit` means to take the heap's frames out of the allocator, but it pops as many frames
as the heap has, whichever they are. The free stack holds the highest frames on top, so the
heap's own frames leave the allocator exactly when each of them that is free at boot is among
the highest `heapSize / pageSize` free frames.

## Main definitions

* `PmmOp.OutsideHeap`: calls that pass no address of the heap
* `HeapOnTop`: the memory maps whose free heap frames are the highest free frames

## Main results

* `heapFrames_disjoint_iff`: the allocator never returns a heap frame iff `HeapOnTop`
* `heapFrames_handed_out`: on a machine with 64 MiB it does
-/

namespace ZohoOs

open TransitionSystem

/-- The calls of a client that holds no frame of the heap. -/
def PmmOp.OutsideHeap : PmmOp → Prop
  | .alloc => True
  | .free addr => ¬ InHeap addr
  | .refInc addr => ¬ InHeap addr

/-- The frames the memory map leaves to the allocator, from frame `f` up. -/
def freeFrom (mbInfo : MultibootInfo) (kernelEnd f : Nat) : Finset Nat :=
  (Finset.range maxFrames).filter fun g => f ≤ g ∧ freeAtBoot mbInfo kernelEnd g

/-- Each heap frame free at boot is among the highest free frames, as many as the heap has. -/
def HeapOnTop (mbInfo : MultibootInfo) (kernelEnd : Nat) : Prop :=
  ∀ f, InHeap (f * pageSize) → freeAtBoot mbInfo kernelEnd f →
    (freeFrom mbInfo kernelEnd f).card ≤ heapSize / pageSize

/-! ## Popping the stack -/

theorem freeStack_reserveHeapFrames (s : Pmm) (n : Nat) :
    (reserveHeapFrames s n).freeStack = s.freeStack.drop n := by
  induction n generalizing s with
  | zero => rfl
  | succ n ih => rw [reserveHeapFrames, ih, freeStack_alloc, List.drop_tail]

/-- The elements left after dropping `k` from a descending list of numbers are those with at
least `k` listed numbers above them. -/
theorem mem_drop_filter_range (p : Nat → Bool) (n k f : Nat) :
    f ∈ ((List.range n).filter p).reverse.drop k ↔
      f < n ∧ p f ∧ k < ((Finset.range n).filter fun g => f ≤ g ∧ p g).card := by
  induction n generalizing k with
  | zero => simp
  | succ n ih =>
    -- `n` is the greatest of the elements: in the reversed list it comes first, if it is there at all
    rw [List.range_succ, List.filter_append, List.reverse_append, Finset.range_add_one,
      Finset.filter_insert]
    by_cases hp : p n
    · have hnot : n ∉ (Finset.range n).filter fun g => f ≤ g ∧ p g := by simp
      simp only [hp, List.filter_cons_of_pos, List.filter_nil, List.reverse_singleton,
        List.singleton_append, and_true]
      cases k with
      | zero =>
        have h0 := ih 0
        rw [List.drop_zero] at h0 ⊢
        rw [List.mem_cons, h0]
        constructor
        · rintro (rfl | ⟨hlt, hpf, -⟩)
          · exact ⟨Nat.lt_succ_self _, hp, by simp⟩
          · exact ⟨by omega, hpf, by simp [show f ≤ n by omega]⟩
        · rintro ⟨hlt, hpf, hcard⟩
          rcases Nat.lt_succ_iff_lt_or_eq.mp hlt with hlt | rfl
          · exact Or.inr ⟨hlt, hpf, Finset.card_pos.mpr ⟨f, by simp [hlt, hpf]⟩⟩
          · exact Or.inl rfl
      | succ k =>
        -- without `n`, one element less is dropped of the others
        rw [List.drop_succ_cons, ih k]
        constructor
        · rintro ⟨hlt, hpf, hcard⟩
          refine ⟨by omega, hpf, ?_⟩
          rw [if_pos (by omega), Finset.card_insert_of_notMem hnot]
          omega
        · rintro ⟨hlt, hpf, hcard⟩
          rcases Nat.lt_succ_iff_lt_or_eq.mp hlt with hlt | rfl
          · rw [if_pos (by omega), Finset.card_insert_of_notMem hnot] at hcard
            exact ⟨hlt, hpf, by omega⟩
          · -- nothing below `n` is at least `n`
            have hnone : ((Finset.range f).filter fun g => f ≤ g ∧ p g) = ∅ := by
              ext g
              simp only [Finset.mem_filter, Finset.mem_range, Finset.notMem_empty, iff_false]
              omega
            rw [if_pos le_rfl, Finset.card_insert_of_notMem hnot, hnone] at hcard
            simp at hcard
    · simp only [hp, List.filter_cons_of_neg, not_false_eq_true, List.filter_nil, Bool.false_eq_true,
        List.reverse_nil, List.nil_append, and_false, if_false]
      rw [ih k]
      constructor
      · rintro ⟨hlt, hpf, hcard⟩
        exact ⟨by omega, hpf, hcard⟩
      · rintro ⟨hlt, hpf, hcard⟩
        rcases Nat.lt_succ_iff_lt_or_eq.mp hlt with hlt | rfl
        · exact ⟨hlt, hpf, hcard⟩
        · exact absurd hpf hp

/-- The heap frames still on the stack after `kmallocInit`. -/
theorem mem_freeStack_kmallocInit {mbInfo : MultibootInfo} {kernelEnd : Nat} {s : Pmm}
    (h : pmmInit mbInfo kernelEnd = some s) (headers : Nat → KmallocHeader) (addr : Nat) :
    addr ∈ (kmallocInit headers s).2.freeStack ↔
      ∃ f, f * pageSize = addr ∧ freeAtBoot mbInfo kernelEnd f ∧
        heapSize / pageSize < (freeFrom mbInfo kernelEnd f).card := by
  have hstack : (kmallocInit headers s).2.freeStack = s.freeStack.drop (heapSize / pageSize) :=
    freeStack_reserveHeapFrames s _
  rw [hstack, (pmmInit_spec h).1, ← List.map_drop, List.mem_map]
  simp only [mem_drop_filter_range, freeFrom]
  constructor
  · rintro ⟨f, ⟨-, hfree, hcard⟩, he⟩
    exact ⟨f, he, hfree, hcard⟩
  · rintro ⟨f, he, hfree, hcard⟩
    refine ⟨f, ⟨?_, hfree, hcard⟩, he⟩
    simp only [freeAtBoot, Bool.and_eq_true, decide_eq_true_eq] at hfree
    exact hfree.1.1.1

/-! ## Runs after `kmallocInit` -/

/-- With no heap frame on the stack, a call that passes none leaves none. -/
theorem noHeapFrame_step {s t : Pmm} {op : PmmOp} (h : ∀ addr ∈ s.freeStack, ¬ InHeap addr)
    (hstep : Restrict (fun _ op => op.OutsideHeap) (Apply PmmOp.run) s op t) :
    ∀ addr ∈ t.freeStack, ¬ InHeap addr := by
  obtain ⟨hout, rfl⟩ := hstep
  cases op with
  | alloc =>
    intro addr ha
    rw [PmmOp.run, freeStack_alloc] at ha
    exact h addr (List.mem_of_mem_tail ha)
  | free a =>
    intro addr ha
    simp only [PmmOp.run, pmmFreeFrame] at ha
    split at ha
    · exact h addr ha
    · split at ha
      · split at ha
        · split at ha
          · rcases List.mem_cons.mp ha with rfl | ha
            · exact hout
            · exact h addr ha
          · exact h addr ha
        · exact h addr ha
      · exact h addr ha
  | refInc a =>
    intro addr ha
    simp only [PmmOp.run, pmmRefInc] at ha
    split at ha <;> exact h addr ha

theorem pmmAllocFrame_fst_mem {s : Pmm} :
    (pmmAllocFrame s).1 ∈ s.freeStack ∨ (pmmAllocFrame s).1 = 0 := by
  unfold pmmAllocFrame
  cases s.freeStack with
  | nil => exact Or.inr rfl
  | cons => exact Or.inl List.mem_cons_self

/-- A run of allocations reaches every frame on the stack. -/
theorem exists_allocs_returning {s : Pmm} {addr : Nat} (h : addr ∈ s.freeStack) :
    ∃ ops t, Run (Restrict (fun _ op => op.OutsideHeap) (Apply PmmOp.run)) s ops t ∧
      (pmmAllocFrame t).1 = addr := by
  obtain ⟨l₁, l₂, hl⟩ := List.append_of_mem h
  induction l₁ generalizing s with
  | nil =>
    refine ⟨[], s, Run.nil s, ?_⟩
    unfold pmmAllocFrame
    rw [hl]
    rfl
  | cons a l₁ ih =>
    have htail : (pmmAllocFrame s).2.freeStack = l₁ ++ addr :: l₂ := by rw [freeStack_alloc, hl]; rfl
    obtain ⟨ops, t, hrun, ht⟩ := ih (s := (pmmAllocFrame s).2) (by simp [htail]) htail
    exact ⟨.alloc :: ops, t, Run.cons ⟨trivial, rfl⟩ hrun, ht⟩

/-- **When the heap and the allocator stay apart.** For every memory map: no run of calls that
pass no heap address makes `pmmAllocFrame` return one, iff every heap frame free at boot is
among the highest free frames, as many as the heap has. -/
theorem heapFrames_disjoint_iff {mbInfo : MultibootInfo} {kernelEnd : Nat} {s₀ : Pmm}
    (h₀ : pmmInit mbInfo kernelEnd = some s₀) (headers : Nat → KmallocHeader) :
    (∀ ops s, Run (Restrict (fun _ op => op.OutsideHeap) (Apply PmmOp.run))
        (kmallocInit headers s₀).2 ops s → ¬ InHeap (pmmAllocFrame s).1) ↔
      HeapOnTop mbInfo kernelEnd := by
  constructor
  · intro h f hheap hfree
    by_contra hcard
    have hmem := (mem_freeStack_kmallocInit h₀ headers (f * pageSize)).mpr
      ⟨f, rfl, hfree, not_le.mp hcard⟩
    obtain ⟨ops, t, hrun, ht⟩ := exists_allocs_returning hmem
    exact h ops t hrun (ht ▸ hheap)
  · intro h ops s hrun hheap
    have hnone : ∀ addr ∈ s.freeStack, ¬ InHeap addr := by
      refine hrun.invariant (I := fun s : Pmm => ∀ addr ∈ s.freeStack, ¬ InHeap addr)
        (fun _ _ _ hs hstep => noHeapFrame_step hs hstep) fun addr ha hin => ?_
      obtain ⟨f, rfl, hfree, hcard⟩ := (mem_freeStack_kmallocInit h₀ headers addr).mp ha
      exact absurd (h f hin hfree) (not_le.mpr hcard)
    rcases pmmAllocFrame_fst_mem (s := s) with hmem | hzero
    · exact hnone _ hmem hheap
    · rw [hzero] at hheap
      exact absurd hheap (by decide)

/-- A machine with 32 MiB of memory, which ends with the heap. -/
def machine32 : MultibootInfo where
  address := 0x9000
  totalSize := 0x400
  tags := [.mmap [⟨0, 0x9F000, 1⟩, ⟨0x100000, 0x1F00000, 1⟩]]

theorem lt_of_freeAtBoot_machine32 {f : Nat} (h : freeAtBoot machine32 0x200000 f) : f < 0x2000 := by
  simp only [freeAtBoot, Bool.and_eq_true] at h
  have hcov := h.1.1.2
  simp [machine32, MultibootInfo.covers, MultibootTag.covers, MultibootTag.entries, MmapEntry.covers, visits,
    pageSize] at hcov
  omega

/-- On a machine with 32 MiB the frames of the heap are free at boot, and never returned. -/
theorem heapFrames_disjoint_machine32 :
    (InHeap (0x1000 * pageSize) ∧ freeAtBoot machine32 0x200000 0x1000) ∧
      ∃ s₀, pmmInit machine32 0x200000 = some s₀ ∧ ∀ headers ops s,
        Run (Restrict (fun _ op => op.OutsideHeap) (Apply PmmOp.run)) (kmallocInit headers s₀).2 ops s →
          ¬ InHeap (pmmAllocFrame s).1 := by
  obtain ⟨s₀, h₀⟩ : ∃ s₀, pmmInit machine32 0x200000 = some s₀ :=
    Option.isSome_iff_exists.mp (pmmInit_isSome (by decide) (by decide) (by decide))
  refine ⟨by decide, s₀, h₀, fun headers => (heapFrames_disjoint_iff h₀ headers).mpr fun f hheap hfree => ?_⟩
  -- at and above a frame of the heap there are the heap's only
  have hsub : freeFrom machine32 0x200000 f ⊆ Finset.Ico 0x1000 0x2000 := by
    intro g hg
    simp only [freeFrom, Finset.mem_filter] at hg
    have hlt := lt_of_freeAtBoot_machine32 hg.2.2
    obtain ⟨hlow, -⟩ := hheap
    simp only [pageSize, heapStart] at hlow
    rw [Finset.mem_Ico]
    omega
  have hcard := Finset.card_le_card hsub
  rwa [Nat.card_Ico] at hcard

/-- A machine with 64 MiB of memory, its first MiB reserved. -/
def machine64 : MultibootInfo where
  address := 0x9000
  totalSize := 0x400
  tags := [.mmap [⟨0, 0x9F000, 1⟩, ⟨0x100000, 0x3F00000, 1⟩]]

theorem freeAtBoot_machine64 {f : Nat} (hf : 0x1000 ≤ f) (hlt : f < 0x4000) :
    freeAtBoot machine64 0x200000 f = true := by
  have hcov : machine64.covers f = true := by
    simp [machine64, MultibootInfo.covers, MultibootTag.covers, MultibootTag.entries,
      MmapEntry.covers, visits, pageSize]
    omega
  have hkernel : visits 0 0x200000 f = false := by
    simp only [visits, pageSize, decide_eq_false_iff_not]
    omega
  have hblock : visits 0x9000 0x9400 f = false := by
    simp only [visits, pageSize, decide_eq_false_iff_not]
    omega
  have hmax : f < maxFrames := Nat.lt_trans hlt (by decide)
  simp only [freeAtBoot, hcov, hkernel, hmax, decide_true, Bool.and_true, Bool.not_false]
  simpa [machine64] using hblock

/-- On a machine with 64 MiB, allocations alone reach the first frame of the heap. -/
theorem heapFrames_handed_out :
    ∃ s₀ ops s, pmmInit machine64 0x200000 = some s₀ ∧
      Run (Restrict (fun _ op => op.OutsideHeap) (Apply PmmOp.run))
        (kmallocInit (fun _ => ⟨0, false, 0⟩) s₀).2 ops s ∧
      InHeap (pmmAllocFrame s).1 := by
  obtain ⟨s₀, h₀⟩ : ∃ s₀, pmmInit machine64 0x200000 = some s₀ :=
    Option.isSome_iff_exists.mp (pmmInit_isSome (by decide) (by decide) (by decide))
  -- 48 MiB of free frames lie at or above the heap's first
  have hsub : Finset.Ico 0x1000 0x4000 ⊆ freeFrom machine64 0x200000 0x1000 := by
    intro g hg
    rw [Finset.mem_Ico] at hg
    refine Finset.mem_filter.mpr ⟨Finset.mem_range.mpr (by simp only [maxFrames]; omega), hg.1, ?_⟩
    exact freeAtBoot_machine64 hg.1 hg.2
  have hcard : heapSize / pageSize < (freeFrom machine64 0x200000 0x1000).card := by
    refine lt_of_lt_of_le ?_ (Finset.card_le_card hsub)
    rw [Nat.card_Ico]
    decide
  have hmem := (mem_freeStack_kmallocInit h₀ (fun _ => ⟨0, false, 0⟩) (0x1000 * pageSize)).mpr
    ⟨0x1000, rfl, freeAtBoot_machine64 (Nat.le_refl _) (by omega), hcard⟩
  obtain ⟨ops, s, hrun, hs⟩ := exists_allocs_returning hmem
  exact ⟨s₀, ops, s, h₀, hrun, by rw [hs]; decide⟩

end ZohoOs
