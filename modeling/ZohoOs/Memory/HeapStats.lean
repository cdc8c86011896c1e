import ZohoOs.Lib.BlockAccounts
import ZohoOs.Memory.HeapLayout

/-!
# The statistics of the kernel heap

The counters of `kmalloc` and `kfree` are kept beside the block list, and `kmalloc_get_stats` walks
the list. The two agree in every run, and so do the walk of `kmalloc` for a block that fits and the
walk of `kmalloc_get_stats` for the largest one.

## Main definitions

* `HeapCounted`: the block list and the counters agree
* `StatsExact`: what `kmalloc_get_stats` reports

## Main results

* `kmalloc_counted`, `kfree_counted`: what the calls do to the counters
* `heapRun_statsExact`: the statistics are exact in every run
* `heapRun_restored`: a heap of which everything was freed is as `kmalloc_init` left it
* `kmalloc_null_iff`: when an allocation fails
* `kmalloc_room_iff`: when an allocation has the room that was asked for
-/

namespace ZohoOs

open BlockTiling TransitionSystem

/-! ## The list of a heap -/

section Lists

variable {headers : Nat → KmallocHeader} {curr a : Nat} {l m : List Block}

/-- The headers decide what the blocks are. -/
theorem Blocks.unique (h : Blocks headers 0 curr a l) (h' : Blocks headers 0 curr a m)
    (ha : 0 < a) : l = m := by
  induction l generalizing curr a m with
  | nil =>
    cases m with
    | nil => rfl
    | cons c m =>
      have hnull : curr = 0 := h
      have hcurr : curr = a := h'.1
      omega
  | cons b l ih =>
    obtain ⟨rfl, hsize, hfree, hrest⟩ := h
    cases m with
    | nil =>
      have hnull : curr = 0 := h'
      omega
    | cons c m =>
      obtain ⟨-, hsize', hfree', hrest'⟩ := h'
      obtain rfl : b = c := by
        cases b
        cases c
        simp_all
      rw [ih hrest hrest' (by omega)]

/-- **The walk sums the free blocks** and finds the largest one. -/
theorem scanFree_spec (h : Blocks headers 0 curr a l) (ha : 0 < a) {fuel : Nat}
    (hfuel : l.length < fuel) {bytesFree : Nat} (largest : Nat)
    (hlt : bytesFree + freeBytes l < 2 ^ 64) :
    scanFree headers fuel curr bytesFree largest =
      some (bytesFree + freeBytes l, max largest (largestFree l)) := by
  induction l generalizing curr a fuel bytesFree largest with
  | nil =>
    obtain rfl : curr = 0 := h
    obtain ⟨fuel, rfl⟩ : ∃ k, fuel = k + 1 := ⟨fuel - 1, by omega⟩
    rw [scanFree, if_pos rfl, largestFree, Nat.max_zero]
    rfl
  | cons b l ih =>
    obtain ⟨rfl, hsize, hfree, hrest⟩ := h
    obtain ⟨fuel, rfl⟩ : ∃ k, fuel = k + 1 := ⟨fuel - 1, by omega⟩
    rw [List.length_cons] at hfuel
    rw [freeBytes_cons] at hlt ⊢
    rw [scanFree, if_neg (by omega), largestFree]
    simp only [hsize, hfree]
    cases hb : b.isFree with
    | false =>
      simp only [hb, Bool.false_eq_true, if_false] at hlt ⊢
      rw [ih hrest (by omega) (by omega) _ (by omega), Nat.zero_add, Nat.zero_max]
    | true =>
      simp only [hb, if_true] at hlt ⊢
      -- the sum is below 2^64, and does not wrap
      have hsum : sizeT (bytesFree + b.size) = bytesFree + b.size :=
        Nat.mod_eq_of_lt (by omega)
      have hmax : (if b.size > largest then b.size else largest) = max largest b.size := by
        rw [Nat.max_def]
        split <;> split <;> omega
      rw [hsum, hmax, ih hrest (by omega) (by omega) _ (by omega), Nat.add_assoc, Nat.max_assoc]

end Lists

/-- The statistics `kmalloc_get_stats` leaves. -/
def Kmalloc.scanned (k : Kmalloc) (l : List Block) : Kmalloc :=
  { k with stats := { k.stats with bytesFree := freeBytes l, largestFreeBlock := largestFree l } }

theorem kmallocGetStats_spec {k : Kmalloc} {l : List Block} (h : HeapTiled k l) :
    kmallocGetStats k = some (k.scanned l) := by
  have hspan := span_eq kmallocHeaderSize l
  rw [h.whole] at hspan
  have hlt : 0 + freeBytes l < 2 ^ 64 := by
    simp only [heapSize] at hspan
    omega
  rw [kmallocGetStats, scanFree_spec h.blocks (by decide) h.length_lt 0 hlt, Nat.zero_add,
    Nat.zero_max]
  rfl

/-! ## The counters -/

/-- **The list and the counters agree.** -/
structure HeapCounted (k : Kmalloc) (l : List Block) : Prop where
  tiled : HeapTiled k l
  separated : Separated l
  live : k.stats.liveAllocations = usedCount l
  allocs : k.stats.allocCount = sizeT (k.stats.freeCount + usedCount l)
  frees : k.stats.freeCount < 2 ^ 64
  used : k.stats.bytesUsed = usedBytes l
  peak : k.stats.bytesUsed ≤ k.stats.peakBytesUsed

section Calls

variable {k k' : Kmalloc} {l pre post : List Block} {b : Block} {ptr : Nat}

theorem kmallocInit_counted (headers : Nat → KmallocHeader) (pmm : Pmm) :
    HeapCounted (kmallocInit headers pmm).1 [⟨heapSize - kmallocHeaderSize, true⟩] where
  tiled := kmallocInit_tiled headers pmm
  separated := List.IsChain.singleton _
  live := rfl
  allocs := rfl
  frees := by
    show 0 < 2 ^ 64
    decide
  used := rfl
  peak := Nat.le_refl _

theorem HeapCounted.bounds (h : HeapCounted k l) :
    usedCount l < 2 ^ 63 ∧ usedBytes l < 2 ^ 63 := by
  have hspan := span_eq kmallocHeaderSize l
  have hcount : usedCount l ≤ l.length := usedCount_le_length
  rw [h.tiled.whole] at hspan
  simp only [heapSize, kmallocHeaderSize] at hspan
  omega

/-- A block more in use is counted. -/
theorem HeapCounted.countAlloc (h : HeapCounted k l) {l' : List Block} {n : Nat}
    (htiled : HeapTiled k' l') (hsep : Separated l') (hstats : k'.stats = k.stats.countAlloc n)
    (hcount : usedCount l' = usedCount l + 1) (hbytes : usedBytes l' = usedBytes l + n) :
    HeapCounted k' l' := by
  obtain ⟨hlt, hlt'⟩ := h.bounds
  have hspan := span_eq kmallocHeaderSize l'
  rw [htiled.whole] at hspan
  simp only [heapSize] at hspan
  obtain ⟨-, -, hlive, hallocs, hfrees, hused, hpeak⟩ := h
  have hsum : sizeT (k.stats.bytesUsed + n) = usedBytes l' := by
    rw [hused, hbytes]
    exact Nat.mod_eq_of_lt (by omega)
  refine ⟨htiled, hsep, ?_, ?_, ?_, ?_, ?_⟩
  · rw [hstats, hcount, ← hlive]
    exact Nat.mod_eq_of_lt (by omega)
  · rw [hstats, hcount]
    simp only [KmallocStats.countAlloc, hallocs, sizeT]
    omega
  · rw [hstats]
    exact hfrees
  · rw [hstats]
    exact hsum
  · rw [hstats]
    simp only [KmallocStats.countAlloc]
    split <;> omega

/-- A block less in use is counted, and no counter is clamped. -/
theorem HeapCounted.countFree (h : HeapCounted k l) {l' : List Block} {n : Nat}
    (htiled : HeapTiled k' l') (hsep : Separated l') (hstats : k'.stats = k.stats.countFree n)
    (hcount : usedCount l = usedCount l' + 1) (hbytes : usedBytes l = usedBytes l' + n) :
    HeapCounted k' l' ∧ 0 < k.stats.liveAllocations ∧ n ≤ k.stats.bytesUsed := by
  obtain ⟨hlt, hlt'⟩ := h.bounds
  obtain ⟨-, -, hlive, hallocs, hfrees, hused, hpeak⟩ := h
  have hpos : 0 < k.stats.liveAllocations := by omega
  have hle : n ≤ k.stats.bytesUsed := by omega
  refine ⟨⟨htiled, hsep, ?_, ?_, ?_, ?_, ?_⟩, hpos, hle⟩
  · rw [hstats]
    simp only [KmallocStats.countFree, if_pos hpos]
    omega
  · rw [hstats]
    simp only [KmallocStats.countFree, hallocs, hcount, sizeT]
    omega
  · rw [hstats]
    exact Nat.mod_lt _ (by decide)
  · rw [hstats]
    simp only [KmallocStats.countFree, if_pos hle]
    omega
  · rw [hstats]
    simp only [KmallocStats.countFree, if_pos hle]
    omega

/-- What an allocation does where it fails. -/
def Kmalloc.failed (k : Kmalloc) : Kmalloc :=
  { k with stats.failedAllocations := sizeT (k.stats.failedAllocations + 1) }

/-- **An allocation counts what it takes**, and where no block fits it counts a failure. -/
theorem kmalloc_counted (h : HeapCounted k l) (size : BitVec 64) :
    (kmalloc k size = some (k.failed, 0) ∧ ∀ b ∈ l, ¬ Block.Fits (alignSize size) b) ∨
    ∃ k' l' ptr, kmalloc k size = some (k', ptr) ∧ ptr ≠ 0 ∧ HeapCounted k' l' ∧
      k'.stats.peakBytesUsed = max k.stats.peakBytesUsed k'.stats.bytesUsed ∧
      alignSize size ≤ (k'.headers (ptr - kmallocHeaderSize)).size ∧
      (k'.headers (ptr - kmallocHeaderSize)).size < 2 ^ 63 ∧
      ∃ b ∈ l, Block.Fits (alignSize size) b := by
  rcases kmalloc_spec h.tiled size with
    ⟨heq, hno⟩ | ⟨k', pre, b, post, rfl, hfits, heq, htiled, hstats, -⟩
  · exact Or.inl ⟨heq, hno⟩
  · right
    obtain ⟨n, rest, hcarve, hrest, hroom⟩ := carve_eq kmallocHeaderSize 8 (alignSize size) b
    obtain ⟨hcount, hbytes⟩ := used_carve pre post hfits.1 hcarve
    -- the header of the block that was taken is the first of the carving
    have hheader : (k'.headers (heapStart + span kmallocHeaderSize pre)).size = n := by
      refine (htiled.blocks.header (x := (_, ⟨n, false⟩)) ?_).1
      rw [List.append_assoc, hcarve]
      exact mem_located_of_split _ _ _ _
    have hlt : n < 2 ^ 63 := htiled.size_lt (b := ⟨n, false⟩) (by simp [hcarve])
    rw [hheader] at hstats
    have hcounted := h.countAlloc htiled (h.separated.carve hfits.1) hstats hcount hbytes
    refine ⟨k', _, _, heq, by simp only [heapStart]; omega, hcounted, ?_, ?_, ?_,
      b, by simp, hfits⟩
    · rw [hstats]
      simp only [KmallocStats.countAlloc]
      rw [Nat.max_def]
      split <;> split <;> omega
    · rw [Nat.add_sub_cancel, hheader]
      exact hroom hfits.2
    · rw [Nat.add_sub_cancel, hheader]
      exact hlt

/-- **A release counts what it gives back.** -/
theorem kfree_counted (h : HeapCounted k (pre ++ b :: post)) (hused : b.isFree = false) :
    ∃ k', kfree k (heapStart + span kmallocHeaderSize pre + kmallocHeaderSize) = some k' ∧
      HeapCounted k' (coalesce kmallocHeaderSize (pre ++ ⟨b.size, true⟩ :: post)) ∧
      k'.stats = k.stats.countFree b.size ∧
      0 < k.stats.liveAllocations ∧ b.size ≤ k.stats.bytesUsed := by
  obtain ⟨k', heq, htiled, hstats⟩ := kfree_spec h.tiled hused
  obtain ⟨hcount, hbytes⟩ :=
    used_coalesce kmallocHeaderSize (pre ++ (⟨b.size, true⟩ : Block) :: post)
  have hfreed := h.countFree htiled (separated_coalesce _) hstats
    (by simp only [hcount, usedCount_append, usedCount_cons, hused, if_true, if_false,
          Bool.false_eq_true]
        omega)
    (by simp only [hbytes, usedBytes_append, usedBytes_cons, hused, if_true, if_false,
          Bool.false_eq_true]
        omega)
  exact ⟨k', heq, hfreed.1, hstats, hfreed.2⟩

end Calls

/-! ## Runs -/

section Runs

variable {s t : Heap} {l : List Block} {op : HeapOp}

/-- A label determines the step. -/
theorem heapStep_unique {t' : Heap} (h : HeapStep s op t) (h' : HeapStep s op t') : t = t' := by
  cases h with
  | malloc hcall =>
    cases h' with
    | malloc hcall' =>
      obtain ⟨rfl, -⟩ := Prod.mk.inj (Option.some.inj (hcall.symm.trans hcall'))
      rfl
  | free hptr hcall =>
    cases h' with
    | free hptr' hcall' =>
      obtain rfl := Option.some.inj (hcall.symm.trans hcall')
      rfl
  | store hptr hout =>
    cases h' with
    | store hptr' hout' => rfl

/-- A live pointer is released, and the counters go down by what it held. -/
theorem HeapCounted.release {ptr : Nat} (h : HeapCounted s.k l) (hinv : HeapInv s)
    (hptr : ptr ∈ s.live) : ∃ k' l', kfree s.k ptr = some k' ∧ HeapCounted k' l' ∧
      k'.stats = s.k.stats.countFree (s.payloadSize ptr) ∧
      0 < s.k.stats.liveAllocations ∧ s.payloadSize ptr ≤ s.k.stats.bytesUsed := by
  obtain ⟨m, htiled, hlive⟩ := hinv
  obtain rfl := htiled.blocks.unique h.tiled.blocks (by decide)
  obtain ⟨⟨a, b⟩, hx, rfl⟩ := List.mem_map.mp (hlive.mem_iff.mp hptr)
  obtain ⟨hloc, hused⟩ := mem_taken.mp hx
  rw [payloadSize_payload htiled hloc]
  obtain ⟨pre, post, rfl, haddr⟩ := exists_of_mem_located hloc
  obtain rfl : a = heapStart + span kmallocHeaderSize pre := haddr
  obtain ⟨k', heq, hcounted, hstats⟩ := kfree_counted h hused
  exact ⟨k', _, heq, hcounted, hstats⟩

/-- **A step of the heap** keeps the counters, and the peak. -/
theorem HeapCounted.step (h : HeapCounted s.k l) (hinv : HeapInv s) (hstep : HeapStep s op t) :
    (∃ l', HeapCounted t.k l') ∧
      t.k.stats.peakBytesUsed = max s.k.stats.peakBytesUsed t.k.stats.bytesUsed := by
  have hpeak : s.k.stats.peakBytesUsed = max s.k.stats.peakBytesUsed s.k.stats.bytesUsed :=
    (Nat.max_eq_left h.peak).symm
  cases hstep with
  | @malloc size k ptr hcall =>
    -- a failed allocation counts nothing
    rcases kmalloc_counted h size with ⟨heq, -⟩ | ⟨k', l', ptr', heq, -, hcounted, hmax, -⟩
    · obtain ⟨rfl, rfl⟩ : _ ∧ _ := by simpa using hcall.symm.trans heq
      exact ⟨⟨l, ⟨h.tiled.blocks, h.tiled.whole, h.tiled.aligned⟩, h.separated, h.live, h.allocs,
        h.frees, h.used, h.peak⟩, hpeak⟩
    · obtain ⟨rfl, rfl⟩ : _ ∧ _ := by simpa using hcall.symm.trans heq
      exact ⟨⟨l', hcounted⟩, hmax⟩
  | @free ptr k hptr hcall =>
    rcases hptr with rfl | hptr
    · obtain rfl : s.k = k := by simpa [kfree] using hcall
      exact ⟨⟨l, h⟩, hpeak⟩
    -- what is freed was counted, so the sum does not go below zero
    · obtain ⟨k', l', heq, hcounted, hstats, -, hle⟩ := h.release hinv hptr
      obtain rfl : k' = k := Option.some.inj (heq.symm.trans hcall)
      refine ⟨⟨l', hcounted⟩, ?_⟩
      have hle' := h.peak
      rw [hstats]
      simp only [KmallocStats.countFree, if_pos hle]
      omega
  | @store ptr headers hptr hout =>
    obtain ⟨m, htiled, hlive⟩ := hinv
    obtain rfl := htiled.blocks.unique h.tiled.blocks (by decide)
    obtain ⟨x, hx, rfl⟩ := List.mem_map.mp (hlive.mem_iff.mp hptr)
    exact ⟨⟨m, htiled.store hx hout, h.separated, h.live, h.allocs, h.frees, h.used, h.peak⟩,
      hpeak⟩

/-- What is kept in every run. -/
def HeapSound (s : Heap) : Prop := HeapInv s ∧ ∃ l, HeapCounted s.k l

theorem heapSound_started (headers : Nat → KmallocHeader) (pmm : Pmm) :
    HeapSound (heapStarted headers pmm) :=
  ⟨heapInv_started headers pmm, _, kmallocInit_counted headers pmm⟩

theorem HeapSound.step (h : HeapSound s) (hstep : HeapStep s op t) : HeapSound t ∧
    t.k.stats.peakBytesUsed = max s.k.stats.peakBytesUsed t.k.stats.bytesUsed := by
  obtain ⟨hinv, l, hcounted⟩ := h
  obtain ⟨hcounted', hpeak⟩ := hcounted.step hinv hstep
  exact ⟨⟨hinv.step hstep, hcounted'⟩, hpeak⟩

/-- The layout and the counters are of one list. -/
theorem HeapSound.layout (h : HeapSound s) : ∃ l, HeapLayout s l ∧ HeapCounted s.k l := by
  obtain ⟨hinv, l, hcounted⟩ := h
  obtain ⟨m, hlayout⟩ := hinv.layout
  obtain rfl := hlayout.tiled.blocks.unique hcounted.tiled.blocks (by decide)
  exact ⟨m, hlayout, hcounted⟩

/-- A block that is given has the room that was asked for, in the heap. -/
theorem HeapSound.malloc_room (h : HeapSound s) {size : BitVec 64} {k : Kmalloc} {ptr : Nat}
    (hcall : kmalloc s.k size = some (k, ptr)) (hne : ptr ≠ 0) :
    alignSize size ≤ Heap.payloadSize ⟨k, ptr :: s.live⟩ ptr ∧
      ptr + Heap.payloadSize ⟨k, ptr :: s.live⟩ ptr ≤ heapStart + heapSize := by
  obtain ⟨l, -, hcounted⟩ := h.layout
  have hsound := (h.step (HeapStep.malloc hcall)).1
  rw [if_neg hne] at hsound
  obtain ⟨m, hlayout, -⟩ := hsound.layout
  rcases kmalloc_counted hcounted size with ⟨hcall', -⟩ | ⟨k', l', ptr', hcall', -, -, -, hroom, -⟩
  · exact absurd (Prod.mk.inj (Option.some.inj (hcall.symm.trans hcall'))).2 hne
  obtain ⟨rfl, rfl⟩ := Prod.mk.inj (Option.some.inj (hcall.symm.trans hcall'))
  refine ⟨hroom, ?_⟩
  obtain ⟨x, hx, hptr, hsize⟩ := hlayout.used ptr List.mem_cons_self
  have hend := (mem_located (mem_taken.mp hx).1).2
  rw [hlayout.tiled.whole] at hend
  rw [hsize, hptr, payload]
  exact hend

/-- With nothing live, nothing is in use. -/
theorem HeapInv.usedCount_eq_length (h : HeapInv s) (htiled : HeapTiled s.k l) :
    usedCount l = s.live.length := by
  obtain ⟨m, htiled', hlive⟩ := h
  obtain rfl := htiled'.blocks.unique htiled.blocks (by decide)
  rw [hlive.length_eq, List.length_map, length_taken]

variable {headers : Nat → KmallocHeader} {pmm : Pmm} {ops : List HeapOp}

theorem heapRun_sound (h : Run HeapStep (heapStarted headers pmm) ops s) : HeapSound s :=
  h.invariant (fun _ _ _ hs hstep => (hs.step hstep).1) (heapSound_started headers pmm)

end Runs

/-- **What `kmalloc_get_stats` reports** at the end of a run, where the list is `l`. -/
structure StatsExact (start : Heap) (ops : List HeapOp) (s : Heap) (l : List Block)
    (st : KmallocStats) : Prop where
  difference : st.liveAllocations = sizeT (st.allocCount + 2 ^ 64 - st.freeCount)
  live : st.liveAllocations = usedCount l
  used : st.bytesUsed = usedBytes l
  whole : st.bytesUsed + st.bytesFree + kmallocHeaderSize * l.length = heapSize
  /-- The peak is the largest number of bytes that were in use in a state of the run. -/
  peak : IsGreatest
    {n | ∃ pre u, pre <+: ops ∧ Run HeapStep start pre u ∧ u.k.stats.bytesUsed = n}
    st.peakBytesUsed
  /-- No release stops a counter at zero. -/
  unclamped : ∀ p ∈ s.live,
    0 < s.k.stats.liveAllocations ∧ s.payloadSize p ≤ s.k.stats.bytesUsed

/-- A heap after boot. -/
def freshHeap : Heap := heapStarted (fun _ => ⟨0, false, 0⟩) ⟨fun _ => 0, [], fun _ => 0, 0⟩

section Results

variable {headers : Nat → KmallocHeader} {pmm : Pmm} {ops : List HeapOp} {s : Heap}

theorem heapRun_peak (h : Run HeapStep (heapStarted headers pmm) ops s) :
    IsGreatest {n | ∃ pre u, pre <+: ops ∧ Run HeapStep (heapStarted headers pmm) pre u ∧
      u.k.stats.bytesUsed = n} s.k.stats.peakBytesUsed := by
  have hdet : ∀ s op t t', HeapStep s op t → HeapStep s op t' → t = t' :=
    fun _ _ _ _ hl hl' => heapStep_unique hl hl'
  refine Run.isGreatest (f := fun s => s.k.stats.bytesUsed)
    (g := fun s => s.k.stats.peakBytesUsed) (J := HeapSound) hdet ?_ ?_ rfl h
  · exact fun _ _ _ hs hstep => hs.step hstep
  · exact heapSound_started headers pmm

/-- **The statistics are exact in every run.** -/
theorem heapRun_statsExact (h : Run HeapStep (heapStarted headers pmm) ops s) :
    ∃ l k, HeapLayout s l ∧ kmallocGetStats s.k = some k ∧
      StatsExact (heapStarted headers pmm) ops s l k.stats := by
  have hsound := heapRun_sound h
  obtain ⟨l, hlayout, hcounted⟩ := hsound.layout
  refine ⟨l, s.k.scanned l, hlayout, kmallocGetStats_spec hlayout.tiled, ?_, hcounted.live,
    hcounted.used, ?_, heapRun_peak h, fun p hp => ?_⟩
  · show s.k.stats.liveAllocations = sizeT (s.k.stats.allocCount + 2 ^ 64 - s.k.stats.freeCount)
    have hlt := hcounted.bounds.1
    have hfrees := hcounted.frees
    rw [hcounted.live, hcounted.allocs]
    simp only [sizeT]
    omega
  · show s.k.stats.bytesUsed + freeBytes l + kmallocHeaderSize * l.length = heapSize
    rw [hcounted.used, span_eq, hlayout.tiled.whole]
  · obtain ⟨-, -, -, -, -, hpos, hle⟩ := hcounted.release hsound.1 hp
    exact ⟨hpos, hle⟩

/-- Two allocations, and the first of them released. -/
theorem heapRun_statsExact_free : ∃ ops, ∃ s : Heap, ∃ l k, s.live = [heapStart + 24 + 104 + 24] ∧
    HeapLayout s l ∧ kmallocGetStats s.k = some k ∧
    StatsExact freshHeap ops s l
      k.stats := by
  have hrun : Run HeapStep freshHeap
      [.malloc 100 (heapStart + 24), .malloc 8 (heapStart + 24 + 104 + 24),
        .free (heapStart + 24)] _ :=
    ((Run.nil _ |>.snoc (HeapStep.malloc rfl)).snoc (HeapStep.malloc rfl)).snoc
      (HeapStep.free (Or.inr (by decide)) rfl)
  obtain ⟨l, k, hexact⟩ := heapRun_statsExact hrun
  exact ⟨_, _, l, k, by decide, hexact⟩

/-- **A heap of which everything was freed** is the one block `kmalloc_init` made of it; no two
free blocks are neighbours in any state. -/
theorem heapRun_restored (h : Run HeapStep (heapStarted headers pmm) ops s) :
    ∃ l, HeapLayout s l ∧ Separated l ∧ (s.live = [] →
      l = [⟨heapSize - kmallocHeaderSize, true⟩] ∧ s.k.freeListHead = heapStart ∧
      s.k.headers heapStart = ⟨heapSize - kmallocHeaderSize, true, 0⟩) := by
  have hsound := heapRun_sound h
  obtain ⟨l, hlayout, hcounted⟩ := hsound.layout
  refine ⟨l, hlayout, hcounted.separated, fun hlive => ?_⟩
  have htiled := hlayout.tiled
  -- what is in use is live, so every block is free, and separated blocks that are free are one
  have hnone : usedCount l = 0 := by
    rw [hsound.1.usedCount_eq_length htiled, hlive, List.length_nil]
  have hfree : ∀ b ∈ l, b.isFree = true := fun b hb => by
    simpa using List.countP_eq_zero.mp hnone b hb
  have hne : l ≠ [] := by
    rintro rfl
    exact absurd htiled.whole (by decide)
  obtain ⟨⟨size, isFree⟩, rfl⟩ := hcounted.separated.eq_singleton hfree hne
  obtain rfl : isFree = true := hfree _ List.mem_cons_self
  obtain rfl : size = heapSize - kmallocHeaderSize := by
    have hwhole := htiled.whole
    simp only [span, heapSize, kmallocHeaderSize] at hwhole ⊢
    omega
  obtain ⟨hhead, hsize, hisFree, hnext⟩ := htiled.blocks
  refine ⟨rfl, hhead, ?_⟩
  have hnull : (s.k.headers heapStart).next = 0 := hnext
  cases hheader : s.k.headers heapStart
  rw [hheader] at hsize hisFree hnull
  simp only at hsize hisFree hnull
  rw [hsize, hisFree, hnull]

/-- Two allocations, released in the order they were made. -/
theorem heapRun_restored_two : ∃ s : Heap, s.live = [] ∧ s.k.freeListHead = heapStart ∧
    s.k.headers heapStart = ⟨heapSize - kmallocHeaderSize, true, 0⟩ := by
  have hrun : Run HeapStep freshHeap
      [.malloc 100 (heapStart + 24), .malloc 8 (heapStart + 24 + 104 + 24),
        .free (heapStart + 24), .free (heapStart + 24 + 104 + 24)] _ :=
    (((Run.nil _ |>.snoc (HeapStep.malloc rfl)).snoc (HeapStep.malloc rfl)).snoc
      (HeapStep.free (Or.inr (by decide)) rfl)).snoc (HeapStep.free (Or.inr (by decide)) rfl)
  obtain ⟨l, -, -, hrestored⟩ := heapRun_restored hrun
  exact ⟨_, by decide, (hrestored (by decide)).2⟩

/-- **An allocation fails** just if what it asks for, rounded up, is more than the largest free
block that `kmalloc_get_stats` would report; and then it only counts the failure. -/
theorem kmalloc_null_iff (h : Run HeapStep (heapStarted headers pmm) ops s) {size : BitVec 64}
    (hpos : 1 ≤ size.toNat) (hle : size.toNat ≤ 2 ^ 64 - 8) :
    ∃ reported k ptr, kmallocGetStats s.k = some reported ∧ kmalloc s.k size = some (k, ptr) ∧
      (ptr = 0 ↔ reported.stats.largestFreeBlock < (size.toNat + 7) / 8 * 8) ∧
      (ptr = 0 → k = { s.k with
        stats.failedAllocations := sizeT (s.k.stats.failedAllocations + 1) }) := by
  obtain ⟨l, hlayout, hcounted⟩ := (heapRun_sound h).layout
  have hsize : alignSize size = (size.toNat + 7) / 8 * 8 := by
    rw [alignSize_eq]
    omega
  have hfits := fits_iff_le_largestFree (l := l) (n := alignSize size) (by omega)
  rw [← hsize]
  rcases kmalloc_counted hcounted size with
    ⟨heq, hno⟩ | ⟨k', l', ptr, heq, hne, -, -, -, -, b, hb, hfit⟩
  · refine ⟨_, _, _, kmallocGetStats_spec hlayout.tiled, heq, ?_, fun _ => rfl⟩
    refine iff_of_true rfl (Nat.lt_of_not_le fun hle => ?_)
    obtain ⟨b, hb, hfit⟩ := hfits.mpr hle
    exact hno b hb hfit
  · refine ⟨_, _, _, kmallocGetStats_spec hlayout.tiled, heq, ?_, fun hnull => absurd hnull hne⟩
    exact iff_of_false hne (Nat.not_lt.mpr (hfits.mp ⟨b, hb, hfit⟩))

/-- A fresh heap and 100 bytes. -/
theorem kmalloc_null_iff_fresh : ∃ reported k ptr, kmallocGetStats freshHeap.k = some reported ∧
    kmalloc freshHeap.k 100#64 = some (k, ptr) ∧
    (ptr = 0 ↔ reported.stats.largestFreeBlock < 104) := by
  obtain ⟨reported, k, ptr, hstats, hcall, hnull, -⟩ :=
    kmalloc_null_iff (Run.nil freshHeap) (show 1 ≤ (100#64).toNat by decide) (by decide)
  exact ⟨reported, k, ptr, hstats, hcall, hnull⟩

/-- **The room of an allocation** is what was asked for, just if rounding it up does not wrap or no
block is free. -/
theorem kmalloc_room_iff (h : Run HeapStep (heapStarted headers pmm) ops s) (size : BitVec 64) :
    ∃ l k ptr, HeapLayout s l ∧ kmalloc s.k size = some (k, ptr) ∧
      ((ptr = 0 ∨ size.toNat ≤ (k.headers (ptr - kmallocHeaderSize)).size) ↔
        (size.toNat ≤ 2 ^ 64 - 8 ∨ ∀ b ∈ l, b.isFree = false)) := by
  obtain ⟨l, hlayout, hcounted⟩ := (heapRun_sound h).layout
  have hsize := alignSize_eq size
  rcases kmalloc_counted hcounted size with
    ⟨heq, hno⟩ | ⟨k', l', ptr, heq, hne, -, -, hroom, hlt, b, hb, hfit⟩
  · refine ⟨l, _, _, hlayout, heq, iff_of_true (Or.inl rfl) ?_⟩
    by_cases hwrap : size.toNat ≤ 2 ^ 64 - 8
    · exact Or.inl hwrap
    · -- rounded to nothing, the request fits every free block
      right
      intro b hb
      by_contra hfree
      exact hno b hb ⟨by simpa using hfree, by omega⟩
  · refine ⟨l, _, _, hlayout, heq, ?_⟩
    by_cases hwrap : size.toNat ≤ 2 ^ 64 - 8
    · exact iff_of_true (Or.inr (by omega)) (Or.inl hwrap)
    · refine iff_of_false ?_ ?_
      · rintro (hnull | hle)
        · exact hne hnull
        · omega
      · rintro (hle | hused)
        · exact hwrap hle
        · exact absurd (hfit.1.symm.trans (hused b hb)) (by decide)

/-- A fresh heap and 100 bytes. -/
theorem kmalloc_room_iff_fresh : ∃ k ptr,
    kmalloc freshHeap.k 100#64 =
      some (k, ptr) ∧ (ptr = 0 ∨ 100 ≤ (k.headers (ptr - kmallocHeaderSize)).size) := by
  obtain ⟨l, k, ptr, -, hcall, hroom⟩ := kmalloc_room_iff
    (Run.nil freshHeap) 100#64
  exact ⟨k, ptr, hcall, hroom.mpr (Or.inl (by decide))⟩

/-- A fresh heap gives a request of all but no bytes a block for none. -/
theorem kmalloc_wraps : ∃ s k ptr,
    Run HeapStep freshHeap [] s ∧
      kmalloc s.k 0xFFFFFFFFFFFFFFFF#64 = some (k, ptr) ∧ ptr ≠ 0 ∧
      (k.headers (ptr - kmallocHeaderSize)).size < (0xFFFFFFFFFFFFFFFF#64).toNat :=
  ⟨_, _, heapStart + kmallocHeaderSize, Run.nil _, rfl, by decide, by decide⟩

end Results

end ZohoOs
