import ZohoOs.Lib.BlockTiling
import ZohoOs.Lib.TransitionSystem
import ZohoOs.Memory.Kmalloc

/-!
# The layout of the kernel heap

The block list is in address order, each header where the payload before it ends and the last
payload at the end of the heap. Allocations and releases keep it so, and a live payload meets no
header and no other live payload.

## Main definitions

* `Blocks`: the list the loops of the heap follow, as blocks laid out from an address on
* `HeapOp`, `heapStep`: the calls of the heap and the stores of its clients
* `HeapInv`: the layout, with the live pointers

## Main results

* `kmalloc_spec`, `kfree_spec`: what the calls do to the blocks
* `heapRun_layout`: the layout holds in every run
-/

namespace ZohoOs

open BlockTiling TransitionSystem

/-- From `curr` on the list is the blocks `l`, laid out from `a` on, and goes on at `stop`. -/
def Blocks (headers : Nat → KmallocHeader) (stop : Nat) : Nat → Nat → List Block → Prop
  | curr, _, [] => curr = stop
  | curr, a, b :: l =>
    curr = a ∧ (headers a).size = b.size ∧ (headers a).isFree = b.isFree ∧
      Blocks headers stop (headers a).next (a + kmallocHeaderSize + b.size) l

section Blocks

variable {headers headers' : Nat → KmallocHeader} {stop curr a : Nat} {l m : List Block} {b : Block}

theorem blocks_cons : Blocks headers stop curr a (b :: l) ↔
    curr = a ∧ (headers a).size = b.size ∧ (headers a).isFree = b.isFree ∧
      Blocks headers stop (headers a).next (a + kmallocHeaderSize + b.size) l := Iff.rfl

/-- The headers of the blocks decide. -/
theorem Blocks.congr (h : Blocks headers stop curr a l)
    (heq : ∀ x ∈ located kmallocHeaderSize a l, headers' x.1 = headers x.1) :
    Blocks headers' stop curr a l := by
  induction l generalizing curr a with
  | nil => exact h
  | cons b l ih =>
    obtain ⟨hcurr, hsize, hfree, hrest⟩ := h
    have hhead : headers' a = headers a := heq (a, b) List.mem_cons_self
    rw [blocks_cons, hhead]
    exact ⟨hcurr, hsize, hfree, ih hrest fun x hx => heq x (List.mem_cons_of_mem _ hx)⟩

/-- A header before the blocks is none of theirs. -/
theorem Blocks.update_before (h : Blocks headers stop curr a l) {x : Nat} (hx : x < a)
    (header : KmallocHeader) : Blocks (Function.update headers x header) stop curr a l := by
  refine h.congr fun y hy => ?_
  have := (mem_located hy).1
  exact Function.update_of_ne (by omega) _ _

/-- A header after the blocks is none of theirs. -/
theorem Blocks.update_after (h : Blocks headers stop curr a l) {x : Nat}
    (hx : a + span kmallocHeaderSize l ≤ x) (header : KmallocHeader) :
    Blocks (Function.update headers x header) stop curr a l := by
  refine h.congr fun y hy => ?_
  have hlt : y.1 + 24 + y.2.size ≤ a + span kmallocHeaderSize l := (mem_located hy).2
  exact Function.update_of_ne (by omega) _ _

theorem blocks_append : Blocks headers stop curr a (l ++ m) ↔
    ∃ mid, Blocks headers mid curr a l ∧
      Blocks headers stop mid (a + span kmallocHeaderSize l) m := by
  induction l generalizing curr a with
  | nil =>
    constructor
    · exact fun h => ⟨curr, rfl, h⟩
    · rintro ⟨mid, hmid, h⟩
      obtain rfl : curr = mid := hmid
      exact h
  | cons b l ih =>
    have haddr : a + (kmallocHeaderSize + b.size + span kmallocHeaderSize l) =
        a + kmallocHeaderSize + b.size + span kmallocHeaderSize l := by omega
    rw [List.cons_append, blocks_cons, ih, span, haddr]
    constructor
    · rintro ⟨hcurr, hsize, hfree, mid, hl, hm⟩
      exact ⟨mid, ⟨hcurr, hsize, hfree, hl⟩, hm⟩
    · rintro ⟨mid, ⟨hcurr, hsize, hfree, hl⟩, hm⟩
      exact ⟨hcurr, hsize, hfree, mid, hl, hm⟩

/-- The header of a block of the list. -/
theorem Blocks.header (h : Blocks headers stop curr a l) {x : Nat × Block}
    (hx : x ∈ located kmallocHeaderSize a l) :
    (headers x.1).size = x.2.size ∧ (headers x.1).isFree = x.2.isFree := by
  induction l generalizing curr a with
  | nil => cases hx
  | cons b l ih =>
    obtain ⟨-, hsize, hfree, hrest⟩ := h
    rcases List.mem_cons.mp hx with rfl | hx
    · exact ⟨hsize, hfree⟩
    · exact ih hrest hx

end Blocks

/-! ## The loops -/

section Loops

variable {headers : Nat → KmallocHeader} {curr a n : Nat} {l : List Block}

/-- **The search takes the first block that fits**, and gives `NULL` where none does. -/
theorem findFit_spec (h : Blocks headers 0 curr a l) (ha : 0 < a) {fuel : Nat}
    (hfuel : l.length < fuel) :
    (findFit headers n fuel curr = some 0 ∧ ∀ b ∈ l, ¬ Block.Fits n b) ∨
    ∃ pre b post, l = pre ++ b :: post ∧ Block.Fits n b ∧ (∀ c ∈ pre, ¬ Block.Fits n c) ∧
      findFit headers n fuel curr = some (a + span kmallocHeaderSize pre) := by
  induction l generalizing curr a fuel with
  | nil =>
    obtain rfl : curr = 0 := h
    obtain ⟨fuel, rfl⟩ : ∃ k, fuel = k + 1 := ⟨fuel - 1, by omega⟩
    exact Or.inl ⟨rfl, fun _ hb => absurd hb List.not_mem_nil⟩
  | cons b l ih =>
    obtain ⟨rfl, hsize, hfree, hrest⟩ := h
    obtain ⟨fuel, rfl⟩ : ∃ k, fuel = k + 1 := ⟨fuel - 1, by omega⟩
    rw [List.length_cons] at hfuel
    rw [findFit, if_neg (by omega), hsize, hfree]
    -- the first block that fits is taken; one before it does not fit
    by_cases hfits : Block.Fits n b
    · right
      refine ⟨[], b, l, rfl, hfits, fun _ hc => absurd hc List.not_mem_nil, ?_⟩
      rw [if_pos (by simpa [Block.Fits] using hfits)]
      rfl
    · rw [if_neg (by simpa [Block.Fits] using hfits)]
      rcases ih hrest (by omega) (by omega : l.length < fuel) with ⟨heq, hno⟩ | hfound
      · left
        refine ⟨heq, fun c hc => ?_⟩
        rcases List.mem_cons.mp hc with rfl | hc
        · exact hfits
        · exact hno c hc
      · obtain ⟨pre, c, post, rfl, hc, hpre, heq⟩ := hfound
        right
        refine ⟨b :: pre, c, post, rfl, hc, fun x hx => ?_, ?_⟩
        · rcases List.mem_cons.mp hx with rfl | hx
          · exact hfits
          · exact hpre x hx
        · rw [heq, span, ← Nat.add_assoc, ← Nat.add_assoc]

/-- **Taking a block carves it**, and leaves the blocks after it where they are. -/
theorem takeBlock_spec {stop : Nat} {b : Block} {post : List Block}
    (h : Blocks headers stop curr a (b :: post)) (hfits : Block.Fits n b)
    (hlt : b.size < 2 ^ 63) :
    Blocks (takeBlock headers n curr) stop curr a (carve kmallocHeaderSize 8 n b ++ post) := by
  obtain ⟨rfl, hsize, hfree, hrest⟩ := h
  obtain ⟨-, hn⟩ := hfits
  have hfit : sizeT (n + kmallocHeaderSize + 8) = n + kmallocHeaderSize + 8 :=
    Nat.mod_eq_of_lt (by simp only [kmallocHeaderSize]; omega)
  simp only [takeBlock, carve]
  rw [hfit, hsize]
  split
  next hsplit =>
    simp only [kmallocHeaderSize] at hsplit hrest ⊢
    have hremaining : sizeT (b.size + 2 ^ 64 - n - 24) = b.size - n - 24 := by
      rw [sizeT]
      omega
    have haddr : curr + 24 + n + 24 + (b.size - n - 24) = curr + 24 + b.size := by omega
    have hne : curr + 24 + n ≠ curr := by omega
    rw [hremaining, List.cons_append, List.cons_append, List.nil_append]
    refine ⟨rfl, ?_, ?_, ?_⟩
    · rw [Function.update_self]
    · rw [Function.update_self]
    · rw [Function.update_self]
      refine ⟨rfl, ?_, ?_, ?_⟩
      · rw [Function.update_of_ne hne, Function.update_self]
      · rw [Function.update_of_ne hne, Function.update_self]
      · rw [Function.update_of_ne hne, Function.update_self]
        simp only [kmallocHeaderSize]
        rw [haddr]
        -- both headers that were written lie before the blocks that follow
        refine Blocks.update_before (Blocks.update_before hrest ?_ _) ?_ _ <;> omega
  next =>
    refine ⟨rfl, ?_, ?_, ?_⟩
    · rw [Function.update_self]
    · rw [Function.update_self]
    · rw [Function.update_self]
      refine Blocks.update_before hrest ?_ _
      simp only [kmallocHeaderSize]
      omega

/-- Headers before the block that is taken stay. -/
theorem takeBlock_before {x : Nat} (hx : x < curr) : takeBlock headers n curr x = headers x := by
  simp only [takeBlock]
  split
  · rw [Function.update_of_ne (by omega), Function.update_of_ne (by omega)]
  · rw [Function.update_of_ne (by omega)]

/-- **The merge joins free neighbours**, and writes no other header. -/
theorem mergeFree_spec (h : Blocks headers 0 curr a l) (ha : 0 < a)
    (hlt : span kmallocHeaderSize l < 2 ^ 64) {fuel : Nat} (hfuel : l.length < fuel) :
    ∃ headers', mergeFree fuel curr headers = some headers' ∧
      Blocks headers' 0 curr a (coalesce kmallocHeaderSize l) ∧
      ∀ x < a, headers' x = headers x := by
  fun_induction coalesce kmallocHeaderSize l generalizing headers curr a fuel with
  | case1 =>
    obtain ⟨fuel, rfl⟩ : ∃ k, fuel = k + 1 := ⟨fuel - 1, by omega⟩
    obtain rfl : curr = 0 := h
    exact ⟨headers, rfl, rfl, fun _ _ => rfl⟩
  | case2 b =>
    obtain ⟨fuel, rfl⟩ : ∃ k, fuel = k + 1 := ⟨fuel - 1, by omega⟩
    have hnext : (headers a).next = 0 := h.2.2.2
    refine ⟨headers, ?_, h, fun _ _ => rfl⟩
    rw [mergeFree, h.1, hnext, if_pos (by simp)]
  | case3 b c l hboth ih =>
    obtain ⟨fuel, rfl⟩ : ∃ k, fuel = k + 1 := ⟨fuel - 1, by omega⟩
    obtain ⟨hb, hc⟩ := Bool.and_eq_true_iff.mp hboth
    obtain ⟨rfl, hsize, hfree, hnext, hsize', hfree', hrest⟩ := h
    simp only [kmallocHeaderSize] at *
    simp only [span] at hlt
    have hjoined : sizeT (b.size + c.size + 24) = b.size + c.size + 24 :=
      Nat.mod_eq_of_lt (by omega)
    have haddr : curr + 24 + (b.size + c.size + 24) = curr + 24 + b.size + 24 + c.size := by omega
    rw [mergeFree, if_neg (by simp [hnext]; omega)]
    simp only [kmallocHeaderSize]
    rw [hnext, hfree, hfree', hb, hc, hsize, hsize', hjoined, Bool.and_true, if_pos rfl]
    -- The loop stays at `curr`, whose header now spans both blocks.
    have hjoin : Blocks (Function.update headers curr
        ⟨b.size + c.size + 24, true, (headers (curr + 24 + b.size)).next⟩) 0 curr curr
        (⟨b.size + c.size + 24, true⟩ :: l) := by
      refine ⟨rfl, ?_, ?_, ?_⟩
      · rw [Function.update_self]
      · rw [Function.update_self]
      · rw [Function.update_self]
        simp only [kmallocHeaderSize]
        rw [haddr]
        exact Blocks.update_before hrest (by omega) _
    obtain ⟨headers', hmerge, hblocks, hbefore⟩ := ih hjoin ha (by simp only [span]; omega)
      (by simpa using hfuel : _ < fuel)
    refine ⟨headers', hmerge, hblocks, fun x hx => ?_⟩
    rw [hbefore x hx, Function.update_of_ne (by omega)]
  | case4 b c l hboth ih =>
    obtain ⟨fuel, rfl⟩ : ∃ k, fuel = k + 1 := ⟨fuel - 1, by omega⟩
    obtain ⟨rfl, hsize, hfree, hrest⟩ := h
    have hnext : (headers curr).next = curr + 24 + b.size := hrest.1
    have hfree' : (headers (curr + 24 + b.size)).isFree = c.isFree := hrest.2.2.1
    simp only [span, kmallocHeaderSize] at hlt
    obtain ⟨headers', hmerge, hblocks, hbefore⟩ := ih hrest (by omega)
      (by simp only [span, kmallocHeaderSize]; omega) (by simpa using hfuel : _ < fuel)
    simp only [kmallocHeaderSize] at hbefore
    -- The loop goes on behind `curr`, and writes no header before the next block.
    have hkept : headers' curr = headers curr := hbefore curr (by omega)
    refine ⟨headers', ?_, ⟨rfl, ?_, ?_, ?_⟩, fun x hx => hbefore x (by omega)⟩
    · rw [mergeFree, if_neg (by simp [hnext]; omega)]
      simp only
      rw [hnext] at hmerge ⊢
      rw [hfree, hfree', if_neg hboth]
      exact hmerge
    · rw [hkept, hsize]
    · rw [hkept, hfree]
    · rw [hkept]
      exact hblocks

end Loops

/-! ## The calls -/

/-- **The layout of the heap**: its list is the blocks `l` from the start of the heap on, they take
all of it, and the size of each is a multiple of 8. -/
structure HeapTiled (k : Kmalloc) (l : List Block) : Prop where
  blocks : Blocks k.headers 0 k.freeListHead heapStart l
  whole : span kmallocHeaderSize l = heapSize
  aligned : ∀ b ∈ l, 8 ∣ b.size

theorem kmallocInit_tiled (headers : Nat → KmallocHeader) (pmm : Pmm) :
    HeapTiled (kmallocInit headers pmm).1 [⟨heapSize - kmallocHeaderSize, true⟩] where
  blocks := by
    simp only [kmallocInit, Blocks, Function.update_self, and_self]
  whole := by decide
  aligned := fun b hb => by
    obtain rfl := List.mem_singleton.mp hb
    decide

/-- Clearing the low three bits. -/
theorem and_not_seven (x : BitVec 64) : x &&& ~~~7#64 = (x >>> 3) <<< 3 := by
  refine BitVec.eq_of_getLsbD_eq fun i hi => ?_
  simp only [BitVec.getLsbD_and, BitVec.getLsbD_not, BitVec.getLsbD_shiftLeft,
    BitVec.getLsbD_ushiftRight]
  by_cases hlow : i < 3
  · have hmask : (7#64).getLsbD i = true := by
      rcases (by omega : i = 0 ∨ i = 1 ∨ i = 2) with rfl | rfl | rfl <;> decide
    rw [hmask]
    simp [hlow]
  · have hmask : (7#64).getLsbD i = false := by
      rw [BitVec.getLsbD_ofNat]
      simp only [Bool.and_eq_false_imp, decide_eq_true_eq]
      intro _
      exact Nat.testBit_lt_two_pow
        (Nat.lt_of_lt_of_le (by decide : 7 < 2 ^ 3) (Nat.pow_le_pow_right (by decide) (by omega)))
    have hback : 3 + (i - 3) = i := by omega
    rw [hmask, hback]
    simp [hlow, hi]

/-- Rounding up to a multiple of 8, after which a request near `2 ^ 64` is for nothing. -/
theorem alignSize_eq (size : BitVec 64) :
    alignSize size = (size.toNat + 7) % 2 ^ 64 / 8 * 8 := by
  rw [alignSize, and_not_seven, BitVec.toNat_shiftLeft, BitVec.toNat_ushiftRight,
    Nat.shiftLeft_eq, Nat.shiftRight_eq_div_pow, BitVec.toNat_add]
  exact Nat.mod_eq_of_lt (by omega)

section Calls

variable {k : Kmalloc} {l : List Block}

theorem HeapTiled.length_lt (h : HeapTiled k l) : l.length < blockFuel := by
  have hspan : span kmallocHeaderSize l = 0x1000000 := h.whole
  have hlen : kmallocHeaderSize * l.length ≤ span kmallocHeaderSize l := mul_length_le_span l
  simp only [blockFuel, heapSize, kmallocHeaderSize] at *
  omega

theorem HeapTiled.size_lt (h : HeapTiled k l) {b : Block} (hb : b ∈ l) : b.size < 2 ^ 63 := by
  have hspan : span kmallocHeaderSize l = 0x1000000 := h.whole
  have hle : kmallocHeaderSize + b.size ≤ span kmallocHeaderSize l := size_le_span hb
  omega

theorem kmalloc_of_findFit {size : BitVec 64} {curr : Nat}
    (hfind : findFit k.headers (alignSize size) blockFuel k.freeListHead = some curr)
    (hne : curr ≠ 0) :
    kmalloc k size =
      some ({ k with
              headers := takeBlock k.headers (alignSize size) curr
              stats := k.stats.countAlloc (takeBlock k.headers (alignSize size) curr curr).size },
        curr + kmallocHeaderSize) := by
  obtain ⟨n, rfl⟩ := Nat.exists_eq_succ_of_ne_zero hne
  rw [kmalloc]
  simp only [hfind]

/-- **An allocation** takes the first block that fits, or changes only the count of failures where
no block does. -/
theorem kmalloc_spec (h : HeapTiled k l) (size : BitVec 64) :
    (kmalloc k size =
        some ({ k with stats.failedAllocations := sizeT (k.stats.failedAllocations + 1) }, 0) ∧
      ∀ b ∈ l, ¬ Block.Fits (alignSize size) b) ∨
    ∃ k' pre b post, l = pre ++ b :: post ∧ Block.Fits (alignSize size) b ∧
      kmalloc k size =
        some (k', heapStart + span kmallocHeaderSize pre + kmallocHeaderSize) ∧
      HeapTiled k' (pre ++ carve kmallocHeaderSize 8 (alignSize size) b ++ post) ∧
      k'.stats = k.stats.countAlloc
        (k'.headers (heapStart + span kmallocHeaderSize pre)).size ∧
      ∀ c ∈ pre, ¬ Block.Fits (alignSize size) c := by
  rcases findFit_spec (n := alignSize size) h.blocks (by decide) h.length_lt with
    ⟨hfind, hno⟩ | ⟨pre, b, post, rfl, hfits, hpre, hfind⟩
  · left
    refine ⟨?_, hno⟩
    rw [kmalloc]
    simp only [hfind]
  · right
    have hne : heapStart + span kmallocHeaderSize pre ≠ 0 := by simp only [heapStart]; omega
    obtain ⟨curr, hblocks, hblock⟩ := blocks_append.mp h.blocks
    obtain rfl : curr = heapStart + span kmallocHeaderSize pre := hblock.1
    have hmem : b ∈ pre ++ b :: post := by simp
    -- The blocks before the first that fits lie below its header, which the split starts from.
    have htaken := takeBlock_spec hblock hfits (h.size_lt hmem)
    refine ⟨_, pre, b, post, rfl, hfits, kmalloc_of_findFit hfind hne, ⟨?_, ?_, ?_⟩, rfl, hpre⟩
    · rw [List.append_assoc]
      refine blocks_append.mpr ⟨_, hblocks.congr fun x hx => ?_, htaken⟩
      have hend : x.1 + 24 + x.2.size ≤ heapStart + span kmallocHeaderSize pre :=
        (mem_located hx).2
      exact takeBlock_before (by omega)
    · have hwhole := h.whole
      rw [span_append, span] at hwhole
      rw [span_append, span_append, span_carve]
      omega
    · intro c hc
      have hb := h.aligned b hmem
      rcases List.mem_append.mp hc with hc | hc
      · rcases List.mem_append.mp hc with hc | hc
        · exact h.aligned c (by simp [hc])
        · rw [alignSize_eq] at hc
          simp only [kmallocHeaderSize] at hc
          rcases mem_carve hc with heq | heq | heq <;> omega
      · exact h.aligned c (by simp [hc])

/-- An allocation is first fit on the blocks. -/
theorem kmalloc_place (h : HeapTiled k l) (size : BitVec 64) :
    (place kmallocHeaderSize 8 (alignSize size) heapStart l = none ∧
      ∃ k', kmalloc k size = some (k', 0) ∧ HeapTiled k' l) ∨
    ∃ addr l' k', place kmallocHeaderSize 8 (alignSize size) heapStart l = some (addr, l') ∧
      kmalloc k size = some (k', addr + kmallocHeaderSize) ∧ HeapTiled k' l' := by
  rcases kmalloc_spec h size with ⟨heq, hno⟩ | ⟨k', pre, b, post, rfl, hfits, heq, htiled, -, hpre⟩
  · exact Or.inl ⟨place_eq_none hno _, _, heq, h.blocks, h.whole, h.aligned⟩
  · exact Or.inr ⟨_, _, k', place_split hfits hpre _, heq, htiled⟩

/-- **A release** of a block in use marks it free and joins free neighbours. -/
theorem kfree_spec {pre post : List Block} {b : Block} (h : HeapTiled k (pre ++ b :: post))
    (hused : b.isFree = false) :
    ∃ k', kfree k (heapStart + span kmallocHeaderSize pre + kmallocHeaderSize) = some k' ∧
      HeapTiled k' (coalesce kmallocHeaderSize (pre ++ ⟨b.size, true⟩ :: post)) ∧
      k'.stats = k.stats.countFree b.size := by
  set addr := heapStart + span kmallocHeaderSize pre with haddr
  obtain ⟨curr, hpre, hblock⟩ := blocks_append.mp h.blocks
  obtain ⟨rfl, hsize, hfree, hrest⟩ := hblock
  rw [← haddr] at *
  have hpos : 0 < heapStart := by decide
  -- First the block is marked free in its place, then the merge runs over the whole list.
  have hmarked : Blocks (Function.update k.headers addr { k.headers addr with isFree := true }) 0
      k.freeListHead heapStart (pre ++ ⟨b.size, true⟩ :: post) := by
    refine blocks_append.mpr ⟨addr, hpre.update_after (Nat.le_refl _) _, rfl, ?_, ?_, ?_⟩
    · rw [← haddr, Function.update_self]
      exact hsize
    · rw [← haddr, Function.update_self]
    · rw [← haddr, Function.update_self]
      exact hrest.update_before (by simp only [kmallocHeaderSize]; omega) _
  have hwhole : span kmallocHeaderSize (pre ++ (⟨b.size, true⟩ : Block) :: post) = heapSize := by
    rw [← h.whole, span_append, span_append, span, span]
  have hfuel : (pre ++ (⟨b.size, true⟩ : Block) :: post).length < blockFuel := by
    have := h.length_lt
    simpa using this
  obtain ⟨headers', hmerge, hmerged, -⟩ := mergeFree_spec hmarked hpos
    (by rw [hwhole]; decide) hfuel
  refine ⟨{ k with headers := headers', stats := k.stats.countFree b.size }, ?_,
    ⟨hmerged, ?_, ?_⟩, rfl⟩
  · have hback : addr + kmallocHeaderSize - kmallocHeaderSize = addr := Nat.add_sub_cancel _ _
    rw [kfree, if_neg (by simp only [kmallocHeaderSize]; omega)]
    simp only [hback]
    rw [hfree, hused, if_neg Bool.false_ne_true, hmerge, hsize]
    rfl
  · rw [span_coalesce, hwhole]
  · refine coalesce_forall (fun s t hs ht => ?_) fun c hc => ?_
    · simp only [kmallocHeaderSize]
      omega
    · rcases List.mem_append.mp hc with hc | hc
      · exact h.aligned c (by simp [hc])
      · rcases List.mem_cons.mp hc with rfl | hc
        · exact h.aligned b (by simp)
        · exact h.aligned c (by simp [hc])

end Calls

/-! ## Runs -/

/-- The heap, with the pointers its clients hold. -/
structure Heap where
  k : Kmalloc
  live : List Nat

/-- The size of the payload at a pointer. -/
def Heap.payloadSize (s : Heap) (ptr : Nat) : Nat := (s.k.headers (ptr - kmallocHeaderSize)).size

/-- An allocation with the pointer it returns, a release, or stores of a client, with the headers
as memory then holds them. -/
inductive HeapOp
  | malloc (size : BitVec 64) (ptr : Nat)
  | free (ptr : Nat)
  | store (ptr : Nat) (headers : Nat → KmallocHeader)

/-- The steps of the heap and its clients. A release is of `NULL` or of a live pointer, and a client
stores only to a payload it holds: no header outside the payload changes. -/
inductive HeapStep : Heap → HeapOp → Heap → Prop
  | malloc {s : Heap} {size : BitVec 64} {k : Kmalloc} {ptr : Nat}
      (hcall : kmalloc s.k size = some (k, ptr)) :
      HeapStep s (.malloc size ptr) ⟨k, if ptr = 0 then s.live else ptr :: s.live⟩
  | free {s : Heap} {ptr : Nat} {k : Kmalloc} (hptr : ptr = 0 ∨ ptr ∈ s.live)
      (hcall : kfree s.k ptr = some k) : HeapStep s (.free ptr) ⟨k, s.live.erase ptr⟩
  | store {s : Heap} {ptr : Nat} {headers : Nat → KmallocHeader} (hptr : ptr ∈ s.live)
      (hout : ∀ a, a + kmallocHeaderSize ≤ ptr ∨ ptr + s.payloadSize ptr ≤ a →
        headers a = s.k.headers a) :
      HeapStep s (.store ptr headers) ⟨{ s.k with headers := headers }, s.live⟩

/-- The heap after `kmalloc_init`. -/
def heapStarted (headers : Nat → KmallocHeader) (pmm : Pmm) : Heap :=
  ⟨(kmallocInit headers pmm).1, []⟩

/-- The payload of a located block. -/
def payload (x : Nat × Block) : Nat := x.1 + kmallocHeaderSize

/-- The blocks are laid out, and those in use are the live ones. -/
def HeapInv (s : Heap) : Prop :=
  ∃ l, HeapTiled s.k l ∧ s.live.Perm ((taken kmallocHeaderSize heapStart l).map payload)

/-- **What holds of the heap in every run.** -/
structure HeapLayout (s : Heap) (l : List Block) : Prop where
  tiled : HeapTiled s.k l
  /-- A live pointer is to the payload of a block in use. -/
  used : ∀ p ∈ s.live, ∃ x ∈ taken kmallocHeaderSize heapStart l,
    p = payload x ∧ s.payloadSize p = x.2.size
  aligned : ∀ p ∈ s.live, 8 ∣ p
  nodup : s.live.Nodup
  disjoint : s.live.Pairwise fun p q =>
    p + s.payloadSize p ≤ q ∨ q + s.payloadSize q ≤ p
  /-- No header lies in a live payload. -/
  headers : ∀ p ∈ s.live, ∀ x ∈ located kmallocHeaderSize heapStart l,
    x.1 + kmallocHeaderSize ≤ p ∨ p + s.payloadSize p ≤ x.1
  /-- Every call returns. -/
  returns : (∀ size, (kmalloc s.k size).isSome) ∧ ∀ p, p = 0 ∨ p ∈ s.live → (kfree s.k p).isSome

section Runs

variable {s : Heap} {l : List Block}

theorem heapInv_started (headers : Nat → KmallocHeader) (pmm : Pmm) :
    HeapInv (heapStarted headers pmm) :=
  ⟨_, kmallocInit_tiled headers pmm, by simp [heapStarted, taken, located]⟩

/-- Changing the blocks of one part of the range leaves the other payloads where they are. -/
theorem exists_payloads_split (pre post : List Block) (n : Nat) :
    ∃ ps qs, ∀ m, span kmallocHeaderSize m = n →
      (taken kmallocHeaderSize heapStart (pre ++ m ++ post)).map payload = ps ++
        (taken kmallocHeaderSize (heapStart + span kmallocHeaderSize pre) m).map payload ++ qs := by
  refine ⟨(taken kmallocHeaderSize heapStart pre).map payload,
    (taken kmallocHeaderSize (heapStart + (span kmallocHeaderSize pre + n)) post).map payload,
    fun m hm => ?_⟩
  rw [taken_append, taken_append, List.map_append, List.map_append, span_append, hm]

theorem payloadSize_payload (htiled : HeapTiled s.k l) {x : Nat × Block}
    (hx : x ∈ located kmallocHeaderSize heapStart l) : s.payloadSize (payload x) = x.2.size := by
  rw [Heap.payloadSize, payload, Nat.add_sub_cancel]
  exact (htiled.blocks.header hx).1

theorem HeapTiled.dvd_payload (htiled : HeapTiled s.k l) {x : Nat × Block}
    (hx : x ∈ located kmallocHeaderSize heapStart l) : 8 ∣ payload x := by
  have hheader : 8 ∣ kmallocHeaderSize := by decide
  have haddr := dvd_of_mem_located hheader htiled.aligned (by decide : 8 ∣ heapStart) hx
  exact Nat.dvd_add haddr hheader

/-- Of two blocks in use, the payload of the first ends before the header of the second. -/
theorem HeapTiled.pairwise_payload (htiled : HeapTiled s.k l) :
    ((taken kmallocHeaderSize heapStart l).map payload).Pairwise fun p q =>
      p + s.payloadSize p + kmallocHeaderSize ≤ q := by
  rw [List.pairwise_map]
  refine ((located_pairwise heapStart l).filter _).imp_of_mem fun {x y} hx _ hlt => ?_
  rw [payloadSize_payload htiled (mem_taken.mp hx).1]
  simp only [payload]
  omega

/-- A header lies before the payload of a block, or after it. -/
theorem HeapTiled.header_outside (htiled : HeapTiled s.k l) {x y : Nat × Block}
    (hx : x ∈ located kmallocHeaderSize heapStart l)
    (hy : y ∈ located kmallocHeaderSize heapStart l) :
    y.1 + kmallocHeaderSize ≤ payload x ∨ payload x + s.payloadSize (payload x) ≤ y.1 := by
  rw [payloadSize_payload htiled hx]
  simp only [payload]
  by_cases hne : x.1 = y.1
  · exact Or.inl (by omega)
  · rcases located_disjoint hx hy hne with h | h
    · exact Or.inr h
    · exact Or.inl (by omega)

/-- A free block is no payload in use; a block in use is one. -/
theorem map_taken_singleton (a : Nat) (b : Block) :
    (taken kmallocHeaderSize a [b]).map payload =
      if b.isFree then [] else [a + kmallocHeaderSize] := by
  rw [taken_cons]
  cases b.isFree <;> simp [taken, located, payload]

theorem HeapInv.malloc {size : BitVec 64} {k : Kmalloc} {ptr : Nat} (h : HeapInv s)
    (hcall : kmalloc s.k size = some (k, ptr)) :
    HeapInv ⟨k, if ptr = 0 then s.live else ptr :: s.live⟩ := by
  obtain ⟨l, htiled, hlive⟩ := h
  rcases kmalloc_spec htiled size with ⟨heq, -⟩ | ⟨k', pre, b, post, rfl, hfits, heq, htiled', -⟩
  · obtain ⟨rfl, rfl⟩ : _ ∧ _ := by simpa using hcall.symm.trans heq
    rw [if_pos rfl]
    exact ⟨l, ⟨htiled.blocks, htiled.whole, htiled.aligned⟩, hlive⟩
  · obtain ⟨rfl, rfl⟩ : _ ∧ _ := by simpa using hcall.symm.trans heq
    rw [if_neg (by simp only [kmallocHeaderSize]; omega)]
    refine ⟨_, htiled', ?_⟩
    obtain ⟨ps, qs, hsplit⟩ := exists_payloads_split pre post (kmallocHeaderSize + b.size)
    obtain ⟨size', hcarve⟩ := taken_carve kmallocHeaderSize 8 (alignSize size)
      (heapStart + span kmallocHeaderSize pre) b
    have hbefore := hsplit [b] (by simp [span])
    rw [map_taken_singleton, hfits.1, if_pos rfl, List.append_nil, List.append_assoc,
      List.singleton_append] at hbefore
    rw [hbefore] at hlive
    rw [hsplit _ (span_carve _ _ _), hcarve]
    exact (hlive.cons _).trans (by simpa [payload] using List.perm_middle.symm)

theorem HeapInv.free {ptr : Nat} {k : Kmalloc} (h : HeapInv s) (hptr : ptr = 0 ∨ ptr ∈ s.live)
    (hcall : kfree s.k ptr = some k) : HeapInv ⟨k, s.live.erase ptr⟩ := by
  obtain ⟨l, htiled, hlive⟩ := h
  rcases hptr with rfl | hptr
  · -- no payload is at `NULL`
    have hzero : 0 ∉ s.live := fun hmem => by
      obtain ⟨x, -, hx⟩ := List.mem_map.mp (hlive.mem_iff.mp hmem)
      simp only [payload, kmallocHeaderSize] at hx
      omega
    obtain rfl : s.k = k := by simpa [kfree] using hcall
    rw [List.erase_of_not_mem hzero]
    exact ⟨l, htiled, hlive⟩
  · obtain ⟨⟨a, b⟩, hx, rfl⟩ := List.mem_map.mp (hlive.mem_iff.mp hptr)
    obtain ⟨hloc, hused⟩ := mem_taken.mp hx
    obtain ⟨pre, post, rfl, haddr⟩ := exists_of_mem_located hloc
    obtain rfl : a = heapStart + span kmallocHeaderSize pre := haddr
    obtain ⟨k', heq, htiled', -⟩ := kfree_spec htiled hused
    obtain rfl : k' = k := Option.some.inj (heq.symm.trans hcall)
    refine ⟨_, htiled', ?_⟩
    -- the payloads before and behind the block are those of the heap without it
    obtain ⟨ps, qs, hsplit⟩ := exists_payloads_split pre post (kmallocHeaderSize + b.size)
    have hbefore := hsplit [b] (by simp [span])
    have hafter := hsplit [⟨b.size, true⟩] (by simp [span])
    rw [map_taken_singleton, hused, if_neg Bool.false_ne_true, List.append_assoc, List.append_assoc,
      List.singleton_append, List.singleton_append] at hbefore
    rw [map_taken_singleton, if_pos rfl, List.append_nil, List.append_assoc,
      List.singleton_append] at hafter
    rw [taken_coalesce, hafter]
    rw [hbefore] at hlive
    have hcons := (hlive.trans List.perm_middle).erase
      (heapStart + span kmallocHeaderSize pre + kmallocHeaderSize)
    rwa [List.erase_cons_head] at hcons

/-- A store to the payload of a block in use leaves the blocks as they are. -/
theorem HeapTiled.store {headers : Nat → KmallocHeader} (htiled : HeapTiled s.k l)
    {x : Nat × Block} (hx : x ∈ taken kmallocHeaderSize heapStart l)
    (hout : ∀ a, a + kmallocHeaderSize ≤ payload x ∨ payload x + s.payloadSize (payload x) ≤ a →
      headers a = s.k.headers a) : HeapTiled { s.k with headers := headers } l := by
  refine ⟨htiled.blocks.congr fun y hy => hout y.1 ?_, htiled.whole, htiled.aligned⟩
  exact htiled.header_outside (mem_taken.mp hx).1 hy

theorem HeapInv.store {ptr : Nat} {headers : Nat → KmallocHeader} (h : HeapInv s)
    (hptr : ptr ∈ s.live) (hout : ∀ a, a + kmallocHeaderSize ≤ ptr ∨
      ptr + s.payloadSize ptr ≤ a → headers a = s.k.headers a) :
    HeapInv ⟨{ s.k with headers := headers }, s.live⟩ := by
  obtain ⟨l, htiled, hlive⟩ := h
  obtain ⟨x, hx, rfl⟩ := List.mem_map.mp (hlive.mem_iff.mp hptr)
  exact ⟨l, htiled.store hx hout, hlive⟩

/-- A block in use stays where it is while a part of the list next to it is cut or joined anew. -/
theorem mem_taken_replace {pre m m' post : List Block} {x : Nat × Block}
    (hspan : span kmallocHeaderSize m' = span kmallocHeaderSize m)
    (hx : x ∈ taken kmallocHeaderSize heapStart (pre ++ m ++ post))
    (hne : x ∉ taken kmallocHeaderSize (heapStart + span kmallocHeaderSize pre) m) :
    x ∈ taken kmallocHeaderSize heapStart (pre ++ m' ++ post) := by
  rw [taken_append, taken_append, List.mem_append, List.mem_append, span_append] at hx
  rw [taken_append, taken_append, List.mem_append, List.mem_append, span_append, hspan]
  rcases hx with (hx | hx) | hx
  · exact Or.inl (Or.inl hx)
  · exact absurd hx hne
  · exact Or.inr hx

/-- **An allocation leaves the sizes of the live blocks.** -/
theorem HeapInv.malloc_payloadSize {size : BitVec 64} {k : Kmalloc} {ptr p : Nat}
    {live : List Nat} (h : HeapInv s) (hcall : kmalloc s.k size = some (k, ptr))
    (hp : p ∈ s.live) : Heap.payloadSize ⟨k, live⟩ p = s.payloadSize p := by
  obtain ⟨l, htiled, hlive⟩ := h
  obtain ⟨x, hx, rfl⟩ := List.mem_map.mp (hlive.mem_iff.mp hp)
  rcases kmalloc_spec htiled size with ⟨heq, -⟩ | ⟨k', pre, b, post, rfl, hfits, heq, htiled', -⟩
  · obtain ⟨rfl, rfl⟩ : _ ∧ _ := by simpa using hcall.symm.trans heq
    rfl
  · obtain ⟨rfl, rfl⟩ : _ ∧ _ := by simpa using hcall.symm.trans heq
    have hx' : x ∈ taken kmallocHeaderSize heapStart
        (pre ++ carve kmallocHeaderSize 8 (alignSize size) b ++ post) := by
      refine mem_taken_replace (m := [b]) ?_ (by simpa using hx) ?_
      · rw [span_carve]
        simp [span]
      · -- the block that is cut is free
        simp [taken, located, hfits.1]
    rw [payloadSize_payload htiled (mem_taken.mp hx).1]
    exact payloadSize_payload (s := ⟨k, live⟩) htiled' (mem_taken.mp hx').1

/-- **A release leaves the sizes of the others.** -/
theorem HeapInv.free_payloadSize {k : Kmalloc} {ptr p : Nat} {live : List Nat} (h : HeapInv s)
    (hptr : ptr = 0 ∨ ptr ∈ s.live) (hcall : kfree s.k ptr = some k) (hp : p ∈ s.live)
    (hne : p ≠ ptr) : Heap.payloadSize ⟨k, live⟩ p = s.payloadSize p := by
  obtain ⟨l, htiled, hlive⟩ := h
  rcases hptr with rfl | hptr
  · obtain rfl : s.k = k := by simpa [kfree] using hcall
    rfl
  · obtain ⟨y, hy, rfl⟩ := List.mem_map.mp (hlive.mem_iff.mp hp)
    obtain ⟨⟨a, b⟩, hx, rfl⟩ := List.mem_map.mp (hlive.mem_iff.mp hptr)
    obtain ⟨hloc, hused⟩ := mem_taken.mp hx
    obtain ⟨pre, post, rfl, haddr⟩ := exists_of_mem_located hloc
    obtain rfl : a = heapStart + span kmallocHeaderSize pre := haddr
    obtain ⟨k', heq, htiled', -⟩ := kfree_spec htiled hused
    obtain rfl : k' = k := Option.some.inj (heq.symm.trans hcall)
    have hy' : y ∈ taken kmallocHeaderSize heapStart (pre ++ [⟨b.size, true⟩] ++ post) := by
      refine mem_taken_replace (m := [b]) (by simp [span]) (by simpa using hy) fun hmem => hne ?_
      obtain ⟨rfl, -⟩ : y = (heapStart + span kmallocHeaderSize pre, b) ∧ y.2.isFree = false := by
        simpa [taken, located] using hmem
      rfl
    rw [List.append_assoc, List.singleton_append, ← taken_coalesce] at hy'
    rw [payloadSize_payload htiled (mem_taken.mp hy).1]
    exact payloadSize_payload (s := ⟨k', live⟩) htiled' (mem_taken.mp hy').1

theorem HeapInv.step {op : HeapOp} {t : Heap} (h : HeapInv s) (hstep : HeapStep s op t) :
    HeapInv t := by
  cases hstep with
  | malloc hcall => exact h.malloc hcall
  | free hptr hcall => exact h.free hptr hcall
  | store hptr hout => exact h.store hptr hout

/-- **A live block stays where it is**, with its size, in every step that does not free it. -/
theorem HeapInv.keeps {op : HeapOp} {t : Heap} {p : Nat} (h : HeapInv s) (hstep : HeapStep s op t)
    (hp : p ∈ s.live) (hne : op ≠ .free p) : p ∈ t.live ∧ t.payloadSize p = s.payloadSize p := by
  cases hstep with
  | malloc hcall =>
    refine ⟨?_, h.malloc_payloadSize hcall hp⟩
    dsimp only
    split
    · exact hp
    · exact List.mem_cons_of_mem _ hp
  | @free ptr k hptr hcall =>
    have hother : p ≠ ptr := fun heq => hne (congrArg HeapOp.free heq.symm)
    exact ⟨(List.mem_erase_of_ne hother).mpr hp, h.free_payloadSize hptr hcall hp hother⟩
  | @store ptr headers hptr hout =>
    refine ⟨hp, ?_⟩
    obtain ⟨l, htiled, hlive⟩ := h
    obtain ⟨x, hx, rfl⟩ := List.mem_map.mp (hlive.mem_iff.mp hptr)
    obtain ⟨y, hy, rfl⟩ := List.mem_map.mp (hlive.mem_iff.mp hp)
    -- the header of the block lies outside the payload that is stored to
    have hheader := hout y.1 (htiled.header_outside (mem_taken.mp hx).1 (mem_taken.mp hy).1)
    simp only [Heap.payloadSize, payload, Nat.add_sub_cancel, hheader]

theorem HeapInv.layout (h : HeapInv s) : ∃ l, HeapLayout s l := by
  obtain ⟨l, htiled, hlive⟩ := h
  -- what the program holds are the payloads of the blocks that are taken
  have hmem : ∀ p ∈ s.live, ∃ x ∈ taken kmallocHeaderSize heapStart l, p = payload x := by
    intro p hp
    obtain ⟨x, hx, rfl⟩ := List.mem_map.mp (hlive.mem_iff.mp hp)
    exact ⟨x, hx, rfl⟩
  refine ⟨l, htiled, fun p hp => ?_, fun p hp => ?_, ?_, ?_, fun p hp x hx => ?_, fun size => ?_,
    fun p hp => ?_⟩
  · obtain ⟨x, hx, rfl⟩ := hmem p hp
    exact ⟨x, hx, rfl, payloadSize_payload htiled (mem_taken.mp hx).1⟩
  · obtain ⟨x, hx, rfl⟩ := hmem p hp
    exact htiled.dvd_payload (mem_taken.mp hx).1
  · refine hlive.nodup_iff.mpr (htiled.pairwise_payload.imp fun {p q} hlt heq => ?_)
    simp only [kmallocHeaderSize] at hlt
    omega
  · refine (hlive.pairwise_iff fun {p q} => Or.symm).mpr
      (htiled.pairwise_payload.imp fun {p q} hlt => ?_)
    exact Or.inl (by omega)
  · obtain ⟨y, hy, rfl⟩ := hmem p hp
    exact htiled.header_outside (mem_taken.mp hy).1 hx
  -- where an allocation fails the heap is as it was
  · rcases kmalloc_spec htiled size with ⟨heq, -⟩ | ⟨k', pre, b, post, -, -, heq, -⟩
    · rw [heq]
      rfl
    · rw [heq]
      rfl
  · rcases hp with rfl | hp
    · rfl
    · obtain ⟨⟨a, b⟩, hx, rfl⟩ := hmem p hp
      obtain ⟨hloc, hused⟩ := mem_taken.mp hx
      obtain ⟨pre, post, rfl, haddr⟩ := exists_of_mem_located hloc
      obtain rfl : a = heapStart + span kmallocHeaderSize pre := haddr
      obtain ⟨k', heq, -⟩ := kfree_spec htiled hused
      rw [payload, heq]
      rfl

end Runs

/-- **The layout of the heap holds in every run** of allocations, releases of live pointers and
stores of clients to their payloads. -/
theorem heapRun_layout {headers : Nat → KmallocHeader} {pmm : Pmm} {ops : List HeapOp} {s : Heap}
    (h : Run HeapStep (heapStarted headers pmm) ops s) : ∃ l, HeapLayout s l := by
  refine HeapInv.layout (h.invariant (fun s op t hs hstep => ?_) (heapInv_started headers pmm))
  exact hs.step hstep

/-- Two allocations, and the first of them released. -/
theorem heapRun_layout_free : ∃ s l, HeapLayout s l ∧ s.live = [heapStart + 24 + 104 + 24] := by
  have hrun : Run HeapStep (heapStarted (fun _ => ⟨0, false, 0⟩) ⟨fun _ => 0, [], fun _ => 0, 0⟩)
      [.malloc 100 (heapStart + 24), .malloc 8 (heapStart + 24 + 104 + 24),
        .free (heapStart + 24)] _ :=
    ((Run.nil _ |>.snoc (HeapStep.malloc rfl)).snoc (HeapStep.malloc rfl)).snoc
      (HeapStep.free (Or.inr (by decide)) rfl)
  obtain ⟨l, hlayout⟩ := heapRun_layout hrun
  exact ⟨_, l, hlayout, by decide⟩

end ZohoOs
