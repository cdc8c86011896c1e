import Mathlib.Algebra.Order.BigOperators.Group.Finset
import Mathlib.Data.Finset.Card
import Mathlib.Tactic.Ring
import ZohoOs.Lib.TransitionSystem
import ZohoOs.Memory.Pmm

/-!
# The allocator's three records stay in step

The free stack, the bitmap and the reference counts describe the same set of free frames. The
invariant is split: `StackInv` ties the stack to the bitmap and survives every call, `PmmInv`
adds the counts and survives every call that raises only the count of a frame in use.

## Main definitions

* `StackInv`, `PmmInv`: the invariants
* `PmmOp`: the calls, with `PmmOp.Legal` the condition on their arguments

## Main results

* `PmmInv.step`: a legal call keeps the invariant
* `pmmRun_consistent`: what holds in every run from a state `pmmInit` builds
-/

namespace ZohoOs

open TransitionSystem

/-- The free stack lists, once each, the frames whose bit is clear. -/
structure StackInv (s : Pmm) : Prop where
  nodup : s.freeStack.Nodup
  aligned : ∀ addr ∈ s.freeStack, addr % pageSize = 0
  mem_iff : ∀ f, f * pageSize ∈ s.freeStack ↔ bitmapTest s.frameBitmap f = false
  lt_max : ∀ addr ∈ s.freeStack, addr / pageSize < maxFrames

/-- The frames in use. -/
def referenced (refCounts : Nat → Nat) : Finset Nat :=
  (Finset.range maxFrames).filter fun f => 0 < refCounts f

/-- **The invariant**: free frames are unreferenced, and free and referenced frames together
are the frames found at boot. -/
structure PmmInv (s : Pmm) : Prop extends StackInv s where
  ref_free : ∀ addr ∈ s.freeStack, s.refCounts (addr / pageSize) = 0
  conserved : s.freeStack.length + (referenced s.refCounts).card = s.totalFrames

theorem mem_referenced {r : Nat → Nat} {f : Nat} :
    f ∈ referenced r ↔ f < maxFrames ∧ 0 < r f := by
  simp [referenced]

/-- Giving a frame its first reference. -/
theorem card_referenced_first {r : Nat → Nat} {f v : Nat} (hf : f < maxFrames) (h0 : r f = 0)
    (hv : 0 < v) : (referenced (Function.update r f v)).card = (referenced r).card + 1 := by
  have hins : referenced (Function.update r f v) = insert f (referenced r) := by
    ext g
    simp only [mem_referenced, Finset.mem_insert, Function.update_apply]
    by_cases hg : g = f
    · simp [hg, hv, hf]
    · simp [hg]
  rw [hins, Finset.card_insert_of_notMem (by simp [mem_referenced, h0])]

/-- Dropping a frame's last reference. -/
theorem card_referenced_last {r : Nat → Nat} {f : Nat} (hf : f < maxFrames) (h0 : 0 < r f) :
    (referenced (Function.update r f 0)).card + 1 = (referenced r).card := by
  have hback : r = Function.update (Function.update r f 0) f (r f) := by simp
  conv_rhs => rw [hback]
  exact (card_referenced_first hf (by simp) h0).symm

theorem referenced_update_pos {r : Nat → Nat} {f v : Nat} (h0 : 0 < r f) (hv : 0 < v) :
    referenced (Function.update r f v) = referenced r := by
  ext g
  simp only [mem_referenced, Function.update_apply]
  by_cases hg : g = f
  · simp [hg, h0, hv]
  · simp [hg]

theorem mul_div_pageSize {addr : Nat} (h : addr % pageSize = 0) :
    addr / pageSize * pageSize = addr := Nat.div_mul_cancel (Nat.dvd_of_mod_eq_zero h)

theorem div_pageSize_inj {a b : Nat} (ha : a % pageSize = 0) (hb : b % pageSize = 0)
    (h : a / pageSize = b / pageSize) : a = b := by
  rw [← mul_div_pageSize ha, h, mul_div_pageSize hb]

/-! ## The stack and the bitmap -/

section Stack

variable {s : Pmm}

theorem StackInv.mem_iff_addr (h : StackInv s) {addr : Nat} (ha : addr % pageSize = 0) :
    addr ∈ s.freeStack ↔ bitmapTest s.frameBitmap (addr / pageSize) = false := by
  rw [← h.mem_iff, mul_div_pageSize ha]

theorem StackInv.alloc (h : StackInv s) : StackInv (pmmAllocFrame s).2 := by
  unfold pmmAllocFrame
  cases hs : s.freeStack with
  | nil => exact h
  | cons addr rest =>
    have hnd := List.nodup_cons.mp (hs ▸ h.nodup)
    have hmem : ∀ a ∈ rest, a ∈ s.freeStack := fun a ha => hs ▸ List.mem_cons_of_mem _ ha
    have haddr := h.aligned addr (hs ▸ List.mem_cons_self)
    refine ⟨hnd.2, fun a ha => h.aligned a (hmem a ha), fun f => ?_,
      fun a ha => h.lt_max a (hmem a ha)⟩
    simp only [bitmapTest_set, Bool.or_eq_false_iff, decide_eq_false_iff_not]
    rw [← h.mem_iff, hs, List.mem_cons]
    constructor
    · intro hf
      refine ⟨fun he => hnd.1 ?_, Or.inr hf⟩
      rwa [he, mul_div_pageSize haddr] at hf
    · rintro ⟨hne, hf | hf⟩
      · exact absurd (by rw [← hf, Nat.mul_div_cancel _ (by decide)]) hne
      · exact hf

/-- Returning a frame that is not on the stack. -/
theorem StackInv.push (h : StackInv s) {addr : Nat} (ha : addr % pageSize = 0)
    (hlt : addr / pageSize < maxFrames) (hbit : bitmapTest s.frameBitmap (addr / pageSize) = true)
    (r : Nat → Nat) :
    StackInv { s with
      frameBitmap := bitmapUnset s.frameBitmap (addr / pageSize)
      freeStack := addr :: s.freeStack
      refCounts := r } := by
  have hnot : addr ∉ s.freeStack := by simp [h.mem_iff_addr ha, hbit]
  refine ⟨List.nodup_cons.mpr ⟨hnot, h.nodup⟩, ?_, fun f => ?_, ?_⟩
  · simpa [ha] using h.aligned
  · have hiff : f * pageSize = addr ↔ f = addr / pageSize := by simp only [pageSize] at *; omega
    simp only [List.mem_cons, bitmapTest_unset, hiff, h.mem_iff]
    by_cases hf : f = addr / pageSize <;> simp [hf]
  · simpa using ⟨hlt, h.lt_max⟩

theorem StackInv.free (h : StackInv s) {addr : Nat} (ha : addr % pageSize = 0) :
    StackInv (pmmFreeFrame s addr) := by
  unfold pmmFreeFrame
  dsimp only
  split
  · exact h
  · next hlt =>
    split
    · split
      · split
        · next hbit => exact h.push ha (by omega) hbit _
        · exact ⟨h.nodup, h.aligned, h.mem_iff, h.lt_max⟩
      · exact ⟨h.nodup, h.aligned, h.mem_iff, h.lt_max⟩
    · exact h

theorem StackInv.refInc (h : StackInv s) (addr : Nat) : StackInv (pmmRefInc s addr) := by
  unfold pmmRefInc
  dsimp only
  split
  · exact ⟨h.nodup, h.aligned, h.mem_iff, h.lt_max⟩
  · exact h

end Stack

/-! ## Allocations that succeed -/

/-- The next `n` calls of `pmmAllocFrame` return a frame. -/
def Pmm.Available (s : Pmm) (n : Nat) : Prop :=
  n ≤ s.freeStack.length ∧ 0 ∉ s.freeStack.take n

instance (s : Pmm) (n : Nat) : Decidable (s.Available n) := inferInstanceAs (Decidable (_ ∧ _))

theorem Pmm.available_zero (s : Pmm) : s.Available 0 := ⟨Nat.zero_le _, by simp⟩

theorem Pmm.available_succ {s : Pmm} {n : Nat} (h : s.Available (n + 1)) :
    (pmmAllocFrame s).1 ≠ 0 ∧ (pmmAllocFrame s).2.Available n := by
  obtain ⟨hlen, hzero⟩ := h
  unfold pmmAllocFrame
  cases hs : s.freeStack with
  | nil => simp [hs] at hlen
  | cons addr rest =>
    rw [hs, List.take_succ_cons, List.mem_cons, not_or] at hzero
    rw [hs, List.length_cons] at hlen
    exact ⟨fun he => hzero.1 he.symm, Nat.le_of_succ_le_succ hlen, hzero.2⟩

theorem Pmm.available_of_alloc {s : Pmm} {n : Nat} (hne : (pmmAllocFrame s).1 ≠ 0)
    (h : (pmmAllocFrame s).2.Available n) : s.Available (n + 1) := by
  unfold pmmAllocFrame at hne h
  cases hs : s.freeStack with
  | nil => simp [hs] at hne
  | cons addr rest =>
    rw [hs] at hne h
    obtain ⟨hlen, hzero⟩ := h
    refine ⟨by rw [hs]; exact Nat.succ_le_succ hlen, ?_⟩
    rw [hs, List.take_succ_cons, List.mem_cons, not_or]
    exact ⟨fun he => hne he.symm, hzero⟩

theorem Pmm.Available.mono {s : Pmm} {m n : Nat} (h : s.Available n) (hmn : m ≤ n) :
    s.Available m :=
  ⟨Nat.le_trans hmn h.1, fun hmem => h.2 (List.take_subset_take_left _ hmn hmem)⟩

theorem Pmm.Available.congr {s t : Pmm} {n : Nat} (h : s.Available n)
    (hst : t.freeStack = s.freeStack) : t.Available n := by
  rwa [Pmm.Available, hst]

/-- A free puts the frame back on top of the stack, or does nothing to the stack. -/
theorem pmmFreeFrame_freeStack (s : Pmm) (a : Nat) :
    (pmmFreeFrame s a).freeStack = s.freeStack ∨ (pmmFreeFrame s a).freeStack = a :: s.freeStack := by
  unfold pmmFreeFrame
  dsimp only
  split_ifs
  · exact Or.inl rfl
  · exact Or.inr rfl
  · exact Or.inl rfl
  · exact Or.inl rfl
  · exact Or.inl rfl

theorem pmmRefInc_freeStack (s : Pmm) (addr : Nat) :
    (pmmRefInc s addr).freeStack = s.freeStack := by
  unfold pmmRefInc
  dsimp only
  split <;> rfl

theorem freeStack_alloc (s : Pmm) : (pmmAllocFrame s).2.freeStack = s.freeStack.tail := by
  unfold pmmAllocFrame
  cases hs : s.freeStack with
  | nil => exact hs
  | cons => rfl

/-- An allocated frame has one reference. -/
theorem refCounts_alloc {s : Pmm} (hne : (pmmAllocFrame s).1 ≠ 0) : (pmmAllocFrame s).2.refCounts =
    Function.update s.refCounts ((pmmAllocFrame s).1 / pageSize) 1 := by
  unfold pmmAllocFrame at hne ⊢
  cases hs : s.freeStack with
  | nil => simp [hs] at hne
  | cons addr rest => rfl

/-- The last reference to a frame that is not free goes, and the frame is free. -/
theorem pmmFreeFrame_last {s : Pmm} {addr : Nat} (hlt : addr / pageSize < maxFrames)
    (href : s.refCounts (addr / pageSize) = 1)
    (hbit : bitmapTest s.frameBitmap (addr / pageSize) = true) :
    pmmFreeFrame s addr = { s with
      frameBitmap := bitmapUnset s.frameBitmap (addr / pageSize)
      freeStack := addr :: s.freeStack
      refCounts := Function.update s.refCounts (addr / pageSize) 0 } := by
  simp only [pmmFreeFrame, if_neg (Nat.not_le.mpr hlt), href, if_pos Nat.one_pos, gt_iff_lt,
    Function.update_self, Nat.sub_self, if_true, hbit]

/-- A frame comes off the top of the stack, where it was once. -/
theorem StackInv.alloc_spec {s : Pmm} (h : StackInv s) (hne : (pmmAllocFrame s).1 ≠ 0) :
    (pmmAllocFrame s).1 ∈ s.freeStack ∧
      s.freeStack = (pmmAllocFrame s).1 :: (pmmAllocFrame s).2.freeStack ∧
      (pmmAllocFrame s).1 ∉ (pmmAllocFrame s).2.freeStack := by
  have hnodup := h.nodup
  unfold pmmAllocFrame at hne ⊢
  cases hs : s.freeStack with
  | nil => simp [hs] at hne
  | cons addr rest =>
    rw [hs] at hnodup
    exact ⟨List.mem_cons_self, rfl, (List.nodup_cons.mp hnodup).1⟩

/-! ## The reference counts -/

section Counts

variable {s : Pmm}

theorem PmmInv.alloc (h : PmmInv s) : PmmInv (pmmAllocFrame s).2 := by
  have hstack := h.toStackInv.alloc
  unfold pmmAllocFrame at hstack ⊢
  cases hs : s.freeStack with
  | nil => exact h
  | cons addr rest =>
    rw [hs] at hstack
    have haddr : addr ∈ s.freeStack := hs ▸ List.mem_cons_self
    have hlt := h.lt_max addr haddr
    refine ⟨hstack, fun a ha => ?_, ?_⟩
    · have hmem : a ∈ s.freeStack := hs ▸ List.mem_cons_of_mem _ ha
      have hne : a / pageSize ≠ addr / pageSize := by
        intro he
        rw [div_pageSize_inj (h.aligned a hmem) (h.aligned addr haddr) he] at ha
        exact (List.nodup_cons.mp (hs ▸ h.nodup)).1 ha
      simpa [hne] using h.ref_free a hmem
    · have hc := h.conserved
      rw [hs, List.length_cons] at hc
      dsimp only
      rw [card_referenced_first hlt (h.ref_free addr haddr) Nat.one_pos]
      omega

theorem PmmInv.free (h : PmmInv s) {addr : Nat} (ha : addr % pageSize = 0) :
    PmmInv (pmmFreeFrame s addr) := by
  have hstack := h.toStackInv.free ha
  unfold pmmFreeFrame at hstack ⊢
  dsimp only at hstack ⊢
  split at hstack
  · next hge => simpa only [if_pos hge] using h
  · next hlt =>
    rw [if_neg hlt]
    rw [not_le] at hlt
    split at hstack
    · next hpos =>
      -- a referenced frame is in use, so its bit is set
      have hbit : bitmapTest s.frameBitmap (addr / pageSize) = true := by
        rw [← Bool.not_eq_false, ← h.mem_iff_addr ha]
        intro hmem
        exact absurd (h.ref_free addr hmem) hpos.ne'
      have hnot : addr ∉ s.freeStack := by simp [h.mem_iff_addr ha, hbit]
      have hoff : ∀ a ∈ s.freeStack, a / pageSize ≠ addr / pageSize := fun a hmem he =>
        hnot (div_pageSize_inj (h.aligned a hmem) ha he ▸ hmem)
      rw [if_pos hpos]
      simp only [Function.update_self, hbit, if_true] at hstack ⊢
      split
      · next hlast =>
        simp only [hlast, if_true] at hstack ⊢
        refine ⟨hstack, fun a hmem => ?_, ?_⟩
        · rcases List.mem_cons.mp hmem with rfl | hmem
          · simp
          · simpa [hoff a hmem] using h.ref_free a hmem
        · have hc := card_referenced_last hlt hpos
          have := h.conserved
          simp only [List.length_cons]
          omega
      · next hmore =>
        simp only [hmore, if_false] at hstack
        refine ⟨hstack, fun a hmem => ?_, ?_⟩
        · simpa [hoff a hmem] using h.ref_free a hmem
        · rw [referenced_update_pos hpos (Nat.pos_of_ne_zero hmore)]
          exact h.conserved
    · next hzero => simpa only [if_neg hzero] using h

/-- Raising the count of a frame in use. -/
theorem PmmInv.refInc (h : PmmInv s) {addr : Nat} (hpos : 1 ≤ pmmGetRef s addr)
    (hmax : pmmGetRef s addr ≤ 2 ^ 32 - 2) : PmmInv (pmmRefInc s addr) := by
  have hstack := h.toStackInv.refInc addr
  unfold pmmRefInc at hstack ⊢
  unfold pmmGetRef at hpos hmax
  dsimp only at hstack hpos hmax ⊢
  split at hpos
  · next hlt =>
    rw [if_pos hlt] at hstack hmax ⊢
    have hmod : (s.refCounts (addr / pageSize) + 1) % 2 ^ 32 = s.refCounts (addr / pageSize) + 1 :=
      Nat.mod_eq_of_lt (by omega)
    rw [hmod] at hstack ⊢
    refine ⟨hstack, fun a hmem => ?_, ?_⟩
    · have hne : a / pageSize ≠ addr / pageSize := by
        intro he
        have := h.ref_free a hmem
        rw [he] at this
        omega
      simpa [hne] using h.ref_free a hmem
    · rw [referenced_update_pos hpos (Nat.succ_pos _)]
      exact h.conserved
  · omega

end Counts

/-! ## Runs of the allocator -/

/-- The calls of a run. -/
inductive PmmOp
  | alloc
  | free (addr : Nat)
  | refInc (addr : Nat)

def PmmOp.run : PmmOp → Pmm → Pmm
  | .alloc, s => (pmmAllocFrame s).2
  | .free addr, s => pmmFreeFrame s addr
  | .refInc addr, s => pmmRefInc s addr

/-- Any page-aligned address may be freed; only a frame in use may be shared, and never so often
that its 32-bit count overflows. -/
def PmmOp.Legal (s : Pmm) : PmmOp → Prop
  | .alloc => True
  | .free addr => addr % pageSize = 0
  | .refInc addr => 1 ≤ pmmGetRef s addr ∧ pmmGetRef s addr ≤ 2 ^ 32 - 2

/-- The calls with legal arguments. -/
abbrev pmmStep : Pmm → PmmOp → Pmm → Prop := Restrict PmmOp.Legal (Apply PmmOp.run)

/-- A legal call keeps the invariant. -/
theorem PmmInv.step {s t : Pmm} {op : PmmOp} (h : PmmInv s) (hstep : pmmStep s op t) :
    PmmInv t := by
  obtain ⟨hlegal, rfl⟩ := hstep
  cases op with
  | alloc => exact h.alloc
  | free addr => exact h.free hlegal
  | refInc addr => exact h.refInc hlegal.1 hlegal.2

/-- Frames never given to the allocator: their bit is set and nothing references them. -/
def Reserved (s : Pmm) (f : Nat) : Prop :=
  bitmapTest s.frameBitmap f = true ∧ s.refCounts f = 0

/-- A legal call leaves the reserved frames reserved. -/
theorem Reserved.step {s t : Pmm} {op : PmmOp} {f : Nat} (h : PmmInv s) (hf : Reserved s f)
    (hstep : pmmStep s op t) : Reserved t f := by
  obtain ⟨hlegal, rfl⟩ := hstep
  obtain ⟨hbit, href⟩ := hf
  cases op with
  | alloc =>
    simp only [PmmOp.run, pmmAllocFrame]
    cases hs : s.freeStack with
    | nil => exact ⟨hbit, href⟩
    | cons addr rest =>
      -- What is on the stack is marked free, and `f` is not.
      have haddr : addr ∈ s.freeStack := hs ▸ List.mem_cons_self
      have hne : f ≠ addr / pageSize := by
        rintro rfl
        rw [(h.mem_iff_addr (h.aligned addr haddr)).mp haddr] at hbit
        exact absurd hbit (by simp)
      exact ⟨by simp [hbit], by simpa [hne] using href⟩
  | free addr =>
    simp only [PmmOp.run, pmmFreeFrame]
    split
    · exact ⟨hbit, href⟩
    · split
      · -- A frame whose count is not 0 is not `f`, in this branch and in `refInc`.
        next hpos =>
        have hne : f ≠ addr / pageSize := by
          rintro rfl
          omega
        split
        · split
          · exact ⟨by simp [hbit, hne], by simpa [hne] using href⟩
          · exact ⟨hbit, by simpa [hne] using href⟩
        · exact ⟨hbit, by simpa [hne] using href⟩
      · exact ⟨hbit, href⟩
  | refInc addr =>
    simp only [PmmOp.run, pmmRefInc]
    simp only [PmmOp.Legal, pmmGetRef] at hlegal
    split at hlegal
    · next hlt =>
      rw [if_pos hlt]
      have hne : f ≠ addr / pageSize := by
        rintro rfl
        omega
      exact ⟨hbit, by simpa [hne] using href⟩
    · omega

/-- `pmmInit` establishes the invariant. -/
theorem pmmInit_inv {mbInfo : MultibootInfo} {kernelEnd : Nat} {s : Pmm}
    (h : pmmInit mbInfo kernelEnd = some s) : PmmInv s := by
  obtain ⟨hstack, hbits, hrefs, htotal⟩ := pmmInit_spec h
  -- the stack holds the frames that are free at boot, and these are frames of the bitmap
  have hmem : ∀ addr, addr ∈ s.freeStack ↔
      ∃ f < maxFrames, freeAtBoot mbInfo kernelEnd f ∧ f * pageSize = addr := by
    intro addr
    simp only [hstack, List.mem_map, List.mem_reverse, List.mem_filter, List.mem_range, and_assoc]
  have hmax : ∀ f, freeAtBoot mbInfo kernelEnd f → f < maxFrames := by
    intro f hf
    simp only [freeAtBoot, Bool.and_eq_true, decide_eq_true_eq] at hf
    exact hf.1.1.1
  refine ⟨⟨?_, ?_, fun f => ?_, ?_⟩, ?_, ?_⟩
  · rw [hstack]
    refine List.Nodup.map (fun a b hab => ?_) (List.nodup_reverse.mpr ?_)
    · simpa using hab
    · exact List.Nodup.filter _ List.nodup_range
  · intro addr ha
    obtain ⟨f, -, -, rfl⟩ := (hmem addr).mp ha
    exact Nat.mul_mod_left f pageSize
  · rw [hmem, hbits, Bool.not_eq_false']
    constructor
    · rintro ⟨g, -, hg, he⟩
      obtain rfl : g = f := by simpa using he
      exact hg
    · exact fun hf => ⟨f, hmax f hf, hf, rfl⟩
  · intro addr ha
    obtain ⟨f, hf, -, rfl⟩ := (hmem addr).mp ha
    rwa [Nat.mul_div_cancel _ (by decide)]
  · simp [hrefs]
  · simp [hrefs, htotal, referenced]

theorem pmmInit_reserved {mbInfo : MultibootInfo} {kernelEnd f : Nat} {s : Pmm}
    (h : pmmInit mbInfo kernelEnd = some s) (hf : freeAtBoot mbInfo kernelEnd f = false) :
    Reserved s f := by
  obtain ⟨-, hbits, hrefs, -⟩ := pmmInit_spec h
  exact ⟨by rw [hbits, hf]; rfl, by rw [hrefs]⟩

/-- Both invariants hold throughout a run of legal calls. -/
theorem pmmRun_inv {s₀ s : Pmm} {ops : List PmmOp} (h₀ : PmmInv s₀) (hrun : Run pmmStep s₀ ops s) :
    PmmInv s ∧ ∀ f, Reserved s₀ f → Reserved s f :=
  hrun.invariant (I := fun s => PmmInv s ∧ ∀ f, Reserved s₀ f → Reserved s f)
    (fun _ _ _ h hstep => ⟨h.1.step hstep, fun f hf => (h.2 f hf).step h.1 hstep⟩)
    ⟨h₀, fun _ hf => hf⟩

/-- **The run invariant of the allocator.** From any state `pmmInit` builds, in every run of
legal calls: the stack has no duplicates; a frame is on it iff its bit is clear; frames on it
are unreferenced; frames reserved at boot are never on it; free and referenced frames add up to
the total; the stack pointer stays in range; and no allocation returns a referenced frame. -/
theorem pmmRun_consistent {mbInfo : MultibootInfo} {kernelEnd : Nat} {s₀ s : Pmm}
    {ops : List PmmOp} (h₀ : pmmInit mbInfo kernelEnd = some s₀) (hrun : Run pmmStep s₀ ops s) :
    s.freeStack.Nodup ∧
    (∀ f, f * pageSize ∈ s.freeStack ↔ bitmapTest s.frameBitmap f = false) ∧
    (∀ addr ∈ s.freeStack, addr % pageSize = 0 ∧ pmmGetRef s addr = 0) ∧
    (∀ f, freeAtBoot mbInfo kernelEnd f = false → f * pageSize ∉ s.freeStack) ∧
    pmmGetFreeCount s + (referenced s.refCounts).card = pmmGetTotalFrames s ∧
    -1 ≤ s.stackPtr ∧ s.stackPtr ≤ (s.totalFrames : Int) - 1 ∧
    (s.freeStack ≠ [] → pmmGetRef s (pmmAllocFrame s).1 = 0) := by
  obtain ⟨h, hres⟩ := pmmRun_inv (pmmInit_inv h₀) hrun
  -- a free frame has no reference
  have href : ∀ addr ∈ s.freeStack, pmmGetRef s addr = 0 := by
    intro addr ha
    rw [pmmGetRef, if_pos (h.lt_max addr ha)]
    exact h.ref_free addr ha
  have hcons := h.conserved
  refine ⟨h.nodup, h.mem_iff, fun addr ha => ⟨h.aligned addr ha, href addr ha⟩, ?_, ?_, ?_, ?_, ?_⟩
  · intro f hf hmem
    rw [h.mem_iff, (hres f (pmmInit_reserved h₀ hf)).1] at hmem
    exact absurd hmem (by simp)
  · simpa [pmmGetTotalFrames] using hcons
  · simp only [Pmm.stackPtr]
    omega
  · simp only [Pmm.stackPtr]
    omega
  · intro hne
    unfold pmmAllocFrame
    cases hs : s.freeStack with
    | nil => exact absurd hs hne
    | cons addr rest => exact href addr (hs ▸ List.mem_cons_self)

/-- On the small machine: one allocation, then a frame freed twice that was never allocated. -/
theorem pmmRun_consistent_smallMachine :
    ∃ s₀ s, pmmInit smallMachine 0x102000 = some s₀ ∧
      Run pmmStep s₀ [.alloc, .free 0x105000, .free 0x105000] s ∧ s.freeStack.Nodup ∧
      pmmGetFreeCount s + (referenced s.refCounts).card = pmmGetTotalFrames s := by
  obtain ⟨s₀, h₀⟩ := pmmInit_smallMachine
  have hrun : Run pmmStep s₀ [.alloc, .free 0x105000, .free 0x105000]
      (pmmFreeFrame (pmmFreeFrame (pmmAllocFrame s₀).2 0x105000) 0x105000) :=
    .cons ⟨trivial, rfl⟩ (.cons ⟨rfl, rfl⟩ (.cons ⟨rfl, rfl⟩ (.nil _)))
  have h := pmmRun_consistent h₀ hrun
  exact ⟨s₀, _, h₀, hrun, h.1, h.2.2.2.2.1⟩

end ZohoOs
