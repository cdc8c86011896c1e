import ZohoOs.Memory.PmmInvariant

/-!
# Accounts of the frames

The holders of a frame are counted outside the allocator: a table is held by the space it is linked
in, a page by each entry that maps it. The allocator's books are right when the count of each of
its frames is the number of its holders, and the frames without a holder are the free ones.

## Main definitions

* `Accounted frames pmm held`: the books are right

## Main results

* `Accounted.alloc`, `Accounted.refInc`, `Accounted.free`, `Accounted.freeAll`: they stay right
-/

namespace ZohoOs

/-- **The books are right**: of `frames`, each has as many references as it has holders, and those
without are the ones on the stack. -/
structure Accounted (frames : Set Nat) (pmm : Pmm) (held : Nat → Nat) : Prop where
  stack : StackInv pmm
  aligned : ∀ a ∈ frames, a % pageSize = 0
  lt_max : ∀ a ∈ frames, a / pageSize < maxFrames
  refs : ∀ a ∈ frames, pmm.refCounts (a / pageSize) = held a
  free : ∀ a, a ∈ pmm.freeStack ↔ a ∈ frames ∧ held a = 0
  owned : ∀ a, 0 < held a → a ∈ frames

section Accounts

variable {frames : Set Nat} {pmm : Pmm} {held : Nat → Nat} {a : Nat}

/-- With no holders, the free frames are all there are. -/
theorem Accounted.start (h : PmmInv pmm) :
    Accounted {a | a ∈ pmm.freeStack} pmm fun _ => 0 where
  stack := h.toStackInv
  aligned := h.aligned
  lt_max := h.lt_max
  refs := h.ref_free
  free a := by simp
  owned a hpos := absurd hpos (Nat.lt_irrefl 0)

theorem Accounted.congr (h : Accounted frames pmm held) {held' : Nat → Nat}
    (heq : ∀ a, held' a = held a) : Accounted frames pmm held' := by
  obtain rfl : held' = held := funext heq
  exact h

theorem Accounted.getRef (h : Accounted frames pmm held) (ha : a ∈ frames) :
    pmmGetRef pmm a = held a := by
  rw [pmmGetRef, if_pos (h.lt_max a ha), h.refs a ha]

/-- Frames do not share a count. -/
theorem Accounted.div_ne (h : Accounted frames pmm held) {b : Nat} (ha : a ∈ frames)
    (hb : b ∈ frames) (hne : b ≠ a) : b / pageSize ≠ a / pageSize := by
  intro he
  exact hne (div_pageSize_inj (h.aligned b hb) (h.aligned a ha) he)

/-- Setting one count, for one holder more or less. -/
theorem Accounted.refs_update (h : Accounted frames pmm held) (ha : a ∈ frames) (n : Nat) :
    ∀ b ∈ frames, Function.update pmm.refCounts (a / pageSize) n (b / pageSize) =
      Function.update held a n b := by
  intro b hb
  rcases eq_or_ne b a with rfl | hne
  · rw [Function.update_self, Function.update_self]
  · rw [Function.update_of_ne (h.div_ne ha hb hne), Function.update_of_ne hne, h.refs b hb]

/-- An allocated frame gets its first holder. -/
theorem Accounted.alloc (h : Accounted frames pmm held) (hne : (pmmAllocFrame pmm).1 ≠ 0) :
    held (pmmAllocFrame pmm).1 = 0 ∧ (pmmAllocFrame pmm).1 ∈ frames ∧
    Accounted frames (pmmAllocFrame pmm).2 (Function.update held (pmmAllocFrame pmm).1 1) := by
  obtain ⟨hmem, hstack, hout⟩ := h.stack.alloc_spec hne
  obtain ⟨hframe, hzero⟩ := (h.free _).mp hmem
  refine ⟨hzero, hframe, h.stack.alloc, h.aligned, h.lt_max, ?_, fun a => ?_, fun a hpos => ?_⟩
  · rw [refCounts_alloc hne]
    exact h.refs_update hframe 1
  · rcases eq_or_ne a (pmmAllocFrame pmm).1 with rfl | hna
    · rw [Function.update_self]
      exact ⟨fun h => absurd h hout, fun h => absurd h.2 (by simp)⟩
    · rw [Function.update_of_ne hna, ← h.free a, hstack, List.mem_cons, or_iff_right hna]
  · rcases eq_or_ne a (pmmAllocFrame pmm).1 with rfl | hna
    · exact hframe
    · rw [Function.update_of_ne hna] at hpos
      exact h.owned a hpos

/-- A frame with a holder gets one more. -/
theorem Accounted.refInc (h : Accounted frames pmm held) (hpos : 0 < held a)
    (hmax : held a + 1 < 2 ^ 32) :
    Accounted frames (pmmRefInc pmm a) (Function.update held a (held a + 1)) := by
  have hframe := h.owned a hpos
  have hcounts : (pmmRefInc pmm a).refCounts =
      Function.update pmm.refCounts (a / pageSize) (held a + 1) := by
    unfold pmmRefInc
    rw [if_pos (h.lt_max a hframe)]
    simp only [h.refs a hframe, Nat.mod_eq_of_lt hmax]
  refine ⟨h.stack.refInc a, h.aligned, h.lt_max, ?_, fun b => ?_, fun b hb => ?_⟩
  · rw [hcounts]
    exact h.refs_update hframe _
  · rw [pmmRefInc_freeStack, h.free b]
    rcases eq_or_ne b a with rfl | hne
    · rw [Function.update_self]
      omega
    · rw [Function.update_of_ne hne]
  · rcases eq_or_ne b a with rfl | hne
    · exact hframe
    · rw [Function.update_of_ne hne] at hb
      exact h.owned b hb

/-- A frame loses a holder. -/
theorem Accounted.freeOne (h : Accounted frames pmm held) (hpos : 0 < held a) :
    Accounted frames (pmmFreeFrame pmm a) (Function.update held a (held a - 1)) := by
  have hframe := h.owned a hpos
  have hlt := h.lt_max a hframe
  have hal := h.aligned a hframe
  have hnot : a ∉ pmm.freeStack := by
    rw [h.free]
    exact fun hc => absurd hc.2 hpos.ne'
  -- a frame in use has its bit set
  have hbit : bitmapTest pmm.frameBitmap (a / pageSize) = true := by
    rw [← Bool.not_eq_false, ← h.stack.mem_iff_addr hal]
    exact hnot
  have hfree : (pmmFreeFrame pmm a).refCounts =
        Function.update pmm.refCounts (a / pageSize) (held a - 1) ∧
      ∀ b, b ∈ (pmmFreeFrame pmm a).freeStack ↔ b ∈ pmm.freeStack ∨ b = a ∧ held a = 1 := by
    unfold pmmFreeFrame
    simp only [if_neg (Nat.not_le.mpr hlt), h.refs a hframe, if_pos hpos, Function.update_self, hbit,
      if_true]
    by_cases hone : held a = 1
    · rw [if_pos (by omega)]
      refine ⟨rfl, fun b => ?_⟩
      rw [List.mem_cons, or_comm]
      simp [hone]
    · rw [if_neg (by omega)]
      exact ⟨rfl, fun b => by simp [hone]⟩
  refine ⟨h.stack.free hal, h.aligned, h.lt_max, ?_, fun b => ?_, fun b hb => ?_⟩
  · rw [hfree.1]
    exact h.refs_update hframe _
  · rw [hfree.2, h.free b]
    rcases eq_or_ne b a with rfl | hne
    · rw [Function.update_self]
      have hframe' : b ∈ frames := hframe
      simp only [hframe', true_and]
      omega
    · rw [Function.update_of_ne hne]
      simp [hne]
  · rcases eq_or_ne b a with rfl | hne
    · exact hframe
    · rw [Function.update_of_ne hne] at hb
      exact h.owned b hb

/-- Each frame loses as many holders as it is listed times. -/
theorem Accounted.freeAll (l : List Nat) (h : Accounted frames pmm held)
    (hl : ∀ a, l.count a ≤ held a) :
    Accounted frames (l.foldl pmmFreeFrame pmm) fun a => held a - l.count a := by
  induction l generalizing pmm held with
  | nil => exact h.congr fun a => by simp
  | cons b l ih =>
    have hpos : 0 < held b := by
      have := hl b
      rw [List.count_cons_self] at this
      omega
    have hrest : ∀ a, l.count a ≤ Function.update held b (held b - 1) a := by
      intro a
      have := hl a
      rcases eq_or_ne a b with rfl | hne
      · rw [List.count_cons_self] at this
        rw [Function.update_self]
        omega
      · rw [List.count_cons_of_ne hne.symm] at this
        rwa [Function.update_of_ne hne]
    refine (ih (h.freeOne hpos) hrest).congr fun a => ?_
    rcases eq_or_ne a b with rfl | hne
    · rw [Function.update_self, List.count_cons_self]
      omega
    · rw [Function.update_of_ne hne, List.count_cons_of_ne hne.symm]

end Accounts

end ZohoOs
