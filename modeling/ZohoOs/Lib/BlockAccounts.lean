import ZohoOs.Lib.BlockTiling
import Mathlib.Data.List.Chain
import Mathlib.Order.MinMax
import Mathlib.Algebra.BigOperators.Group.List.Basic

/-!
# Sizes of blocks in a tiling

How many blocks of a tiling are in use, what they and the free ones take, and the largest free one;
and what carving a block and joining free neighbours do to these.

## Main definitions

* `usedCount`, `usedBytes`, `freeBytes`, `largestFree`: the sizes of the blocks of a list
* `Separated`: no two neighbours are free

## Main results

* `span_eq`: blocks in use, free blocks and headers take the whole range
* `separated_coalesce`, `Separated.carve`: joining separates, and carving a free block keeps it so
* `coalesce_carved`: a block that was carved, and is free again, is joined to what it was
* `fits_iff_le_largestFree`: a request has a block just if the largest free one has the room
-/

namespace BlockTiling

variable {hdr slack n : Nat} {l m pre post : List Block} {b : Block}

/-- The blocks in use. -/
def usedCount (l : List Block) : Nat := l.countP fun b => !b.isFree

/-- What the blocks in use take, without their headers. -/
def usedBytes (l : List Block) : Nat := (l.map fun b => if b.isFree then 0 else b.size).sum

/-- What the free blocks take, without their headers. -/
def freeBytes (l : List Block) : Nat := (l.map fun b => if b.isFree then b.size else 0).sum

/-- The size of the largest free block. -/
def largestFree : List Block → Nat
  | [] => 0
  | b :: l => max (if b.isFree then b.size else 0) (largestFree l)

/-- No two neighbours are free. -/
def Separated (l : List Block) : Prop := l.IsChain fun b c => ¬ (b.isFree = true ∧ c.isFree = true)

theorem usedCount_cons : usedCount (b :: l) = (if b.isFree then 0 else 1) + usedCount l := by
  rw [usedCount, List.countP_cons, Nat.add_comm]
  cases b.isFree <;> rfl

theorem usedCount_append : usedCount (l ++ m) = usedCount l + usedCount m := List.countP_append

theorem usedBytes_cons : usedBytes (b :: l) = (if b.isFree then 0 else b.size) + usedBytes l := by
  rw [usedBytes, List.map_cons, List.sum_cons]
  rfl

theorem usedBytes_append : usedBytes (l ++ m) = usedBytes l + usedBytes m := by
  rw [usedBytes, List.map_append, List.sum_append]
  rfl

theorem freeBytes_cons : freeBytes (b :: l) = (if b.isFree then b.size else 0) + freeBytes l := by
  rw [freeBytes, List.map_cons, List.sum_cons]
  rfl

theorem length_taken (hdr a : Nat) (l : List Block) : (taken hdr a l).length = usedCount l := by
  induction l generalizing a with
  | nil => rfl
  | cons b l ih =>
    rw [taken_cons, List.length_append, ih, usedCount_cons]
    cases b.isFree <;> rfl

theorem usedCount_le_length : usedCount l ≤ l.length := List.countP_le_length

/-- **Blocks in use, free blocks and headers take the whole range.** -/
theorem span_eq (hdr : Nat) (l : List Block) :
    usedBytes l + freeBytes l + hdr * l.length = span hdr l := by
  induction l with
  | nil => rfl
  | cons b l ih =>
    rw [usedBytes_cons, freeBytes_cons, span, List.length_cons, Nat.mul_succ, ← ih]
    cases b.isFree <;> simp only [if_true, if_false, Bool.false_eq_true] <;> omega

/-! ## Carving -/

/-- The first block of a carving is in use, what remains behind it is free. -/
theorem carve_eq (hdr slack n : Nat) (b : Block) : ∃ size rest,
    carve hdr slack n b = ⟨size, false⟩ :: rest ∧ (∀ c ∈ rest, c.isFree = true) ∧
      (n ≤ b.size → n ≤ size) := by
  rw [carve]
  split
  · refine ⟨n, [⟨b.size - n - hdr, true⟩], rfl, fun c hc => ?_, fun _ => Nat.le_refl n⟩
    obtain rfl := List.mem_singleton.mp hc
    rfl
  · exact ⟨b.size, [], rfl, fun c hc => absurd hc List.not_mem_nil, id⟩

theorem used_of_free (h : ∀ b ∈ l, b.isFree = true) : usedCount l = 0 ∧ usedBytes l = 0 := by
  induction l with
  | nil => exact ⟨rfl, rfl⟩
  | cons b l ih =>
    obtain ⟨hb, hl⟩ := List.forall_mem_cons.mp h
    rw [usedCount_cons, usedBytes_cons, hb, (ih hl).1, (ih hl).2]
    exact ⟨rfl, rfl⟩

/-- Carving a free block brings one block into use, the first of the carving. -/
theorem used_carve (pre post : List Block) (hb : b.isFree = true) {size : Nat} {rest : List Block}
    (hcarve : carve hdr slack n b = ⟨size, false⟩ :: rest) :
    usedCount (pre ++ carve hdr slack n b ++ post) = usedCount (pre ++ b :: post) + 1 ∧
      usedBytes (pre ++ carve hdr slack n b ++ post) = usedBytes (pre ++ b :: post) + size := by
  obtain ⟨size', rest', heq, hfree, -⟩ := carve_eq hdr slack n b
  obtain ⟨hsize, rfl⟩ : size = size' ∧ rest = rest' := by simpa using hcarve.symm.trans heq
  obtain ⟨hcount, hbytes⟩ := used_of_free hfree
  rw [hcarve]
  simp only [usedCount_append, usedBytes_append, usedCount_cons, usedBytes_cons, hb, hcount, hbytes,
    if_true, Bool.false_eq_true, if_false]
  omega

/-! ## Joining -/

theorem used_coalesce (hdr : Nat) (l : List Block) :
    usedCount (coalesce hdr l) = usedCount l ∧ usedBytes (coalesce hdr l) = usedBytes l := by
  fun_induction coalesce hdr l with
  | case1 => exact ⟨rfl, rfl⟩
  | case2 => exact ⟨rfl, rfl⟩
  | case3 b c l hboth ih =>
    obtain ⟨hb, hc⟩ := Bool.and_eq_true_iff.mp hboth
    rw [ih.1, ih.2]
    simp only [usedCount_cons, usedBytes_cons, hb, hc, if_true]
    omega
  | case4 b c l _ ih =>
    rw [usedCount_cons, usedBytes_cons, ih.1, ih.2, ← usedCount_cons, ← usedBytes_cons]
    exact ⟨rfl, rfl⟩

/-- Joining keeps whether the first block is free. -/
theorem coalesce_cons (hdr : Nat) (b : Block) (l : List Block) :
    ∃ c m, coalesce hdr (b :: l) = c :: m ∧ c.isFree = b.isFree := by
  generalize hl : b :: l = bs
  fun_induction coalesce hdr bs generalizing b l with
  | case1 => cases hl
  | case2 b' =>
    obtain rfl := (List.cons.inj hl).1
    exact ⟨b, [], rfl, rfl⟩
  | case3 b' c' l' hboth ih =>
    obtain rfl := (List.cons.inj hl).1
    obtain ⟨d, m, heq, hfree⟩ := ih _ _ rfl
    exact ⟨d, m, heq, hfree.trans (Bool.and_eq_true_iff.mp hboth).1.symm⟩
  | case4 b' c' l' _ _ =>
    obtain rfl := (List.cons.inj hl).1
    exact ⟨b, _, rfl, rfl⟩

/-- **Joined free neighbours are no neighbours any more.** -/
theorem separated_coalesce (l : List Block) : Separated (coalesce hdr l) := by
  fun_induction coalesce hdr l with
  | case1 => exact List.IsChain.nil
  | case2 b => exact List.IsChain.singleton b
  | case3 b c l _ ih => exact ih
  | case4 b c l hnot ih =>
    obtain ⟨d, m, heq, hfree⟩ := coalesce_cons hdr c l
    rw [heq] at ih ⊢
    refine List.isChain_cons_cons.mpr ⟨fun h => hnot ?_, ih⟩
    exact Bool.and_eq_true_iff.mpr ⟨h.1, hfree ▸ h.2⟩

/-- **Carving a free block** leaves no two free neighbours: the one behind it is in use. -/
theorem Separated.carve (h : Separated (pre ++ b :: post)) (hb : b.isFree = true) :
    Separated (pre ++ carve hdr slack n b ++ post) := by
  obtain ⟨hpre, hpost, -⟩ := List.isChain_append.mp h
  -- whatever stands before a block in use, it is separated from it
  have hjoin : ∀ {size m}, List.IsChain (fun b c : Block => ¬ (b.isFree = true ∧ c.isFree = true))
      ((⟨size, false⟩ : Block) :: m) → Separated (pre ++ ⟨size, false⟩ :: m) := by
    intro size m hm
    refine List.isChain_append.mpr ⟨hpre, hm, fun x _ y hy hboth => ?_⟩
    obtain rfl := Option.mem_some_iff.mp hy
    exact absurd hboth.2 Bool.false_ne_true
  rw [List.append_assoc, BlockTiling.carve]
  split
  · apply hjoin
    refine List.isChain_cons_cons.mpr ⟨fun hboth => absurd hboth.1 Bool.false_ne_true, ?_⟩
    -- the remainder is free as the block was
    refine List.isChain_cons.mpr ⟨fun y hy hboth => ?_, hpost.tail⟩
    exact (List.isChain_cons.mp hpost).1 y hy ⟨hb, hboth.2⟩
  · apply hjoin
    refine List.isChain_cons.mpr ⟨fun y _ hboth => ?_, hpost.tail⟩
    exact absurd hboth.1 Bool.false_ne_true

/-- Blocks that are separated are joined already. -/
theorem Separated.coalesce (h : Separated l) : coalesce hdr l = l := by
  fun_induction BlockTiling.coalesce hdr l with
  | case1 => rfl
  | case2 => rfl
  | case3 b c l hboth _ =>
    exact absurd (Bool.and_eq_true_iff.mp hboth) (List.isChain_cons_cons.mp h).1
  | case4 b c l _ ih => rw [ih (List.isChain_cons_cons.mp h).2]

/-- Two free neighbours may be joined first, wherever they are. -/
theorem coalesce_join (hdr s t : Nat) (pre post : List Block) :
    coalesce hdr (pre ++ ⟨s, true⟩ :: ⟨t, true⟩ :: post) =
      coalesce hdr (pre ++ ⟨s + t + hdr, true⟩ :: post) := by
  match pre with
  | [] => rw [List.nil_append, BlockTiling.coalesce, if_pos (by simp), List.nil_append]
  | [p] =>
    simp only [List.cons_append, List.nil_append]
    rw [BlockTiling.coalesce, BlockTiling.coalesce.eq_3 hdr p ⟨s + t + hdr, true⟩]
    cases hp : p.isFree with
    | true =>
      -- the one on the left takes in both, one after the other
      have hsum : p.size + s + hdr + t + hdr = p.size + (s + t + hdr) + hdr := by omega
      simp only [Bool.and_self, if_true]
      rw [BlockTiling.coalesce, if_pos (by simp), hsum]
    | false =>
      simp only [Bool.false_and, Bool.false_eq_true, if_false]
      rw [BlockTiling.coalesce, if_pos (by simp)]
  | p :: q :: pre =>
    simp only [List.cons_append]
    rw [BlockTiling.coalesce, BlockTiling.coalesce.eq_3 hdr p q]
    split
    · exact coalesce_join hdr s t (⟨p.size + q.size + hdr, true⟩ :: pre) post
    · exact congrArg (p :: ·) (coalesce_join hdr s t (q :: pre) post)
termination_by pre.length

/-- **A block that was carved, and is free again**, is joined to what it was. -/
theorem coalesce_carved (h : Separated (pre ++ b :: post)) (hb : b.isFree = true) {size : Nat}
    {rest : List Block} (hcarve : carve hdr slack n b = ⟨size, false⟩ :: rest) :
    coalesce hdr (pre ++ ⟨size, true⟩ :: (rest ++ post)) = pre ++ b :: post := by
  obtain ⟨bsize, bfree⟩ := b
  obtain rfl : bfree = true := hb
  rw [carve] at hcarve
  split at hcarve
  next hroom =>
    obtain ⟨hsize, rfl⟩ := List.cons.inj hcarve
    obtain rfl := congrArg Block.size hsize
    have hwhole : n + (bsize - n - hdr) + hdr = bsize := by
      simp only at hroom
      omega
    rw [List.cons_append, List.nil_append, coalesce_join, hwhole, h.coalesce]
  next =>
    obtain ⟨hsize, rfl⟩ := List.cons.inj hcarve
    obtain rfl := congrArg Block.size hsize
    exact h.coalesce

/-- Free blocks that are separated are one. -/
theorem Separated.eq_singleton (h : Separated l) (hfree : ∀ b ∈ l, b.isFree = true)
    (hne : l ≠ []) : ∃ b, l = [b] := by
  match l, h with
  | [], _ => exact absurd rfl hne
  | [b], _ => exact ⟨b, rfl⟩
  | b :: c :: l, h =>
    refine absurd ?_ (List.isChain_cons_cons.mp h).1
    exact ⟨hfree b (by simp), hfree c (by simp)⟩

/-! ## The largest free block -/

/-- **A request has a block** just if the largest free one has the room. -/
theorem fits_iff_le_largestFree (hn : 0 < n) :
    (∃ b ∈ l, b.Fits n) ↔ n ≤ largestFree l := by
  induction l with
  | nil =>
    simp only [List.not_mem_nil, false_and, exists_false, largestFree, false_iff]
    omega
  | cons b l ih =>
    rw [List.exists_mem_cons_iff, ih, largestFree, le_max_iff, Block.Fits]
    cases b.isFree
    · simp
      omega
    · simp

end BlockTiling
