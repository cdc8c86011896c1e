import ZohoOs.Memory.HeapStats

/-!
# Nested allocations

A call that asks `kmalloc` for a block, makes further calls that ask for theirs, and frees it at the end.
Where a free block has the room of all of them together each is given one, and the heap has the blocks
afterwards that it had before.

## Main definitions

* `nestBlocks`: the allocations and releases, and whether each block was given
* `nestRoom`: the room that is enough

## Main results

* `nestBlocks_given`: with the room every block is given, and the heap is left as it was
* `nestBlocks_null`: without room for the first one not every block is
-/

namespace ZohoOs

open BlockTiling TransitionSystem

/-- `kmalloc` of each size inside the one before, and `kfree` in the opposite order. Of a block that is not
given `kfree` is called with `NULL`. -/
def nestBlocks (k : Kmalloc) : List Nat → Option (Kmalloc × Bool)
  | [] => some (k, true)
  | size :: sizes =>
    (kmalloc k (BitVec.ofNat 64 size)).bind fun (k, ptr) =>
      (nestBlocks k sizes).bind fun (k, given) => (kfree k ptr).map fun k => (k, ptr != 0 && given)

theorem nestBlocks_cons {k k' : Kmalloc} {ptr size : Nat} {sizes : List Nat}
    (hcall : kmalloc k (BitVec.ofNat 64 size) = some (k', ptr)) :
    nestBlocks k (size :: sizes) =
      (nestBlocks k' sizes).bind fun r => (kfree r.1 ptr).map fun k => (k, ptr != 0 && r.2) := by
  rw [nestBlocks, hcall]
  rfl

/-- Each size rounded up, with a header and what is not cut off. -/
def nestRoom (sizes : List Nat) : Nat :=
  (sizes.map fun size => (size + 7) / 8 * 8 + kmallocHeaderSize + 8).sum

theorem nestRoom_cons (size : Nat) (sizes : List Nat) :
    nestRoom (size :: sizes) = (size + 7) / 8 * 8 + kmallocHeaderSize + 8 + nestRoom sizes := by
  rw [nestRoom, List.map_cons, List.sum_cons]
  rfl

theorem nestRoom_le {sizes : List Nat} {n : Nat} (h : ∀ size ∈ sizes, size ≤ n) :
    nestRoom sizes ≤ sizes.length * ((n + 7) / 8 * 8 + kmallocHeaderSize + 8) := by
  induction sizes with
  | nil => exact Nat.zero_le _
  | cons size sizes ih =>
    obtain ⟨hsize, hsizes⟩ := List.forall_mem_cons.mp h
    have hrest := ih hsizes
    rw [nestRoom_cons, List.length_cons, Nat.add_mul, Nat.one_mul]
    omega

theorem alignSize_ofNat {size : Nat} (hlt : size < 2 ^ 63) :
    alignSize (BitVec.ofNat 64 size) = (size + 7) / 8 * 8 := by
  rw [alignSize_eq, BitVec.toNat_ofNat]
  omega

section Blocks

variable {k : Kmalloc} {l : List Block} {b : Block} {sizes : List Nat}

/-- **An allocation with room to spare** leaves the room, in a list that a release of the block takes back. -/
theorem kmalloc_spare (h : HeapCounted k l) {size room : Nat} (hlt : size < 2 ^ 63) (hb : b ∈ l)
    (hfree : b.isFree = true) (hroom : (size + 7) / 8 * 8 + kmallocHeaderSize + 8 + room ≤ b.size) :
    ∃ k' pre post block, kmalloc k (BitVec.ofNat 64 size) =
        some (k', heapStart + span kmallocHeaderSize pre + kmallocHeaderSize) ∧
      HeapCounted k' (pre ++ block :: post) ∧ block.isFree = false ∧
      coalesce kmallocHeaderSize (pre ++ ⟨block.size, true⟩ :: post) = l ∧
      ∃ c ∈ pre ++ block :: post, c.isFree = true ∧ room ≤ c.size := by
  have halign := alignSize_ofNat hlt
  rcases kmalloc_spec h.tiled (BitVec.ofNat 64 size) with
    ⟨-, hno⟩ | ⟨k', pre, c, post, rfl, hfits, heq, htiled, hstats, -⟩
  · exact absurd ⟨hfree, by omega⟩ (hno b hb)
  obtain ⟨n, rest, hcarve, -, -⟩ := carve_eq kmallocHeaderSize 8 (alignSize (BitVec.ofNat 64 size)) c
  obtain ⟨hcount, hbytes⟩ := used_carve pre post hfits.1 hcarve
  have hseparated : Separated
      (pre ++ carve kmallocHeaderSize 8 (alignSize (BitVec.ofNat 64 size)) c ++ post) :=
    h.separated.carve hfits.1
  have hlist : pre ++ carve kmallocHeaderSize 8 (alignSize (BitVec.ofNat 64 size)) c ++ post =
      pre ++ ⟨n, false⟩ :: (rest ++ post) := by
    rw [hcarve, List.append_assoc, List.cons_append]
  have hheader : (k'.headers (heapStart + span kmallocHeaderSize pre)).size = n := by
    refine (htiled.blocks.header (x := (_, ⟨n, false⟩)) ?_).1
    rw [hlist]
    exact mem_located_of_split _ _ _ _
  rw [hheader] at hstats
  have hcounted := h.countAlloc htiled hseparated hstats hcount hbytes
  rw [hlist] at hcounted
  refine ⟨k', pre, rest ++ post, ⟨n, false⟩, heq, hcounted, rfl,
    coalesce_carved h.separated hfits.1 hcarve, ?_⟩
  -- the block with the room is another one, or what remains of it has enough
  rw [List.mem_append, List.mem_cons] at hb
  rcases hb with hb | rfl | hb
  · exact ⟨b, by simp [hb], hfree, by omega⟩
  · rw [carve, if_pos (by omega)] at hcarve
    obtain ⟨-, rfl⟩ := List.cons.inj hcarve
    refine ⟨⟨b.size - alignSize (BitVec.ofNat 64 size) - kmallocHeaderSize, true⟩, by simp, rfl, ?_⟩
    simp only [halign]
    omega
  · exact ⟨b, by simp [hb], hfree, by omega⟩

/-- **With the room every block is given**, and the heap has the same blocks afterwards. -/
theorem nestBlocks_given (h : HeapCounted k l) (hlt : ∀ size ∈ sizes, size < 2 ^ 63) (hb : b ∈ l)
    (hfree : b.isFree = true) (hroom : nestRoom sizes ≤ b.size) :
    ∃ k', nestBlocks k sizes = some (k', true) ∧ HeapCounted k' l := by
  induction sizes generalizing k l b with
  | nil => exact ⟨k, rfl, h⟩
  | cons size sizes ih =>
    obtain ⟨hsize, hsizes⟩ := List.forall_mem_cons.mp hlt
    rw [nestRoom_cons] at hroom
    obtain ⟨k₁, pre, post, block, hcall, h₁, hused, hjoined, c, hc, hcfree, hcroom⟩ :=
      kmalloc_spare h hsize hb hfree hroom
    obtain ⟨k₂, hnest, h₂⟩ := ih h₁ hsizes hc hcfree hcroom
    obtain ⟨k₃, hrelease, h₃, -⟩ := kfree_counted h₂ hused
    rw [hjoined] at h₃
    refine ⟨k₃, ?_, h₃⟩
    rw [nestBlocks_cons hcall, hnest, Option.bind_some, hrelease]
    rfl

/-- Without room for the first block not every block is given. -/
theorem nestBlocks_null (h : HeapCounted k l) {size : Nat} {k' : Kmalloc} {given : Bool}
    (hfull : ∀ b ∈ l, ¬ Block.Fits (alignSize (BitVec.ofNat 64 size)) b)
    (hnest : nestBlocks k (size :: sizes) = some (k', given)) : given = false := by
  rcases kmalloc_counted h (BitVec.ofNat 64 size) with ⟨hcall, -⟩ | ⟨-, -, -, -, -, -, -, -, -, b, hb, hfits⟩
  · rw [nestBlocks_cons hcall, Option.bind_eq_some_iff] at hnest
    obtain ⟨⟨k₁, given₁⟩, -, hrest⟩ := hnest
    exact (Prod.mk.inj (Option.some.inj hrest)).2.symm
  · exact absurd hfits (hfull b hb)

end Blocks

end ZohoOs
