import ZohoOs.Memory.Pmm

/-!
# The kernel heap

The heap of `kmalloc.c`: a singly linked list of blocks over the fixed physical range
`[heapStart, heapStart + heapSize)`, each block a header followed by its payload.

## Main definitions

* `Kmalloc`: the headers, the list head and the statistics
* `kmallocInit`: one block over the whole range, with frames taken from the frame allocator
* `kmalloc`: the first free block that is large enough, split where enough of it remains
* `kfree`: the block marked free, and free neighbours merged
* `kmallocGetStats`: the statistics, with what is free summed over the list

The loops follow `next` with fuel, and give `none` where it runs out.
-/

namespace ZohoOs

/-- `HEAP_START`: 16 MiB. -/
abbrev heapStart : Nat := 0x1000000

/-- `HEAP_SIZE`: 16 MiB. -/
abbrev heapSize : Nat := 0x1000000

/-- `struct kmalloc_header`. -/
structure KmallocHeader where
  size : Nat
  isFree : Bool
  next : Nat

/-- `sizeof(struct kmalloc_header)`. -/
abbrev kmallocHeaderSize : Nat := 24

/-- `kmalloc_stats_t`. -/
structure KmallocStats where
  allocCount : Nat
  freeCount : Nat
  liveAllocations : Nat
  bytesUsed : Nat
  peakBytesUsed : Nat
  bytesFree : Nat
  largestFreeBlock : Nat
  failedAllocations : Nat

structure Kmalloc where
  /-- The header at each address that holds one. -/
  headers : Nat → KmallocHeader
  freeListHead : Nat
  stats : KmallocStats

/-- The loop of `kmalloc_init` over the pages of the heap. The frame it gets is discarded. -/
def reserveHeapFrames (pmm : Pmm) : Nat → Pmm
  | 0 => pmm
  | n + 1 => reserveHeapFrames (pmmAllocFrame pmm).2 n

/-- `kmalloc_init`. -/
def kmallocInit (headers : Nat → KmallocHeader) (pmm : Pmm) : Kmalloc × Pmm :=
  let pmm := reserveHeapFrames pmm (heapSize / pageSize)
  let header : KmallocHeader := ⟨heapSize - kmallocHeaderSize, true, 0⟩
  ({ headers := Function.update headers heapStart header
     freeListHead := heapStart
     stats := ⟨0, 0, 0, 0, 0, header.size, header.size, 0⟩ }, pmm)

/-- `addr` lies in the heap's physical range. -/
def InHeap (addr : Nat) : Prop := heapStart ≤ addr ∧ addr < heapStart + heapSize

instance (addr : Nat) : Decidable (InHeap addr) := inferInstanceAs (Decidable (_ ∧ _))

/-! ## Allocation -/

/-- A `size_t`, which wraps. -/
def sizeT (n : Nat) : Nat := n % 2 ^ 64

/-- `(size + 7) & ~7`. -/
def alignSize (size : BitVec 64) : Nat := ((size + 7#64) &&& ~~~7#64).toNat

/-- More headers than the heap has room for. -/
def blockFuel : Nat := heapSize / kmallocHeaderSize + 1

/-- The loop of `kmalloc`: the first block from `curr` on that is free and large enough, or
`NULL`. -/
def findFit (headers : Nat → KmallocHeader) (size : Nat) : Nat → Nat → Option Nat
  | 0, _ => none
  | fuel + 1, curr =>
    if curr = 0 then some 0
    else if (headers curr).isFree && size ≤ (headers curr).size then some curr
    else findFit headers size fuel (headers curr).next

/-- What `kmalloc` does to the headers where it takes the block at `curr`. -/
def takeBlock (headers : Nat → KmallocHeader) (size curr : Nat) : Nat → KmallocHeader :=
  let header := headers curr
  if sizeT (size + kmallocHeaderSize + 8) ≤ header.size then
    let newBlock := curr + kmallocHeaderSize + size
    let remaining := sizeT (header.size + 2 ^ 64 - size - kmallocHeaderSize)
    Function.update (Function.update headers newBlock ⟨remaining, true, header.next⟩)
      curr ⟨size, false, newBlock⟩
  else
    Function.update headers curr { header with isFree := false }

/-- The statistics after an allocation of a block. -/
def KmallocStats.countAlloc (stats : KmallocStats) (size : Nat) : KmallocStats :=
  let bytesUsed := sizeT (stats.bytesUsed + size)
  { stats with
    allocCount := sizeT (stats.allocCount + 1)
    liveAllocations := sizeT (stats.liveAllocations + 1)
    bytesUsed := bytesUsed
    peakBytesUsed := if bytesUsed > stats.peakBytesUsed then bytesUsed else stats.peakBytesUsed }

/-- `kmalloc`: the heap after it, and the pointer it returns. -/
def kmalloc (k : Kmalloc) (size : BitVec 64) : Option (Kmalloc × Nat) :=
  let size := alignSize size
  match findFit k.headers size blockFuel k.freeListHead with
  | none => none
  | some 0 =>
    some ({ k with stats.failedAllocations := sizeT (k.stats.failedAllocations + 1) }, 0)
  | some curr =>
    let headers := takeBlock k.headers size curr
    some ({ k with headers := headers, stats := k.stats.countAlloc (headers curr).size },
      curr + kmallocHeaderSize)

/-! ## Release -/

/-- The loop of `kfree`: from `curr` on, a free block takes in the next while that is free. -/
def mergeFree : Nat → Nat → (Nat → KmallocHeader) → Option (Nat → KmallocHeader)
  | 0, _, _ => none
  | fuel + 1, curr, headers =>
    if curr = 0 || (headers curr).next = 0 then some headers
    else
      let header := headers curr
      let next := headers header.next
      if header.isFree && next.isFree then
        mergeFree fuel curr (Function.update headers curr
          { header with size := sizeT (header.size + next.size + kmallocHeaderSize)
                        next := next.next })
      else mergeFree fuel header.next headers

/-- The statistics after a release. The live allocations and the bytes in use stop at zero. -/
def KmallocStats.countFree (stats : KmallocStats) (size : Nat) : KmallocStats :=
  { stats with
    freeCount := sizeT (stats.freeCount + 1)
    liveAllocations :=
      if stats.liveAllocations > 0 then stats.liveAllocations - 1 else stats.liveAllocations
    bytesUsed := if size ≤ stats.bytesUsed then stats.bytesUsed - size else 0 }

/-- `kfree`. -/
def kfree (k : Kmalloc) (ptr : Nat) : Option Kmalloc :=
  if ptr = 0 then some k
  else
    let addr := ptr - kmallocHeaderSize
    let header := k.headers addr
    if header.isFree then some k
    else
      let headers := Function.update k.headers addr { header with isFree := true }
      (mergeFree blockFuel k.freeListHead headers).map fun headers =>
        { k with headers := headers, stats := k.stats.countFree header.size }

/-! ## Statistics -/

/-- The loop of `kmalloc_get_stats`: the bytes that are free from `curr` on, and the largest free
block, each added to what was found before. -/
def scanFree (headers : Nat → KmallocHeader) : Nat → Nat → Nat → Nat → Option (Nat × Nat)
  | 0, _, _, _ => none
  | fuel + 1, curr, bytesFree, largestFree =>
    if curr = 0 then some (bytesFree, largestFree)
    else
      let header := headers curr
      if header.isFree then
        scanFree headers fuel header.next (sizeT (bytesFree + header.size))
          (if header.size > largestFree then header.size else largestFree)
      else scanFree headers fuel header.next bytesFree largestFree

/-- `kmalloc_get_stats`: the heap after it, whose statistics are those it stores for its caller. -/
def kmallocGetStats (k : Kmalloc) : Option Kmalloc :=
  (scanFree k.headers blockFuel k.freeListHead 0 0).map fun (bytesFree, largestFree) =>
    { k with stats := { k.stats with bytesFree := bytesFree, largestFreeBlock := largestFree } }

end ZohoOs
