import ZohoOs.Memory.ElfLoad
import ZohoOs.Memory.HeapLayout
import ZohoOs.Syscall.UserStores

/-!
# Launching a program

`task_exec_file` of `task.c`: a file is opened, read into a block of the heap and closed again,
`elf_load` builds an address space from it, and `task_exec` makes a task of that. What `kmalloc`,
`vmm_create_address_space` and `pmm_alloc_frame` return is not looked at.

## Main definitions

* `LaunchState`: what a launch works on
* `LaunchState.readFile`: the file in memory, and where its bytes were stored
* `LaunchState.taskExec`, `LaunchState.taskExecFile`: the two calls
-/

namespace ZohoOs

open Program

variable {n : Nat}

/-! ## The heap -/

/-- `kmalloc`: the pointer, and the heap with what is live in it. -/
def Heap.malloc (h : Heap) (size : BitVec 64) : Option (Nat × Heap) :=
  (kmalloc h.k size).map fun (k, ptr) => (ptr, ⟨k, if ptr = 0 then h.live else ptr :: h.live⟩)

/-- `kfree`. -/
def Heap.free (h : Heap) (ptr : Nat) : Option Heap :=
  (kfree h.k ptr).map fun k => ⟨k, h.live.erase ptr⟩

/-- `sizeof(task_t)`. -/
abbrev taskSize : BitVec 64 := 80

/-- The `size_t` of a user stack and of a kernel stack. -/
abbrev stackSize : BitVec 64 := 4096 * 4

/-! ## The state -/

/-- What a launch works on. Other CPUs change none of it while the call runs. -/
structure LaunchState (n : Nat) extends KernelState n where
  heap : Heap
  /-- The memory a file is read into, by its address. No frame the allocator holds lies in it. -/
  memory : BitVec 64 → Byte
  /-- `tar_start_lba`. -/
  tarStartLba : BitVec 32

/-- The requests of a call, where the drive carries out the reads and writes of these sectors. -/
def driveServe : Server (BitVec 32 → Bool) VfsRequest VfsAnswer Vfs := fun ready r =>
  match r with
  | .readSector lba buffer => Vfs.serve (ready lba) (.readSector lba buffer)
  | .cachedRead lba => Vfs.serve (ready lba) (.cachedRead lba)
  | .cachedWrite lba buffer => Vfs.serve (ready lba) (.cachedWrite lba buffer)
  | r => Vfs.serve true r

/-- What lies at `elf_data`. -/
def LaunchState.imageAt (s : LaunchState n) (elfData : Nat) : Image :=
  fun off => s.memory (BitVec.ofNat 64 elfData + off)

/-- The buffer of a file: its pointer, the size of the block there, and what `vfs_read` stores. -/
structure FileBuffer where
  ptr : Nat
  room : Nat
  stores : List UserStore

/-! ## The calls -/

/-- `task_exec_file` between `vfs_open` and `task_exec`. -/
def LaunchState.readFile (s : LaunchState n) (fd : Int) : Option (FileBuffer × LaunchState n) := do
  let size := sizeSection s.vfs.fdTable fd
  let (buf, heap) ← s.heap.malloc (size.setWidth 64)
  let read := vfsReadTo s.toKernelState fd (BitVec.ofNat 64 buf) size
  let fdTable := closeSection read.state.vfs.fdTable fd
  some (⟨buf, heap.payloadSize buf, read.stores⟩,
    { s with
      vfs := { read.state.vfs with fdTable }
      heap
      memory := applyStores s.memory read.stores })

/-- `task_exec`: the task it returns, and the state. The file is read as it is at the call. -/
def LaunchState.taskExec [NeZero n] (s : LaunchState n) (elfData : Nat) :
    Option (TaskPtr × LaunchState n) :=
  match elfLoad (s.imageAt elfData) s.vmm with
  | (none, vmm) => some (0, { s with vmm })
  | (some (_, pml4), vmm) => do
    let (newTask, heap) ← s.heap.malloc taskSize
    let (ustack, heap) ← heap.malloc stackSize
    let (kstack, heap) ← heap.malloc stackSize
    let sched := ZohoOs.taskExec (some pml4) newTask ustack kstack s.sched
    some (newTask, { s with vmm, heap, sched })

/-- What a launch returns, the buffer of the file if it was opened, and the state. -/
structure LaunchResult (n : Nat) where
  task : TaskPtr
  file : Option FileBuffer
  state : LaunchState n

/-- `task_exec_file`. -/
def LaunchState.taskExecFile [NeZero n] (s : LaunchState n) (path : List Byte) :
    Option (LaunchResult n) :=
  match (vfsOpen s.tarStartLba path).run driveServe s.driveReady s.vfs with
  | (none, _) => none
  | (some fd, vfs) =>
    let s := { s with vfs }
    if fd < 0 then some ⟨0, none, s⟩
    else do
      let (buf, s) ← s.readFile fd
      let (task, s) ← s.taskExec buf.ptr
      let heap ← s.heap.free buf.ptr
      some ⟨task, some buf, { s with heap }⟩

end ZohoOs
