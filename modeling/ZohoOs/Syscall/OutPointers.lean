import ZohoOs.Fs.Vfs
import ZohoOs.Memory.PageFault
import ZohoOs.Task.Scheduler
import ZohoOs.Window.Windows

/-!
# System calls that store for their caller

`syscall_handler_c` of `syscall.c`, and the calls it gives an address to store at: `sys_get_event`,
`sys_read`, `sys_get_sys_info` and `sys_get_tasks`. Each comes with the bytes it stores there, in order.
The stores are then made by the kernel through the caller's address space. A call reads all of its state
first: where it stores over what it reads later, the bytes are still those of before.

## Main definitions

* `KernelState`: what these calls read
* `windowPopEvent`, `vfsReadTo`, `sysGetSysInfo`, `taskGetAllInfo`: the calls
* `syscallHandlerC`: the call a number stands for
* `kernelStore`, `performStores`: the stores, up to the first that stops the machine
-/

namespace ZohoOs

/-! ## Stores -/

/-- A byte stored at an address the caller gave. -/
structure UserStore where
  addr : BitVec 64
  byte : Byte

/-- `n` bytes, as `memcpy` stores them. -/
def storeBytes (addr : BitVec 64) (n : Nat) (src : Nat → Byte) : List UserStore :=
  (List.range n).map fun i => ⟨addr + BitVec.ofNat 64 i, src i⟩

/-- A `uint32_t` or an `int`, low byte first. -/
def store32 (addr : BitVec 64) (value : BitVec 32) : List UserStore :=
  storeBytes addr 4 fun i => (value >>> (8 * i)).setWidth 8

/-- A `uint64_t`. -/
def store64 (addr : BitVec 64) (value : BitVec 64) : List UserStore :=
  storeBytes addr 8 fun i => (value >>> (8 * i)).setWidth 8

/-! ## The state -/

/-- What the calls read. Other CPUs change none of it while a call runs. -/
structure KernelState (n : Nat) where
  vmm : Vmm
  sched : Sched n
  vfs : Vfs
  /-- The windows, from `window_list` on. -/
  windows : List Window
  /-- The CPU the call is made on. -/
  cpu : Fin n
  /-- Whether the drive carries out a read of each sector. -/
  driveReady : BitVec 32 → Bool
  /-- What the stack holds where `vfs_read` has its `sector_buf`. -/
  stack : Sector

/-- The root of the caller's address space. -/
def KernelState.pml4 {n : Nat} (s : KernelState n) : Nat :=
  (s.sched.tasks (s.sched.current s.cpu)).pml4

/-- What a call returns, what it stores for its caller, and the state behind it. -/
structure SyscallResult (n : Nat) where
  ret : BitVec 64
  stores : List UserStore
  state : KernelState n

variable {n : Nat}

/-! ## `sys_get_event` -/

/-- `memcpy(out_event, &event, sizeof(gui_event_t))`. -/
def storeEvent (outEvent : BitVec 64) (event : GuiEvent) : List UserStore :=
  store32 outEvent event.type ++ store32 (outEvent + 4) event.x ++
    store32 (outEvent + 8) event.y ++ store32 (outEvent + 12) event.data

/-- The loop of `window_pop_event` along the windows. -/
def popEventFrom (id : BitVec 32) (outEvent : BitVec 64) :
    List Window → Int × List UserStore × List Window
  | [] => (-1, [], [])
  | curr :: rest =>
    if curr.id = id then
      if curr.destroyed then (-1, [], curr :: rest)
      else if curr.eventHead = curr.eventTail then (0, [], curr :: rest)
      else
        -- the head is below 16
        let event := curr.eventQueue (Fin.ofNat 16 curr.eventHead.toNat)
        (1, storeEvent outEvent event, { curr with eventHead := (curr.eventHead + 1) % 16 } :: rest)
    else
      let (result, stores, rest) := popEventFrom id outEvent rest
      (result, stores, curr :: rest)

/-- `window_pop_event`. -/
def windowPopEvent (s : KernelState n) (id : BitVec 32) (outEvent : BitVec 64) : SyscallResult n :=
  if outEvent = 0 then ⟨BitVec.ofInt 64 (-1), [], s⟩
  else
    let (result, stores, windows) := popEventFrom id outEvent s.windows
    ⟨BitVec.ofInt 64 result, stores, { s with windows }⟩

/-! ## `sys_read` -/

/-- The loop of `vfs_read`, with its buffer at an address. A sector that is wanted whole is read into
the buffer itself, where a read that fails stores nothing. -/
def readStores (ready : BitVec 32 → Bool) (disk : Disk) (buffer : BitVec 64)
    (startLba count : BitVec 32) :
    Nat → BitVec 32 → BitVec 32 → Sector → BitVec 32 × List UserStore
  | 0, bytesRead, _, _ => (bytesRead, [])
  | fuel + 1, bytesRead, offset, sectorBuf =>
    if bytesRead < count then
      let lba := startLba + offset / 512
      let toCopy := chunkSize offset count bytesRead
      let dst := buffer + bytesRead.setWidth 64
      if offset % 512 = 0 ∧ toCopy = 512 then
        let (result, stores) := readStores ready disk buffer startLba count fuel
          (bytesRead + toCopy) (offset + toCopy) sectorBuf
        (result, (if ready lba then storeBytes dst 512 (disk.sector lba).byte else []) ++ stores)
      else
        let sectorBuf := ataReadSector (ready lba) disk lba sectorBuf
        let (result, stores) := readStores ready disk buffer startLba count fuel
          (bytesRead + toCopy) (offset + toCopy) sectorBuf
        (result, storeBytes dst toCopy.toNat (fun i => sectorBuf.byte ((offset % 512).toNat + i)) ++
          stores)
    else (bytesRead, [])

/-- `vfs_read`, with its buffer at an address. -/
def vfsReadTo (s : KernelState n) (fd : Int) (buffer : BitVec 64) (count : BitVec 32) :
    SyscallResult n :=
  let (reserved, fdTable) := readSection s.vfs.fdTable fd count
  let s := { s with vfs := { s.vfs with fdTable } }
  match reserved with
  | .error result => ⟨BitVec.ofInt 64 result, [], s⟩
  | .ok range =>
    let (bytesRead, stores) := readStores s.driveReady s.vfs.disk buffer range.startLba range.count
      range.count.toNat 0 range.offset s.stack
    ⟨BitVec.ofInt 64 bytesRead.toInt, stores, s⟩

/-! ## `sys_get_sys_info` -/

/-- The ticks of a CPU, in `info->cpus[i]`. -/
def storeCpuTicks (info : BitVec 64) (i : Nat) (cpu : Cpu) : List UserStore :=
  let entry := info + BitVec.ofNat 64 (24 + 16 * i)
  store64 entry cpu.totalTicks ++ store64 (entry + 8) cpu.idleTicks

/-- The loop that adds up `info->task_count`, from a value on. -/
def storeTaskCounts (info : BitVec 64) : List Cpu → BitVec 32 → List UserStore
  | [], _ => []
  | cpu :: rest, sum =>
    let sum := sum + (cpu.runqueue.count + 1)
    store32 (info + 280) sum ++ storeTaskCounts info rest sum

/-- `sys_get_sys_info`. There are at most 64 CPUs. -/
def sysGetSysInfo (s : KernelState n) (info : BitVec 64) : SyscallResult n :=
  let cpus := (List.finRange n).map s.sched.cpus
  let stores :=
    store64 info (BitVec.ofNat 64 (pmmGetTotalFrames s.vmm.pmm)) ++
    store64 (info + 8) (BitVec.ofNat 64 (pmmGetFreeCount s.vmm.pmm)) ++
    store32 (info + 16) (BitVec.ofNat 32 n) ++
    ((List.finRange n).take 16).flatMap (fun c => storeCpuTicks info c.val (s.sched.cpus c)) ++
    store32 (info + 280) 0 ++
    storeTaskCounts info cpus 0
  ⟨0, stores, s⟩

/-! ## `sys_get_tasks` -/

/-- A `task_state_t` as a number. -/
def TaskState.code : TaskState → BitVec 32
  | .ready => 0
  | .running => 1
  | .exited => 2

/-- The fields of `tasks[count]`. The bytes between and behind them are not stored. -/
def storeTaskInfo (tasks : BitVec 64) (count : BitVec 32) (task : Task) (cpuId : BitVec 8) :
    List UserStore :=
  let entry := tasks + 32 * count.setWidth 64
  store64 entry task.id ++ store32 (entry + 8) (cpuId.setWidth 32) ++
    store64 (entry + 16) task.totalTicks ++ store32 (entry + 24) task.state.code

/-- The loop along a runqueue. It goes round at most as often as there is room for tasks. -/
def storeQueue (s : Sched n) (tasks : BitVec 64) (maxTasks : BitVec 32) (cpuId : BitVec 8) :
    Nat → TaskPtr → BitVec 32 → BitVec 32 × List UserStore
  | 0, _, count => (count, [])
  | room + 1, curr, count =>
    if curr ≠ 0 ∧ count < maxTasks then
      let (result, stores) := storeQueue s tasks maxTasks cpuId room (s.tasks curr).next (count + 1)
      (result, storeTaskInfo tasks count (s.tasks curr) cpuId ++ stores)
    else (count, [])

/-- The body of the loop over the CPUs: the current task, and the runqueue. -/
def storeCpuTasks (s : Sched n) (tasks : BitVec 64) (maxTasks : BitVec 32)
    (acc : BitVec 32 × List UserStore) (c : Fin n) : BitVec 32 × List UserStore :=
  let (count, stores) := acc
  let cpu := s.cpus c
  let (count, stores) :=
    if cpu.currentTask ≠ 0 ∧ count < maxTasks then
      (count + 1, stores ++ storeTaskInfo tasks count (s.tasks cpu.currentTask) cpu.id)
    else (count, stores)
  let (count, queued) :=
    storeQueue s tasks maxTasks cpu.id (maxTasks - count).toNat cpu.runqueue.head count
  (count, stores ++ queued)

/-- `task_get_all_info`. -/
def taskGetAllInfo (s : KernelState n) (tasks : BitVec 64) (maxTasks : BitVec 32) :
    SyscallResult n :=
  let (count, stores) := (List.finRange n).foldl (storeCpuTasks s.sched tasks maxTasks) (0, [])
  ⟨count.signExtend 64, stores, s⟩

/-! ## The handler -/

/-- The system calls, with their arguments. Pointers are addresses. -/
inductive Syscall
  | createWindow (x y w h : BitVec 32)
  | getEvent (winId : BitVec 32) (outEvent : BitVec 64)
  | exit (status : Int)
  | openPath (path : BitVec 64)
  | read (fd : Int) (buffer : BitVec 64) (count : BitVec 32)
  | write (fd : Int) (buffer : BitVec 64) (count : BitVec 32)
  | close (fd : Int)
  | exec (path : BitVec 64)
  | yield
  | freeFrames
  | getSysInfo (info : BitVec 64)
  | getTasks (tasks : BitVec 64) (maxTasks : BitVec 32)
  | fork

/-- A cast to `uint32_t`. -/
abbrev uint32 (arg : BitVec 64) : BitVec 32 := arg.setWidth 32

/-- A cast to `int`. -/
abbrev toInt32 (arg : BitVec 64) : Int := (arg.setWidth 32).toInt

/-- The `switch` of `syscall_handler_c`: the call, or `none` where it returns -1. -/
def syscallHandlerC (num arg1 arg2 arg3 arg4 : BitVec 64) : Option Syscall :=
  match num.toNat with
  | 1 => some (.createWindow (uint32 arg1) (uint32 arg2) (uint32 arg3) (uint32 arg4))
  | 2 => some (.getEvent (uint32 arg1) arg2)
  | 3 => some (.exit (toInt32 arg1))
  | 4 => some (.openPath arg1)
  | 5 => some (.read (toInt32 arg1) arg2 (uint32 arg3))
  | 6 => some (.write (toInt32 arg1) arg2 (uint32 arg3))
  | 7 => some (.close (toInt32 arg1))
  | 8 => some (.exec arg1)
  | 9 => some .yield
  | 10 => some .freeFrames
  | 11 => some (.getSysInfo arg1)
  | 12 => some (.getTasks arg1 (uint32 arg2))
  | 13 => some .fork
  | _ => none

/-- What a call that is given an address to store at does. The others are given none. -/
def Syscall.result (s : KernelState n) : Syscall → Option (SyscallResult n)
  | .getEvent winId outEvent => some (windowPopEvent s winId outEvent)
  | .read fd buffer count => some (vfsReadTo s fd buffer count)
  | .getSysInfo info => some (sysGetSysInfo s info)
  | .getTasks tasks maxTasks => some (taskGetAllInfo s tasks maxTasks)
  | _ => none

/-- What a call stores for its caller. -/
def Syscall.stores (s : KernelState n) (call : Syscall) : List UserStore :=
  match call.result s with
  | some result => result.stores
  | none => []

/-! ## The stores of the kernel -/

/-- An address the CPU takes. -/
def Canonical (addr : BitVec 64) : Prop := addr.toNat < 2 ^ 47 ∨ 2 ^ 64 - 2 ^ 47 ≤ addr.toNat

instance Canonical.decidable (addr : BitVec 64) : Decidable (Canonical addr) :=
  inferInstanceAs (Decidable (_ ∨ _))

/-- A store by the kernel, or `none` where it stops the machine. `CR0.WP` is clear, and a page that is
not writable is written like any other. A page that is not present faults first, and the handler may
map it. -/
def kernelStore (pml4 : Nat) (s : Vmm) (st : UserStore) : Option Vmm :=
  if Canonical st.addr then
    if hasFlag (vmmGetFlags s pml4 st.addr) pagePresent then
      some (storeByte s pml4 st.addr st.byte)
    else
      match handlePageFault s (some pml4) st.addr 0x2#64 0x8#64 with
      | (.resume, s) =>
        if hasFlag (vmmGetFlags s pml4 st.addr) pagePresent then
          some (storeByte s pml4 st.addr st.byte)
        else none
      | _ => none
  else none

/-- Stores that were made, and whether all were. -/
structure Performed where
  written : List UserStore
  finished : Bool
  vmm : Vmm

/-- Stores one after the other, up to the first that stops the machine. -/
def performStores (pml4 : Nat) : Vmm → List UserStore → Performed
  | s, [] => ⟨[], true, s⟩
  | s, st :: rest =>
    match kernelStore pml4 s st with
    | none => ⟨[], false, s⟩
    | some s =>
      let after := performStores pml4 s rest
      { after with written := st :: after.written }

/-- A system call as far as it stores for its caller. -/
def Syscall.perform (s : KernelState n) (call : Syscall) : Performed :=
  performStores s.pml4 s.vmm (call.stores s)

end ZohoOs
