import ZohoOs.Task.Scheduler
import ZohoOs.Lib.Interruptible

/-!
# Kernel calls between their locks

The kernel calls as one CPU runs them, instruction by instruction where they take locks, turn
interrupts off, or use what the scheduler reads. A value that comes from the heap, the page tables,
the windows, the disk or a caller is an input, and so is how often a loop over these runs.

## Main definitions

* `Lock`: the spinlocks
* `kmalloc`, `pmmAllocFrame`, `vmmMap`, …: the calls of the allocators, under their locks
* `pickLeastLoadedCpu`: the section of `cpu_lock_all`
* `taskCreate`, `taskCreateUser`, `taskExec`, `taskFork`: new tasks
* `taskSchedule`, `timerInterrupt`: the timer interrupt
* `KernelCall`, `kernel`: what the CPU can run
-/

namespace ZohoOs.KernelCode

open Interruptible Interruptible.Code

/-- The spinlocks. Each CPU's runqueue has its own. -/
inductive Lock (n : Nat)
  | cpu
  | runqueue (c : Fin n)
  | id
  | kmalloc
  | pmm
  | vmm
  | window
  | klog
  | serial
  | vfs
  deriving DecidableEq

variable {n : Nat}

/-- Code of this kernel. -/
abbrev KCode (n : Nat) := Code (Sched n) (Lock n) TaskPtr

/-- A critical section in which nothing is done that the scheduler or another lock sees. -/
def critical (l : Lock n) : KCode n Unit := withLock l (pure ())

/-- A critical section that yields a value. -/
def criticalAny (l : Lock n) : KCode n Nat := withLock l any

/-! ## Logging -/

/-- `serial_print`, `serial_print_hex`, `serial_print_dec`. -/
def serialPrint : KCode n Unit := critical .serial

/-- `klog`: the level, the module and the message go to the serial line in six parts. -/
def klog : KCode n Unit := do
  let logged ← any
  if logged = 0 then return
  withLock .klog do
    serialPrint
    serialPrint
    serialPrint
    serialPrint
    serialPrint
    serialPrint

/-- `klog_set_level`. -/
def klogSetLevel : KCode n Unit := critical .klog

/-! ## The heap and the frames -/

/-- `kmalloc`: the block, or `NULL`. -/
def kmalloc : KCode n Nat := do
  let addr ← criticalAny .kmalloc
  if addr = 0 then klog
  return addr

/-- `kfree`. -/
def kfree (ptr : Nat) : KCode n Unit := if ptr = 0 then pure () else critical .kmalloc

/-- `kmalloc_get_stats`. -/
def kmallocGetStats : KCode n Unit := critical .kmalloc

/-- `pmm_alloc_frame`: the frame, or `NULL`. -/
def pmmAllocFrame : KCode n Nat := criticalAny .pmm

/-- `pmm_free_frame`. -/
def pmmFreeFrame : KCode n Unit := critical .pmm

/-- `pmm_ref_inc`. -/
def pmmRefInc : KCode n Unit := critical .pmm

/-- `pmm_get_ref`. -/
def pmmGetRef : KCode n Nat := criticalAny .pmm

/-- `pmm_get_free_count`. -/
def pmmGetFreeCount : KCode n Nat := criticalAny .pmm

/-! ## Address spaces -/

/-- `vmm_create_address_space`. -/
def vmmCreateAddressSpace : KCode n Nat := do
  let newPml4 ← pmmAllocFrame
  if newPml4 = 0 then return 0
  critical .vmm
  return newPml4

/-- `ensure_next_table`. The slot is looked at before the lock is taken, and again under it. -/
def ensureNextTable : KCode n Nat := do
  let next ← any
  if next ≠ 0 then return next
  let newTable ← pmmAllocFrame
  if newTable = 0 then return 0
  let next ← criticalAny .vmm
  if next ≠ 0 then
    -- another CPU has linked a table in the meantime
    pmmFreeFrame
    return next
  return newTable

/-- `vmm_map`, with or without `PAGE_HUGE`. -/
def vmmMap (huge : Bool) : KCode n Unit := do
  let pdpt ← ensureNextTable
  if pdpt = 0 then return
  let pd ← ensureNextTable
  if pd = 0 then return
  -- a 2 MiB page is put into the directory
  if huge then critical .vmm
  else
    let pt ← ensureNextTable
    if pt = 0 then return
    critical .vmm

/-- `vmm_unmap`. -/
def vmmUnmap : KCode n Unit := critical .vmm

/-- `vmm_clone_address_space`. -/
def vmmCloneAddressSpace : KCode n Nat := do
  let dstPml4 ← vmmCreateAddressSpace
  loop do
    let _ ← ensureNextTable
    loop do
      let _ ← ensureNextTable
      loop do
        let huge ← any
        if huge ≠ 0 then pmmRefInc
        else
          let _ ← ensureNextTable
          loop pmmRefInc
  return dstPml4

/-- `vmm_destroy_address_space`. -/
def vmmDestroyAddressSpace : KCode n Unit := do
  loop do
    loop do
      loop do
        loop pmmFreeFrame
        pmmFreeFrame
      pmmFreeFrame
    pmmFreeFrame
  pmmFreeFrame

/-- `elf_load`: the address space, or 0 where it returns false. -/
def elfLoad : KCode n Nat := do
  let magic ← any
  if magic = 0 then
    klog
    return 0
  let pml4 ← vmmCreateAddressSpace
  loop do
    loop do
      let _ ← pmmAllocFrame
      vmmMap false
  return pml4 + 1

/-! ## Files

A sector that cannot be read or written is logged. -/

/-- `vfs_open`: the descriptor and one, or 0 where there is none. -/
def vfsOpen : KCode n Nat := do
  loop klog
  let found ← any
  if found = 0 then return 0
  criticalAny .vfs

/-- `vfs_read`, `vfs_write`. -/
def vfsTransfer : KCode n Unit := do
  let count ← criticalAny .vfs
  if count = 0 then return
  loop klog

/-- `vfs_size`. -/
def vfsSize : KCode n Nat := criticalAny .vfs

/-- `vfs_close`. -/
def vfsClose : KCode n Unit := critical .vfs

/-! ## Windows -/

/-- `free_window`. -/
def freeWindow : KCode n Unit := do
  let buffer ← any
  kfree buffer
  let win ← any
  kfree win

/-- `window_create`: the window is allocated under the lock. -/
def windowCreate : KCode n Unit :=
  withLock .window do
    -- the heap's lock is taken inside
    let _ ← kmalloc
    pure ()

/-- `window_mark_dirty`, `window_mark_region_dirty`, `window_get_by_id`, `window_set_owner`,
`window_set_buffer`, `window_pop_event`. -/
def windowAccess : KCode n Unit := critical .window

/-- `window_destroy_by_pid`. -/
def windowDestroyByPid : KCode n Unit := withLock .window (loop freeWindow)

/-- `window_update`, `window_draw_all`: the windows are retained in one section, and released in
another. -/
def windowRefresh : KCode n Unit := do
  let idle ← any
  if idle ≠ 0 then return
  let unchanged ← criticalAny .window
  if unchanged ≠ 0 then return
  withLock .window (loop freeWindow)

/-! ## The CPUs -/

/-- `cpu_get_count`. -/
def cpuGetCount : KCode n Nat := withLock .cpu (pure n)

/-- `cpu_get_by_index`. -/
def cpuGetByIndex : KCode n Unit := critical .cpu

/-- The loop of `pick_least_loaded_cpu` over the CPUs that are left. -/
def leastLoaded : List (Fin n) → Fin n → BitVec 32 → KCode n (Fin n)
  | [], least, _ => pure least
  | c :: rest, least, minLoad => do
    let s ← get
    let load := cpuLoad s c
    if load.slt minLoad then leastLoaded rest c load else leastLoaded rest least minLoad

/-- `pick_least_loaded_cpu`. `cpu_lock_all` leaves the interrupts as they are. -/
def pickLeastLoadedCpu [NeZero n] : KCode n (Fin n) :=
  holding .cpu do
    let s ← get
    leastLoaded ((List.finRange n).drop 1) 0 (cpuLoad s 0)

/-! ## Runqueues -/

/-- `enqueue_task`. -/
def enqueueTask (c : Fin n) (task : TaskPtr) : KCode n Unit :=
  withLock (.runqueue c) (modify (ZohoOs.enqueueTask c task))

/-- `dequeue_task`. -/
def dequeueTask (c : Fin n) : KCode n TaskPtr :=
  withLock (.runqueue c) (modifyGet (ZohoOs.dequeueTask c))

/-! ## New tasks -/

/-- The allocation of a `task_t` and its id. -/
def newTask : KCode n TaskPtr := do
  let task ← kmalloc
  withLock .id (modify (allocTask task))
  return task

/-- The fields `task_create`, `task_create_user` and `task_exec` set, and the frame on the kernel
stack, with interrupts on in its `RFLAGS`. -/
def setTask (task : TaskPtr) (pml4 stack ustack : Nat) : KCode n Unit := do
  modify fun s => s.updateTask task fun t =>
    let top := BitVec.ofNat 64 (stack + taskStackSize)
    { t with
      pml4 := pml4, stackBottom := stack, userStackBottom := ustack
      kernelRsp := top, rsp := top - 176
      state := .ready, timeslice := taskDefaultTimeslice, totalTicks := 0 }
  start task

/-- The end of each creation. -/
def assignTask [NeZero n] (task : TaskPtr) : KCode n Unit := do
  let target ← pickLeastLoadedCpu
  modify fun s => s.updateTask task fun t => { t with cpuId := (s.cpus target).id.toNat }
  enqueueTask target task

/-- `task_create`. -/
def taskCreate [NeZero n] (cpu : Fin n) : KCode n Unit := do
  let task ← newTask
  let s ← get
  let stack ← kmalloc
  setTask task (s.cpus cpu).cr3 stack 0
  assignTask task

/-- `task_create_user`. -/
def taskCreateUser [NeZero n] : KCode n Unit := do
  let task ← newTask
  let pml4 ← vmmCreateAddressSpace
  let ustack ← kmalloc
  let kstack ← kmalloc
  setTask task pml4 kstack ustack
  assignTask task

/-- `task_exec`. -/
def taskExec [NeZero n] : KCode n Unit := do
  let image ← elfLoad
  if image = 0 then return
  let task ← newTask
  let ustack ← kmalloc
  let kstack ← kmalloc
  setTask task (image - 1) kstack ustack
  assignTask task

/-- `task_exec_file`. -/
def taskExecFile [NeZero n] : KCode n Unit := do
  let fd ← vfsOpen
  if fd = 0 then return
  let _ ← vfsSize
  let buf ← kmalloc
  vfsTransfer
  vfsClose
  taskExec
  kfree buf

/-- `task_fork`. The child starts from a frame that returns to user code. -/
def taskFork (cpu : Fin n) : KCode n Unit := do
  let s ← get
  let parent := s.current cpu
  let child ← newTask
  let pml4 ← vmmCloneAddressSpace
  let kstack ← kmalloc
  let s ← get
  -- a kernel task has no user stack
  let ustack ← if (s.tasks parent).userStackBottom ≠ 0 then kmalloc else pure 0
  modify fun s => s.updateTask child fun t =>
    let top := BitVec.ofNat 64 (kstack + taskStackSize)
    { t with
      pml4 := pml4, stackBottom := kstack, userStackBottom := ustack
      kernelRsp := top, rsp := top - ((s.tasks parent).kernelRsp - (s.tasks parent).rsp)
      state := .ready, cpuId := (s.tasks parent).cpuId
      timeslice := taskDefaultTimeslice, totalTicks := 0 }
  start child
  enqueueTask cpu child

/-! ## The scheduler -/

/-- `task_reap`. -/
def taskReap (task : TaskPtr) : KCode n Unit := do
  let s ← get
  -- the windows go after the address space that maps their buffers
  if (s.tasks task).pml4 ≠ 0 then vmmDestroyAddressSpace
  windowDestroyByPid
  kfree (s.tasks task).stackBottom
  kfree (s.tasks task).userStackBottom
  kfree task
  modify (ZohoOs.taskReap task)

/-- The loop of `task_steal` over the CPUs that are left. -/
def stealFrom (self : Fin n) : List (Fin n) → KCode n TaskPtr
  | [] => pure 0
  | victim :: rest => do
    cpuGetByIndex
    if victim = self then stealFrom self rest
    else
      let task ← dequeueTask victim
      if task ≠ 0 then
        modify fun s => s.updateTask task fun t => { t with cpuId := (s.cpus self).id.toNat }
        return task
      stealFrom self rest

/-- `task_steal`. -/
def taskSteal (self : Fin n) : KCode n TaskPtr := do
  let _ ← cpuGetCount
  stealFrom self (List.finRange n)

/-- The selection loop of `task_schedule`, for a number of rounds. -/
def selectNext (cpu : Fin n) : Nat → KCode n TaskPtr
  | 0 => hang
  | rounds + 1 => do
    let own ← dequeueTask cpu
    -- an empty runqueue: another CPU's
    let next ← if own = 0 then taskSteal cpu else pure own
    if next = 0 then return 0
    let s ← get
    match (s.tasks next).state with
    | .exited => do
      taskReap next
      selectNext cpu rounds
    | .ready => return next
    -- it is running elsewhere, and goes behind the others
    | .running => do
      enqueueTask cpu next
      selectNext cpu rounds

/-- `task_schedule`, from the scheduler it finds, and the return through the frame of the task it
chose. The selection loop runs for as many rounds as an input says. -/
def taskSchedule (cpu : Fin n) (s : Sched n) : KCode n Unit := do
  let current := s.current cpu
  if current = 0 then return
  modify fun s => s.updateCpu cpu fun c => { c with needResched := false }
  if (s.tasks current).state = .running then
    modify fun s => s.updateTask current fun t => { t with state := .ready }
    if (s.tasks current).id ≠ 0 then enqueueTask cpu current
  let rounds ← any
  let next ← selectNext cpu rounds
  modify (ZohoOs.switchTo cpu next)
  let s ← get
  switchTask current (s.current cpu)

/-- After `pit_handler`, `task_needs_schedule` holds. -/
def needsSchedule (cpu : Fin n) (s : Sched n) : Prop :=
  ((taskTimerTick cpu s).cpus cpu).needResched = true

instance needsSchedule.decidable (cpu : Fin n) (s : Sched n) : Decidable (needsSchedule cpu s) :=
  inferInstanceAs (Decidable (_ = true))

/-- `isr_handler` for the timer interrupt, from the scheduler it finds: interrupts are off, so
nothing comes between its reads. -/
def timerInterrupt (cpu : Fin n) (s : Sched n) : KCode n Unit := do
  modify (taskTimerTick cpu)
  if needsSchedule cpu s then taskSchedule cpu (taskTimerTick cpu s)

/-- `task_yield`: the timer interrupt, raised by the code itself. -/
def taskYield (cpu : Fin n) : KCode n Unit := do
  modify (taskRequestReschedule cpu)
  masked do
    let s ← get
    timerInterrupt cpu s

/-- `task_get_all_info`, over the CPUs. -/
def taskGetAllInfo : KCode n Unit := do
  let _ ← cpuGetCount
  (List.finRange n).forM fun c => do
    cpuGetByIndex
    critical (.runqueue c)

/-! ## System calls and faults -/

/-- `sys_create_window`. -/
def sysCreateWindow : KCode n Unit := do
  windowCreate
  let _ ← kmalloc
  windowAccess
  windowAccess
  loop (vmmMap false)

/-- `sys_exit`. -/
def sysExit (cpu : Fin n) : KCode n Unit := do
  modify fun s => s.updateTask (s.current cpu) fun t => { t with state := .exited }
  taskYield cpu

/-- `sys_get_sys_info`. -/
def sysGetSysInfo : KCode n Unit := do
  let _ ← pmmGetFreeCount
  let _ ← cpuGetCount
  loop cpuGetByIndex
  loop cpuGetByIndex

/-- What ends a task that faults in user mode. -/
def terminateTask (cpu : Fin n) : KCode n Unit := do
  modify (terminate cpu)
  let s ← get
  taskSchedule cpu s

/-- `handle_page_fault`. A fault of the kernel itself stops the CPU. -/
def handlePageFault (cpu : Fin n) : KCode n Unit := do
  let s ← get
  if s.current cpu = 0 then return
  let cow ← any
  if cow ≠ 0 then
    let refs ← pmmGetRef
    if 1 < refs then
      let _ ← pmmAllocFrame
      vmmMap false
      pmmFreeFrame
    else vmmMap false
  else
    klog
    let user ← any
    if user = 0 then hang
    klog
    terminateTask cpu

/-- `isr_handler` for the other exceptions. -/
def handleException (cpu : Fin n) : KCode n Unit := do
  let user ← any
  if user ≠ 0 then
    klog
    let s ← get
    if s.current cpu ≠ 0 then
      terminateTask cpu
      return
  loop serialPrint
  hang

/-! ## What the CPU runs -/

/-- The calls that take locks. What other code of the kernel does is a sequence of these. -/
inductive KernelCall
  | taskCreate | taskCreateUser | taskExec | taskExecFile | taskFork | taskYield | taskGetAllInfo
  | cpuGetCount | cpuGetByIndex
  | kmalloc | kfree (ptr : Nat) | kmallocGetStats
  | pmmAllocFrame | pmmFreeFrame | pmmRefInc | pmmGetRef | pmmGetFreeCount
  | vmmCreateAddressSpace | vmmCloneAddressSpace | vmmDestroyAddressSpace | vmmMap (huge : Bool)
  | vmmUnmap
  | klog | klogSetLevel | serialPrint
  | vfsOpen | vfsTransfer | vfsSize | vfsClose
  | windowCreate | windowAccess | windowRefresh
  | sysCreateWindow | sysExit | sysGetSysInfo
  | pageFault | exception

def KernelCall.code [NeZero n] (cpu : Fin n) : KernelCall → KCode n Unit
  | .taskCreate => KernelCode.taskCreate cpu
  | .taskCreateUser => KernelCode.taskCreateUser
  | .taskExec => KernelCode.taskExec
  | .taskExecFile => KernelCode.taskExecFile
  | .taskFork => KernelCode.taskFork cpu
  | .taskYield => KernelCode.taskYield cpu
  | .taskGetAllInfo => KernelCode.taskGetAllInfo
  | .cpuGetCount => do let _ ← KernelCode.cpuGetCount
  | .cpuGetByIndex => KernelCode.cpuGetByIndex
  | .kmalloc => do let _ ← KernelCode.kmalloc
  | .kfree ptr => KernelCode.kfree ptr
  | .kmallocGetStats => KernelCode.kmallocGetStats
  | .pmmAllocFrame => do let _ ← KernelCode.pmmAllocFrame
  | .pmmFreeFrame => KernelCode.pmmFreeFrame
  | .pmmRefInc => KernelCode.pmmRefInc
  | .pmmGetRef => do let _ ← KernelCode.pmmGetRef
  | .pmmGetFreeCount => do let _ ← KernelCode.pmmGetFreeCount
  | .vmmCreateAddressSpace => do let _ ← KernelCode.vmmCreateAddressSpace
  | .vmmCloneAddressSpace => do let _ ← KernelCode.vmmCloneAddressSpace
  | .vmmDestroyAddressSpace => KernelCode.vmmDestroyAddressSpace
  | .vmmMap huge => KernelCode.vmmMap huge
  | .vmmUnmap => KernelCode.vmmUnmap
  | .klog => KernelCode.klog
  | .klogSetLevel => KernelCode.klogSetLevel
  | .serialPrint => KernelCode.serialPrint
  | .vfsOpen => do let _ ← KernelCode.vfsOpen
  | .vfsTransfer => KernelCode.vfsTransfer
  | .vfsSize => do let _ ← KernelCode.vfsSize
  | .vfsClose => KernelCode.vfsClose
  | .windowCreate => KernelCode.windowCreate
  | .windowAccess => KernelCode.windowAccess
  | .windowRefresh => KernelCode.windowRefresh
  | .sysCreateWindow => KernelCode.sysCreateWindow
  | .sysExit => KernelCode.sysExit cpu
  | .sysGetSysInfo => KernelCode.sysGetSysInfo
  | .pageFault => masked (handlePageFault cpu)
  | .exception => masked (handleException cpu)

/-- How a call is made: by code of the kernel, or through `SYSCALL` or an interrupt gate, both of
which clear the interrupt flag. -/
inductive Entry
  | direct (c : KernelCall)
  | gate (c : KernelCall)

def Entry.code [NeZero n] (cpu : Fin n) : Entry → KCode n Unit
  | .direct c => c.code cpu
  | .gate c => masked (c.code cpu)

/-- What one CPU can run. -/
def kernel [NeZero n] (cpu : Fin n) : Kernel (Sched n) (Lock n) TaskPtr Entry where
  interrupt := timerInterrupt cpu
  call := Entry.code cpu

end ZohoOs.KernelCode
