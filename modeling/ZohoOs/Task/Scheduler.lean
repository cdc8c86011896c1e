import ZohoOs.Memory.Kmalloc
import Mathlib.Data.Finset.Insert
import Mathlib.Data.Finset.Erase
import Mathlib.Data.List.FinRange

/-!
# Tasks and runqueues

The scheduler of `task.c`: tasks linked into one runqueue for each CPU, their creation, the timer
tick, and `task_schedule` with work stealing.

## Main definitions

* `Task`, `Runqueue`, `Cpu`, `Sched`: the scheduler's data
* `enqueueTask`, `dequeueTask`, `pickLeastLoadedCpu`: the runqueues
* `taskCreate`, `taskCreateUser`, `taskExec`, `taskFork`: new tasks
* `sysExit`, `terminate`, `taskTimerTick`: what happens to a running task
* `taskSteal`, `selectNext`, `taskSchedule`: the choice of the next task
-/

namespace ZohoOs

/-- A `task_t` by its address. `NULL` is 0. -/
abbrev TaskPtr := Nat

/-- `task_state_t`. -/
inductive TaskState
  | ready
  | running
  | exited
  deriving DecidableEq

/-- `task_t`. -/
structure Task where
  id : BitVec 64
  rsp : BitVec 64
  stackBottom : Nat
  userStackBottom : Nat
  kernelRsp : BitVec 64
  pml4 : Nat
  state : TaskState
  cpuId : Nat
  timeslice : BitVec 32
  totalTicks : BitVec 64
  next : TaskPtr

/-- `runqueue_t`. Its lock is held for the whole of `enqueueTask` and `dequeueTask`. -/
structure Runqueue where
  head : TaskPtr
  tail : TaskPtr
  count : BitVec 32

/-- What the scheduler uses of `cpu_t`, with the registers it loads. -/
structure Cpu where
  id : BitVec 8
  currentTask : TaskPtr
  idleTask : TaskPtr
  needResched : Bool
  totalTicks : BitVec 64
  idleTicks : BitVec 64
  kernelStack : BitVec 64
  rsp0 : BitVec 64
  cr3 : Nat
  runqueue : Runqueue

/-- The scheduler of a machine with `n` CPUs. -/
structure Sched (n : Nat) where
  tasks : TaskPtr → Task
  cpus : Fin n → Cpu
  /-- `next_id`. -/
  nextId : BitVec 64
  /-- The `task_t` blocks `kmalloc` has handed out and `kfree` has not taken back. -/
  live : Finset TaskPtr
  /-- The tasks `task_reap` was called on, as they were. -/
  reaped : List Task

/-- `TASK_DEFAULT_TIMESLICE`. -/
abbrev taskDefaultTimeslice : BitVec 32 := 4

/-- The size of a kernel stack, and of a user stack. -/
abbrev taskStackSize : Nat := 4096 * 4

variable {n : Nat}

def Sched.updateTask (s : Sched n) (p : TaskPtr) (f : Task → Task) : Sched n :=
  { s with tasks := Function.update s.tasks p (f (s.tasks p)) }

def Sched.updateCpu (s : Sched n) (c : Fin n) (f : Cpu → Cpu) : Sched n :=
  { s with cpus := Function.update s.cpus c (f (s.cpus c)) }

/-- `cpu->current_task`. -/
def Sched.current (s : Sched n) (c : Fin n) : TaskPtr := (s.cpus c).currentTask

/-! ## Runqueues -/

/-- `enqueue_task`: append a task to the tail of a runqueue. -/
def enqueueTask (c : Fin n) (task : TaskPtr) (s : Sched n) : Sched n :=
  let s := s.updateTask task fun t => { t with next := 0 }
  let rq := (s.cpus c).runqueue
  if rq.tail ≠ 0 then
    let s := s.updateTask rq.tail fun t => { t with next := task }
    s.updateCpu c fun cpu => { cpu with runqueue := ⟨rq.head, task, rq.count + 1⟩ }
  else
    s.updateCpu c fun cpu => { cpu with runqueue := ⟨task, task, rq.count + 1⟩ }

/-- `dequeue_task`: remove the head task from a runqueue. -/
def dequeueTask (c : Fin n) (s : Sched n) : TaskPtr × Sched n :=
  let rq := (s.cpus c).runqueue
  if rq.head = 0 then (0, s)
  else
    let head := (s.tasks rq.head).next
    let tail := if head = 0 then 0 else rq.tail
    (rq.head, s.updateCpu c fun cpu => { cpu with runqueue := ⟨head, tail, rq.count - 1⟩ })

/-- The load of a CPU: the tasks in its runqueue, and its current non-idle task. -/
def cpuLoad (s : Sched n) (c : Fin n) : BitVec 32 :=
  let load := (s.cpus c).runqueue.count
  if s.current c ≠ 0 ∧ (s.tasks (s.current c)).id ≠ 0 then load + 1 else load

/-- `pick_least_loaded_cpu`. The loads are compared as `int`s. -/
def pickLeastLoadedCpu [NeZero n] (s : Sched n) : Fin n :=
  ((List.finRange n).drop 1).foldl
    (fun least c => if (cpuLoad s c).slt (cpuLoad s least) then c else least) 0

/-! ## New tasks

A creation is given what the calls it makes return: the addresses `kmalloc` hands out, `NULL` when
it is out of memory, and the address space. Its `task_t` keeps what its memory held in the fields it
does not set. -/

/-- `kmalloc(sizeof(task_t))`, and a task id. -/
def allocTask (task : TaskPtr) (s : Sched n) : Sched n :=
  let s := s.updateTask task fun t => { t with id := s.nextId }
  { s with nextId := s.nextId + 1, live := if task = 0 then s.live else insert task s.live }

/-- The fields `task_create`, `task_create_user` and `task_exec` set. The kernel stack starts with
a frame of 22 words. -/
def buildTask (task : TaskPtr) (pml4 stack ustack : Nat) (s : Sched n) : Sched n :=
  let top := BitVec.ofNat 64 (stack + taskStackSize)
  (allocTask task s).updateTask task fun t =>
    { t with
      pml4 := pml4, stackBottom := stack, userStackBottom := ustack
      kernelRsp := top, rsp := top - 176
      state := .ready, timeslice := taskDefaultTimeslice, totalTicks := 0 }

/-- The end of each creation: the task goes to a CPU and into its runqueue. -/
def assignTask (target : Fin n) (task : TaskPtr) (s : Sched n) : Sched n :=
  enqueueTask target task
    (s.updateTask task fun t => { t with cpuId := (s.cpus target).id.toNat })

/-- `task_create`. -/
def taskCreate [NeZero n] (cpu : Fin n) (task : TaskPtr) (stack : Nat) (s : Sched n) : Sched n :=
  let s := buildTask task (s.cpus cpu).cr3 stack 0 s
  assignTask (pickLeastLoadedCpu s) task s

/-- `task_create_user`. -/
def taskCreateUser [NeZero n] (task : TaskPtr) (pml4 ustack kstack : Nat) (s : Sched n) : Sched n :=
  let s := buildTask task pml4 kstack ustack s
  assignTask (pickLeastLoadedCpu s) task s

/-- `task_exec`, given the address space of the loaded image. -/
def taskExec [NeZero n] (image : Option Nat) (task : TaskPtr) (ustack kstack : Nat) (s : Sched n) :
    Sched n :=
  match image with
  | none => s
  | some pml4 =>
    let s := buildTask task pml4 kstack ustack s
    assignTask (pickLeastLoadedCpu s) task s

/-- `task_fork`, given the cloned address space. -/
def taskFork (cpu : Fin n) (task : TaskPtr) (pml4 kstack ustack : Nat) (s : Sched n) : Sched n :=
  let parent := s.current cpu
  let s := allocTask task s
  let s := s.updateTask task fun t =>
    { t with
      pml4 := pml4, stackBottom := kstack
      userStackBottom := if (s.tasks parent).userStackBottom ≠ 0 then ustack else 0 }
  let stackTopOffset := (s.tasks parent).kernelRsp - (s.tasks parent).rsp
  let s := s.updateTask task fun t =>
    let top := BitVec.ofNat 64 (kstack + taskStackSize)
    { t with
      kernelRsp := top, rsp := top - stackTopOffset
      state := .ready, cpuId := (s.tasks parent).cpuId
      timeslice := taskDefaultTimeslice, totalTicks := 0 }
  enqueueTask cpu task s

/-! ## Running tasks -/

/-- `task_request_reschedule`. -/
def taskRequestReschedule (cpu : Fin n) (s : Sched n) : Sched n :=
  s.updateCpu cpu fun c => { c with needResched := true }

/-- `sys_exit`, up to the interrupt `task_yield` triggers. -/
def sysExit (cpu : Fin n) (s : Sched n) : Sched n :=
  taskRequestReschedule cpu (s.updateTask (s.current cpu) fun t => { t with state := .exited })

/-- What `handle_page_fault` and `isr_handler` do to a user task that faults, before they call
`task_schedule`. -/
def terminate (cpu : Fin n) (s : Sched n) : Sched n :=
  if s.current cpu = 0 then s
  else s.updateTask (s.current cpu) fun t => { t with state := .exited }

/-- `task_timer_tick`. -/
def taskTimerTick (cpu : Fin n) (s : Sched n) : Sched n :=
  let current := s.current cpu
  let s := s.updateCpu cpu fun c => { c with totalTicks := c.totalTicks + 1 }
  if current = 0 then taskRequestReschedule cpu s
  else
    let s := s.updateTask current fun t => { t with totalTicks := t.totalTicks + 1 }
    let idle := (s.tasks current).id = 0
    let s := if idle then s.updateCpu cpu fun c => { c with idleTicks := c.idleTicks + 1 } else s
    if (s.tasks current).state ≠ .running then taskRequestReschedule cpu s
    else if idle then
      if (s.cpus cpu).runqueue.count ≠ 0 then taskRequestReschedule cpu s else s
    else
      let s := s.updateTask current fun t =>
        { t with timeslice := if t.timeslice = 0 then 0 else t.timeslice - 1 }
      if (s.tasks current).timeslice = 0 then taskRequestReschedule cpu s else s

/-! ## Scheduling -/

/-- `task_reap`. The address space, windows and stacks of the task go with it. -/
def taskReap (task : TaskPtr) (s : Sched n) : Sched n :=
  { s with reaped := s.reaped ++ [s.tasks task], live := s.live.erase task }

/-- The first part of `task_schedule`: the outgoing task is requeued if it is still runnable. -/
def requeueCurrent (cpu : Fin n) (currentRsp : BitVec 64) (s : Sched n) : Sched n :=
  let current := s.current cpu
  let s := s.updateCpu cpu fun c => { c with needResched := false }
  let s := s.updateTask current fun t => { t with rsp := currentRsp }
  if (s.tasks current).state = .running then
    let s := s.updateTask current fun t => { t with state := .ready }
    if (s.tasks current).id ≠ 0 then enqueueTask cpu current s else s
  else s

/-- The loop of `task_steal` over the CPUs that are left. -/
def stealFrom (self : Fin n) : List (Fin n) → Sched n → TaskPtr × Sched n
  | [], s => (0, s)
  | victim :: rest, s =>
    if victim = self then stealFrom self rest s
    else
      let (task, s) := dequeueTask victim s
      if task ≠ 0 then
        (task, s.updateTask task fun t => { t with cpuId := (s.cpus self).id.toNat })
      else stealFrom self rest s

/-- `task_steal`. -/
def taskSteal (self : Fin n) (s : Sched n) : TaskPtr × Sched n :=
  stealFrom self (List.finRange n) s

/-- The selection loop of `task_schedule`, with a bound on its iterations; `none` when it is
reached. The task is 0 where the loop ends without one. -/
def selectNext (cpu : Fin n) : Nat → Sched n → Option (TaskPtr × Sched n)
  | 0, _ => none
  | fuel + 1, s =>
    let (own, s) := dequeueTask cpu s
    let (next, s) := if own = 0 then taskSteal cpu s else (own, s)
    if next = 0 then some (0, s)
    else
      match (s.tasks next).state with
      | .exited => selectNext cpu fuel (taskReap next s)
      | .ready => some (next, s)
      | .running => selectNext cpu fuel (enqueueTask cpu next s)

/-- The end of `task_schedule`: the next task, or the idle task, becomes the current one. -/
def switchTo (cpu : Fin n) (next : TaskPtr) (s : Sched n) : Sched n :=
  let next := if next = 0 then (s.cpus cpu).idleTask else next
  let s := s.updateCpu cpu fun c => { c with currentTask := next }
  let s := s.updateTask next fun t =>
    { t with state := .running, timeslice := if t.id = 0 then 0 else taskDefaultTimeslice }
  let task := s.tasks next
  s.updateCpu cpu fun c =>
    { c with rsp0 := task.kernelRsp, kernelStack := task.kernelRsp, cr3 := task.pml4 }

/-- `task_schedule`: the stack pointer to restore and the new state, or `none` when the selection
loop takes more than `fuel` iterations. -/
def taskSchedule (fuel : Nat) (cpu : Fin n) (currentRsp : BitVec 64) (s : Sched n) :
    Option (BitVec 64 × Sched n) :=
  if s.current cpu = 0 then some (currentRsp, s)
  else
    (selectNext cpu fuel (requeueCurrent cpu currentRsp s)).map fun (next, s) =>
      let s := switchTo cpu next s
      ((s.tasks (s.current cpu)).rsp, s)

end ZohoOs
