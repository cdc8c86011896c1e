import ZohoOs.Lib.TransitionSystem
import ZohoOs.Lib.WordStack
import ZohoOs.Task.Runqueues

/-!
# Kernel stacks and `fork`

What the stubs of `idt_asm.asm` and `syscall_asm.asm` leave on the kernel stack of a task, and what
`task_fork` makes of it. An interrupt and a system call lay out the registers differently, and
`task_fork` copies the stack from where the task was last switched.

## Main definitions

* `Registers`, `interruptEntry`, `isrReturn`: the interrupt stub, whose layout is
  `struct interrupt_frame`
* `syscallEntry`, `syscallReturn`: the system call stub
* `forkStack`: the stack of a child
* `userStep`: the life of a task in user mode, up to its call of `fork`

## Main results

* `isrReturn_interruptEntry`: a task that is preempted resumes where it was
* `userRun_saved`: where the stack pointer of a task is saved
* `forkStack_resumes_iff`: when the child resumes as its parent
-/

namespace ZohoOs

open TransitionSystem WordStack

/-! ## The stubs -/

/-- The registers of a task: those the stubs save, and those `iretq` and `sysret` load. -/
structure Registers where
  rax : BitVec 64
  rbx : BitVec 64
  rcx : BitVec 64
  rdx : BitVec 64
  rsi : BitVec 64
  rdi : BitVec 64
  rbp : BitVec 64
  r8 : BitVec 64
  r9 : BitVec 64
  r10 : BitVec 64
  r11 : BitVec 64
  r12 : BitVec 64
  r13 : BitVec 64
  r14 : BitVec 64
  r15 : BitVec 64
  rip : BitVec 64
  cs : BitVec 64
  rflags : BitVec 64
  rsp : BitVec 64
  ss : BitVec 64
  deriving DecidableEq

/-- The words the processor and `isr_common_stub` push on an interrupt. -/
def interruptWords (c : Registers) (intNo errorCode : BitVec 64) : List (BitVec 64) :=
  [c.ss, c.rsp, c.rflags, c.cs, c.rip, errorCode, intNo, c.rax, c.rbx, c.rcx, c.rdx, c.rbp, c.rsi,
    c.rdi, c.r8, c.r9, c.r10, c.r11, c.r12, c.r13, c.r14, c.r15]

/-- The processor aligns the stack to 16 bytes before it pushes. -/
def align16 (sp : BitVec 64) : BitVec 64 := sp &&& ~~~0xF#64

/-- An interrupt, up to the call of `isr_handler`, which is given the stack pointer. -/
def interruptEntry (sp : BitVec 64) (c : Registers) (intNo errorCode : BitVec 64)
    (mem : Words (BitVec 64)) : BitVec 64 × Words (BitVec 64) :=
  pushAll (align16 sp) (interruptWords c intNo errorCode) mem

/-- The end of `isr_common_stub`, from the stack pointer `isr_handler` returns: the words of a
`struct interrupt_frame` are popped. -/
def isrReturn (frame : BitVec 64) (mem : Words (BitVec 64)) : Registers where
  r15 := word mem frame 0
  r14 := word mem frame 1
  r13 := word mem frame 2
  r12 := word mem frame 3
  r11 := word mem frame 4
  r10 := word mem frame 5
  r9 := word mem frame 6
  r8 := word mem frame 7
  rdi := word mem frame 8
  rsi := word mem frame 9
  rbp := word mem frame 10
  rdx := word mem frame 11
  rcx := word mem frame 12
  rbx := word mem frame 13
  rax := word mem frame 14
  -- the interrupt number and the error code are dropped
  rip := word mem frame 17
  cs := word mem frame 18
  rflags := word mem frame 19
  rsp := word mem frame 20
  ss := word mem frame 21

/-- `syscall`: the address of the next instruction, to which `rip` points already, and the flags go
to registers. -/
def syscallInstruction (c : Registers) : Registers := { c with rcx := c.rip, r11 := c.rflags }

/-- The words `syscall_entry` pushes. -/
def syscallWords (c : Registers) : List (BitVec 64) :=
  [c.rsp, c.r11, c.rcx, c.rax, c.rdi, c.rsi, c.rdx, c.r10, c.r8, c.r9, c.rbx, c.rbp, c.r12, c.r13,
    c.r14, c.r15]

/-- `syscall_entry`, up to the call of `syscall_handler_c`. -/
def syscallEntry (kernelStack : BitVec 64) (c : Registers) (mem : Words (BitVec 64)) :
    BitVec 64 × Words (BitVec 64) :=
  pushAll kernelStack (syscallWords (syscallInstruction c)) mem

/-- The segment selectors of user code. -/
abbrev userCs : BitVec 64 := 0x23

abbrev userSs : BitVec 64 := 0x1B

/-- The end of `syscall_entry`, given the result of `syscall_handler_c`. -/
def syscallReturn (result frame : BitVec 64) (mem : Words (BitVec 64)) : Registers where
  r15 := word mem frame 0
  r14 := word mem frame 1
  r13 := word mem frame 2
  r12 := word mem frame 3
  rbp := word mem frame 4
  rbx := word mem frame 5
  r9 := word mem frame 6
  r8 := word mem frame 7
  r10 := word mem frame 8
  rdx := word mem frame 9
  rsi := word mem frame 10
  rdi := word mem frame 11
  rax := result
  rcx := word mem frame 13
  r11 := word mem frame 14
  rsp := word mem frame 15
  -- `sysret`
  rip := word mem frame 13
  rflags := word mem frame 14 &&& 0x3C7FD7#64 ||| 2#64
  cs := userCs
  ss := userSs

section Words

theorem align16_eq (sp : BitVec 64) : align16 sp = sp - (sp &&& 0xF#64) := by
  have hzero : (sp &&& ~~~0xF#64) &&& (sp &&& 0xF#64) = 0#64 := by
    ext i
    simp only [BitVec.getElem_and, BitVec.getElem_not, BitVec.getElem_zero]
    cases sp[i] <;> cases (0xF#64)[i] <;> rfl
  have hsplit : (sp &&& ~~~0xF#64) + (sp &&& 0xF#64) = sp := by
    rw [BitVec.add_eq_or_of_and_eq_zero _ _ hzero, ← BitVec.and_or_distrib_left,
      show ~~~0xF#64 ||| 0xF#64 = BitVec.allOnes 64 by decide, BitVec.and_allOnes]
  rw [align16]
  bv_omega

theorem flag_sysret (x : BitVec 64) :
    (x &&& 0x3C7FD7#64 ||| 2#64) &&& 0x200#64 = x &&& 0x200#64 := by
  rw [BitVec.and_or_distrib_right, BitVec.and_assoc,
    show 0x3C7FD7#64 &&& 0x200#64 = 0x200#64 by decide, show 2#64 &&& 0x200#64 = 0#64 by decide,
    BitVec.or_zero]

theorem low_toNat (sp : BitVec 64) : (sp &&& 0xF#64).toNat = sp.toNat % 16 := by
  rw [BitVec.toNat_and, show (0xF#64).toNat = 2 ^ 4 - 1 from rfl, Nat.and_two_pow_sub_one_eq_mod]

variable {top frame : BitVec 64} {c : Registers} {intNo errorCode : BitVec 64}
  {mem mem' pushed : Words (BitVec 64)}

theorem interruptWords_length : (interruptWords c intNo errorCode).length = 22 := rfl

theorem syscallWords_length : (syscallWords c).length = 16 := rfl

/-- **A task that is interrupted resumes where it was**, if its frame is kept. -/
theorem isrReturn_interruptEntry (h : interruptEntry top c intNo errorCode mem = (frame, pushed))
    (hkept : Kept frame (align16 top) pushed mem') : isrReturn frame mem' = c := by
  have hword : ∀ i (hi : i < 22), word mem' frame i =
      (interruptWords c intNo errorCode).get
        ⟨21 - i, by rw [interruptWords_length]; omega⟩ := by
    intro i hi
    rw [← show _ = frame from congrArg Prod.fst h, ← show _ = pushed from congrArg Prod.snd h] at hkept
    rw [← show _ = frame from congrArg Prod.fst h]
    exact hkept.word_pushAll (by rw [interruptWords_length]; decide) hi
  rw [isrReturn]
  repeat rw [hword _ (by decide)]
  rfl

/-- The words of a system call, if they are kept. -/
theorem word_syscallEntry (h : syscallEntry top c mem = (frame, pushed))
    (hkept : Kept frame top pushed mem') {i : Nat} (hi : i < 16) : word mem' frame i =
      (syscallWords (syscallInstruction c)).get ⟨15 - i, by rw [syscallWords_length]; omega⟩ := by
  rw [← show _ = frame from congrArg Prod.fst h, ← show _ = pushed from congrArg Prod.snd h] at hkept
  rw [← show _ = frame from congrArg Prod.fst h]
  exact hkept.word_pushAll (by rw [syscallWords_length]; decide) hi

/-- What a system call gives back to its task, if its words are kept. -/
theorem syscallReturn_syscallEntry {result : BitVec 64}
    (h : syscallEntry top c mem = (frame, pushed)) (hkept : Kept frame top pushed mem') :
    syscallReturn result frame mem' =
      { c with
        rax := result, rcx := c.rip, r11 := c.rflags, cs := userCs, ss := userSs
        rflags := c.rflags &&& 0x3C7FD7#64 ||| 2#64 } := by
  rw [syscallReturn]
  repeat rw [word_syscallEntry h hkept (by decide)]
  rfl

theorem interruptEntry_sp (h : interruptEntry top c intNo errorCode mem = (frame, pushed)) :
    frame = top - (top &&& 0xF#64) - 176 := by
  have hsp := congrArg Prod.fst h
  rw [interruptEntry, pushAll_sp, interruptWords_length, align16_eq] at hsp
  exact hsp.symm

theorem syscallEntry_sp (h : syscallEntry top c mem = (frame, pushed)) : frame = top - 128 := by
  have hsp := congrArg Prod.fst h
  rw [syscallEntry, pushAll_sp, syscallWords_length] at hsp
  exact hsp.symm

end Words

/-! ## The child's stack -/

/-- What `task_fork` makes of the stacks, given the block `kmalloc` returns for the child's. The two
stacks are different blocks. -/
def forkStack (parent child : Task) (kstack : Nat) (mem : Words (BitVec 64)) :
    Task × Words (BitVec 64) :=
  let top := BitVec.ofNat 64 (kstack + taskStackSize)
  let stackTopOffset := parent.kernelRsp - parent.rsp
  let mem := blockCopy (top - stackTopOffset) parent.rsp stackTopOffset mem
  let child :=
    { child with stackBottom := kstack, kernelRsp := top, rsp := top - stackTopOffset }
  -- `*child_rax = 0`
  (child, Function.update mem child.rsp 0)

/-- The stack fields of the child are those `taskFork` sets. -/
theorem taskFork_stack {n : Nat} {s : Sched n} (cpu : Fin n) (task : TaskPtr)
    (pml4 kstack ustack : Nat) (child : Task) (mem : Words (BitVec 64)) :
    let forked := (taskFork cpu task pml4 kstack ustack s).tasks task
    let stacked := (forkStack (s.tasks (s.current cpu)) child kstack mem).1
    forked.stackBottom = stacked.stackBottom ∧ forked.kernelRsp = stacked.kernelRsp ∧
      forked.rsp = stacked.rsp := by
  let stack (t : Task) := (t.kernelRsp, t.rsp)
  have halloc : ∀ q, stack ((allocTask task s).tasks q) = stack (s.tasks q) :=
    Sched.updateTask_field s task (fun t => { t with id := s.nextId }) stack rfl
  have hparent : ∀ ustack', stack (((allocTask task s).updateTask task fun t =>
      { t with pml4 := pml4, stackBottom := kstack, userStackBottom := ustack' }).tasks
        (s.current cpu)) = stack (s.tasks (s.current cpu)) := fun _ =>
    (Sched.updateTask_field _ _ _ stack rfl _).trans (halloc _)
  refine ⟨?_, ?_, ?_⟩
  · refine (enqueueTask_tasks _ _ _ (fun t => t.stackBottom) (fun _ _ => rfl) _).trans ?_
    rw [Sched.updateTask_tasks, if_pos rfl, Sched.updateTask_tasks, if_pos rfl]
    rfl
  · refine (enqueueTask_tasks _ _ _ (fun t => t.kernelRsp) (fun _ _ => rfl) _).trans ?_
    rw [Sched.updateTask_tasks, if_pos rfl]
    rfl
  · refine (enqueueTask_tasks _ _ _ (fun t => t.rsp) (fun _ _ => rfl) _).trans ?_
    rw [Sched.updateTask_tasks, if_pos rfl]
    obtain ⟨hkernel, hrsp⟩ := Prod.mk.injEq .. ▸ hparent _
    exact congrArg₂ (fun k r => BitVec.ofNat 64 (kstack + taskStackSize) - (k - r)) hkernel hrsp

section Child

variable {parent child : Task} {kstack : Nat} {mem : Words (BitVec 64)}

/-- The words of the child's stack from its stack pointer on. -/
theorem word_forkStack {i : Nat} (hi : i < 22) (hoff : 176 ≤ parent.kernelRsp - parent.rsp) :
    word (forkStack parent child kstack mem).2 (forkStack parent child kstack mem).1.rsp i =
      if i = 0 then 0 else word mem parent.rsp i := by
  simp only [forkStack]
  generalize parent.kernelRsp - parent.rsp = off at hoff
  generalize BitVec.ofNat 64 (kstack + taskStackSize) - off = dst
  by_cases hzero : i = 0
  · rw [if_pos hzero, hzero, word, show dst + 8 * BitVec.ofNat 64 0 = dst by bv_omega,
      Function.update_self]
  · have hne : dst + 8 * BitVec.ofNat 64 i ≠ dst := by bv_omega
    rw [if_neg hzero, word, Function.update_of_ne hne]
    exact word_blockCopy (by bv_omega)

/-- The child resumes with the words at the parent's saved stack pointer, but for `r15`. -/
theorem isrReturn_forkStack (hoff : 176 ≤ parent.kernelRsp - parent.rsp) :
    isrReturn (forkStack parent child kstack mem).1.rsp (forkStack parent child kstack mem).2 =
      { isrReturn parent.rsp mem with r15 := 0 } := by
  simp only [isrReturn]
  repeat rw [word_forkStack (by decide) hoff]
  rfl

end Child

/-! ## The life of a task -/

/-- A task in user mode, and the memory. -/
structure UserTask where
  task : Task
  regs : Registers
  mem : Words (BitVec 64)

/-- The frame `task_create_user` and `task_exec` build. -/
def userFrame (ustack entry : BitVec 64) : List (BitVec 64) :=
  [userSs, ustack, 0x202, userCs, entry, 0, 0] ++ List.replicate 15 0

theorem userFrame_length (ustack entry : BitVec 64) : (userFrame ustack entry).length = 22 := rfl

/-- A new task, when it is first switched to. -/
def UserTask.create (task : Task) (kstack : Nat) (ustack entry : BitVec 64)
    (mem : Words (BitVec 64)) : UserTask :=
  let top := BitVec.ofNat 64 (kstack + taskStackSize)
  let stack := pushAll top (userFrame ustack entry) mem
  { task := { task with stackBottom := kstack, kernelRsp := top, rsp := stack.1 }
    regs := isrReturn stack.1 stack.2
    mem := stack.2 }

/-- The numbers of two system calls. -/
abbrev sysYieldNum : BitVec 64 := 9

abbrev sysForkNum : BitVec 64 := 13

/-- What happens to a task in user mode. -/
inductive TaskEvent
  | user
  | preempt
  | syscall
  | yield
  | fork

/-- One event. The C code called may leave anything on the kernel stack below the words the stub has
pushed, and other tasks may run before the task goes on. -/
inductive userStep : UserTask → TaskEvent → UserTask → Prop
  /-- User code cannot change its segments, nor the interrupt flag. -/
  | user {s : UserTask} {regs : Registers} (hcs : regs.cs = s.regs.cs) (hss : regs.ss = s.regs.ss)
      (hflag : regs.rflags &&& 0x200#64 = s.regs.rflags &&& 0x200#64) :
      userStep s .user { s with regs := regs }
  /-- A timer interrupt, in which the task is switched. -/
  | preempt {s : UserTask} {frame : BitVec 64} {pushed mem : Words (BitVec 64)}
      (hentry : interruptEntry s.task.kernelRsp s.regs 32 0 s.mem = (frame, pushed))
      (hkept : Kept frame (align16 s.task.kernelRsp) pushed mem) :
      userStep s .preempt ⟨{ s.task with rsp := frame }, isrReturn frame mem, mem⟩
  /-- A system call, in which the task is not switched. -/
  | syscall {s : UserTask} {frame result : BitVec 64} {pushed mem : Words (BitVec 64)}
      (hentry : syscallEntry s.task.kernelRsp s.regs s.mem = (frame, pushed))
      (hkept : Kept frame s.task.kernelRsp pushed mem) :
      userStep s .syscall ⟨s.task, syscallReturn result frame mem, mem⟩
  /-- `sys_yield`: the interrupt comes inside the kernel, below the words of the system call and the
  return address to its stub. -/
  | yield {s : UserTask} {frame kernelSp : BitVec 64} {kernelRegs : Registers}
      {pushed mem called : Words (BitVec 64)} (hnum : s.regs.rax = sysYieldNum)
      (hentry : syscallEntry s.task.kernelRsp s.regs s.mem = (frame, pushed))
      (hdeep : 136 ≤ s.task.kernelRsp - kernelSp)
      (hstack : s.task.kernelRsp - kernelSp ≤ BitVec.ofNat 64 (taskStackSize - 192))
      (hkept : Kept frame s.task.kernelRsp pushed mem) :
      userStep s .yield
        ⟨{ s.task with rsp := (interruptEntry kernelSp kernelRegs 32 0 called).1 },
          syscallReturn 0 frame mem, mem⟩
  /-- `fork`, after which it is the child that is followed, if it comes to run user code. -/
  | fork {s : UserTask} {regs : Registers} {child : Task} {kstack : Nat}
      {called mem : Words (BitVec 64)} (hnum : s.regs.rax = sysForkNum) (hblock : kstack % 8 = 0)
      (hcs : regs.cs = userCs) (hflag : regs.rflags &&& 0x200#64 = 0x200#64) :
      userStep s .fork ⟨(forkStack s.task child kstack called).1, regs, mem⟩

/-- The part of the kernel stack that is in use where the task was last switched. -/
def UserTask.savedSize (s : UserTask) : BitVec 64 := s.task.kernelRsp - s.task.rsp

/-- **Where a task was last switched**: in user mode, so that its frame is at the top of its kernel
stack, or below the words of a system call. -/
structure UserTask.Saved (s : UserTask) : Prop where
  aligned : s.task.kernelRsp.toNat % 8 = 0
  cs : s.regs.cs = userCs
  flag : s.regs.rflags &&& 0x200#64 = 0x200#64
  size : s.savedSize = 176 ∨ s.savedSize = 184 ∨ 312 ≤ s.savedSize

section Life

variable {s s' : UserTask} {ev : TaskEvent}

/-- **A step keeps where a task can have been switched.** -/
theorem UserTask.Saved.step (h : s.Saved) (hstep : userStep s ev s') : s'.Saved := by
  obtain ⟨haligned, hcs, hflag, hsize⟩ := h
  cases hstep with
  | user hcs' _ hflag' => exact ⟨haligned, hcs'.trans hcs, hflag'.trans hflag, hsize⟩
  | @preempt frame pushed mem hentry hkept =>
    rw [isrReturn_interruptEntry hentry hkept]
    refine ⟨haligned, hcs, hflag, ?_⟩
    -- the top of the stack is a multiple of 8, so that it is moved by 8 at most
    have hlow := low_toNat s.task.kernelRsp
    simp only [UserTask.savedSize, interruptEntry_sp hentry]
    generalize s.task.kernelRsp &&& 0xF#64 = low at hlow
    bv_omega
  | @syscall frame result pushed mem hentry hkept =>
    rw [syscallReturn_syscallEntry hentry hkept]
    exact ⟨haligned, rfl, (flag_sysret _).trans hflag, hsize⟩
  | @yield frame kernelSp kernelRegs pushed mem called hnum hentry hdeep hstack hkept =>
    rw [syscallReturn_syscallEntry hentry hkept]
    refine ⟨haligned, rfl, (flag_sysret _).trans hflag, Or.inr (Or.inr ?_)⟩
    have hlow := low_toNat kernelSp
    simp only [UserTask.savedSize, interruptEntry_sp (Prod.eta _).symm]
    generalize kernelSp &&& 0xF#64 = low at hlow
    simp only [taskStackSize] at hstack
    bv_omega
  | @fork regs child kstack called mem hnum hblock hcs' hflag' =>
    refine ⟨?_, hcs', hflag', ?_⟩
    · simp only [forkStack, BitVec.toNat_ofNat, taskStackSize]
      omega
    · have hsame : BitVec.ofNat 64 (kstack + taskStackSize) -
          (BitVec.ofNat 64 (kstack + taskStackSize) - (s.task.kernelRsp - s.task.rsp)) =
            s.task.kernelRsp - s.task.rsp := by bv_omega
      simpa only [UserTask.savedSize, forkStack, hsame] using hsize

theorem UserTask.saved_create (task : Task) {kstack : Nat} (hblock : kstack % 8 = 0)
    (ustack entry : BitVec 64) (mem : Words (BitVec 64)) :
    (UserTask.create task kstack ustack entry mem).Saved := by
  have hword : ∀ i (hi : i < 22), word (pushAll (BitVec.ofNat 64 (kstack + taskStackSize))
      (userFrame ustack entry) mem).2 (pushAll (BitVec.ofNat 64 (kstack + taskStackSize))
        (userFrame ustack entry) mem).1 i = (userFrame ustack entry).get ⟨21 - i, by
          rw [userFrame_length]
          omega⟩ := fun i hi =>
    Kept.word_pushAll (fun _ _ => rfl) (by rw [userFrame_length]; decide) hi
  refine ⟨?_, ?_, ?_, Or.inl ?_⟩
  · simp only [UserTask.create, BitVec.toNat_ofNat, taskStackSize]
    omega
  · have hcs := hword 18 (by decide)
    simp only [UserTask.create, isrReturn, hcs]
    rfl
  · have hflags := hword 19 (by decide)
    simp only [UserTask.create, isrReturn, hflags]
    show 0x202#64 &&& 0x200#64 = 0x200#64
    decide
  · simp only [UserTask.savedSize, UserTask.create, pushAll_sp, userFrame_length]
    bv_omega

/-- In every run from the creation of a task. -/
theorem userRun_saved {task : Task} {kstack : Nat} (hblock : kstack % 8 = 0)
    {ustack entry : BitVec 64} {mem : Words (BitVec 64)} {evs : List TaskEvent}
    (hrun : Run userStep (UserTask.create task kstack ustack entry mem) evs s) : s.Saved :=
  hrun.invariant (fun _ _ _ h hstep => h.step hstep) (UserTask.saved_create task hblock _ _ _)

end Life

/-! ## The frame of the child -/

/-- The child resumes as its parent goes on: after the system call, with all its registers but for
`rax = 0`, and `rcx` and `r11`, which a system call does not preserve. -/
def ResumesAs (c child : Registers) : Prop :=
  child = { c with rax := 0, rcx := child.rcx, r11 := child.r11 }

section Fork

variable {s : UserTask} {frame : BitVec 64} {pushed mem : Words (BitVec 64)}

/-- Where the parent was last switched in user mode, its frame at the top of the stack is overwritten
by the words of the system call, which the child takes for a frame. -/
theorem not_resumesAs_top (h : s.Saved) (hnum : s.regs.rax = sysForkNum)
    (hentry : syscallEntry s.task.kernelRsp s.regs s.mem = (frame, pushed))
    (hkept : Kept frame s.task.kernelRsp pushed mem)
    (htop : s.savedSize = 176 ∨ s.savedSize = 184) :
    ¬ ResumesAs s.regs { isrReturn s.task.rsp mem with r15 := 0 } := by
  have hframe := syscallEntry_sp hentry
  have hrax : word mem frame 12 = sysForkNum := by
    rw [word_syscallEntry hentry hkept (by decide)]
    exact hnum
  intro hres
  rcases htop with hsize | hsize
  · -- the number of the call stands where the code segment should
    have hrsp : s.task.rsp = frame - 8 * BitVec.ofNat 64 6 := by
      rw [UserTask.savedSize] at hsize
      bv_omega
    have hcs : word mem s.task.rsp (6 + 12) = s.regs.cs := congrArg Registers.cs hres
    rw [hrsp, word_sub, hrax, h.cs] at hcs
    exact absurd hcs (by decide)
  · -- the number of the call stands where the flags should
    have hrsp : s.task.rsp = frame - 8 * BitVec.ofNat 64 7 := by
      rw [UserTask.savedSize] at hsize
      bv_omega
    have hrflags : word mem s.task.rsp (7 + 12) = s.regs.rflags := congrArg Registers.rflags hres
    rw [hrsp, word_sub, hrax] at hrflags
    have hflag := h.flag
    rw [← hrflags] at hflag
    exact absurd hflag (by decide)

/-- **When the child resumes as its parent**: never where the parent was last switched in user mode;
where it was last switched inside the kernel, if its `r15` is 0 and the words that are left of the
old frame happen to be its registers. -/
theorem forkStack_resumes_iff {task child : Task} {kstack kstack' : Nat} (hblock : kstack % 8 = 0)
    {ustack entry : BitVec 64} {mem₀ : Words (BitVec 64)} {evs : List TaskEvent}
    (hrun : Run userStep (UserTask.create task kstack ustack entry mem₀) evs s)
    (hnum : s.regs.rax = sysForkNum)
    (hentry : syscallEntry s.task.kernelRsp s.regs s.mem = (frame, pushed))
    (hkept : Kept frame s.task.kernelRsp pushed mem) :
    ResumesAs s.regs (isrReturn (forkStack s.task child kstack' mem).1.rsp
      (forkStack s.task child kstack' mem).2) ↔
    312 ≤ s.savedSize ∧ s.regs.r15 = 0 ∧
      ResumesAs s.regs { isrReturn s.task.rsp mem with r15 := s.regs.r15 } := by
  have hsaved := userRun_saved hblock hrun
  have hoff : 176 ≤ s.task.kernelRsp - s.task.rsp := by
    have hsize := hsaved.size
    rw [UserTask.savedSize] at hsize
    rcases hsize with hsize | hsize | hsize <;> bv_omega
  rw [isrReturn_forkStack hoff]
  constructor
  · intro hres
    have hr15 : 0 = s.regs.r15 := congrArg Registers.r15 hres
    refine ⟨?_, hr15.symm, hr15 ▸ hres⟩
    rcases hsaved.size with hsize | hsize | hsize
    · exact absurd hres (not_resumesAs_top hsaved hnum hentry hkept (Or.inl hsize))
    · exact absurd hres (not_resumesAs_top hsaved hnum hentry hkept (Or.inr hsize))
    · exact hsize
  · rintro ⟨-, hr15, hres⟩
    rwa [hr15] at hres

end Fork

/-- A new task. -/
def newTask : UserTask :=
  UserTask.create ⟨5, 0, 0, 0, 0, 0, .running, 0, 4, 0, 0⟩ 0x200018 0x304018 0x400000 fun _ => 0

/-- Its code calls `fork` with 7 in `rdi`, first thing. -/
def forkingTask : UserTask :=
  { newTask with regs := { newTask.regs with rax := sysForkNum, rdi := 7, rip := 0x400009 } }

theorem forkingTask_run : Run userStep newTask [.user] forkingTask := by
  unfold forkingTask
  generalize newTask = task
  exact Run.single (userStep.user rfl rfl rfl)

/-- The child of this task does not resume as it. -/
theorem forkingTask_resumes_iff :
    let stub := syscallEntry forkingTask.task.kernelRsp forkingTask.regs forkingTask.mem
    let forked := forkStack forkingTask.task forkingTask.task 0x308018 stub.2
    ResumesAs forkingTask.regs (isrReturn forked.1.rsp forked.2) ↔
      312 ≤ forkingTask.savedSize ∧ forkingTask.regs.r15 = 0 ∧ ResumesAs forkingTask.regs
        { isrReturn forkingTask.task.rsp stub.2 with r15 := forkingTask.regs.r15 } :=
  forkStack_resumes_iff (by decide) forkingTask_run rfl rfl fun _ _ => rfl

/-- **The child starts at the argument in `rdi`**, with the number of the call for a code segment. -/
theorem forkStack_misplaces : Run userStep newTask [.user] forkingTask ∧
    let stub := syscallEntry forkingTask.task.kernelRsp forkingTask.regs forkingTask.mem
    let forked := forkStack forkingTask.task forkingTask.task 0x308018 stub.2
    (isrReturn forked.1.rsp forked.2).rip = 7 ∧ (isrReturn forked.1.rsp forked.2).cs = 13 ∧
      ¬ ResumesAs forkingTask.regs (isrReturn forked.1.rsp forked.2) := by
  have hrip : (let stub := syscallEntry forkingTask.task.kernelRsp forkingTask.regs forkingTask.mem
      let forked := forkStack forkingTask.task forkingTask.task 0x308018 stub.2
      (isrReturn forked.1.rsp forked.2).rip) = 7 := by decide +kernel
  have hcs : (let stub := syscallEntry forkingTask.task.kernelRsp forkingTask.regs forkingTask.mem
      let forked := forkStack forkingTask.task forkingTask.task 0x308018 stub.2
      (isrReturn forked.1.rsp forked.2).cs) = 13 := by decide +kernel
  refine ⟨forkingTask_run, hrip, hcs, fun hres => ?_⟩
  have hsame := congrArg Registers.cs hres
  exact absurd (hcs.symm.trans hsame) (by decide +kernel)

end ZohoOs
