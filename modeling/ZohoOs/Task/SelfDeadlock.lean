import ZohoOs.Task.KernelCode

/-!
# The locks of one CPU

Every lock but that of the CPU table is taken with interrupts off, and no call takes a lock it
holds. `cpu_lock_all` leaves the interrupts on: a timer interrupt that comes between it and
`cpu_unlock_all` and schedules another task leaves the lock taken, and the next call that asks for
a CPU spins on it forever.

## Main results

* `kernel_disciplined`: what every call and the timer interrupt do with the locks
* `kernelRun_not_selfDeadlock`: runs in which no interrupt schedules inside `cpu_lock_all`
* `kernelRun_selfDeadlock`: a run that ends with the CPU spinning on its own lock
-/

namespace ZohoOs.KernelCode

open Interruptible TransitionSystem

variable {n : Nat}

/-- The lock that is taken with interrupts as they are. -/
def plainLock (l : Lock n) : Prop := l = .cpu

/-- Code that keeps the discipline where no lock of a list is held. -/
abbrev KeepsFree (locks : List (Lock n)) {α : Type} (c : KCode n α) : Prop :=
  c.Keeps plainLock (Guard.Free locks)

/-- Code that keeps the discipline where no lock is held. -/
abbrev KeepsUnlocked {α : Type} (c : KCode n α) : Prop := c.Keeps plainLock Guard.Unlocked

/-- Code that keeps the discipline where no lock is held and interrupts are off. -/
abbrev KeepsMasked {α : Type} (c : KCode n α) : Prop := c.Keeps plainLock Guard.Masked

section Rules

variable {α : Type} {locks locks' : List (Lock n)} {c : KCode n α}

theorem KeepsFree.mono (h : KeepsFree locks c) (hsub : ∀ l ∈ locks, l ∈ locks') :
    KeepsFree locks' c := Code.Keeps.mono h fun _ hg => hg.mono hsub

theorem KeepsFree.unlocked (h : KeepsFree locks c) : KeepsUnlocked c :=
  Code.Keeps.mono h fun _ hg => hg.free locks

theorem KeepsUnlocked.masked (h : KeepsUnlocked c) : KeepsMasked c :=
  Code.Keeps.mono h fun _ hg => hg.unlocked

end Rules

open Code.Keeps (bind pure)

theorem critical_keeps (l : Lock n) : KeepsFree [l] (critical l) :=
  Code.Keeps.withLock List.not_mem_nil (pure ())

theorem criticalAny_keeps (l : Lock n) : KeepsFree [l] (criticalAny l) :=
  Code.Keeps.withLock List.not_mem_nil Code.Keeps.any

/-! ## Calls made inside sections -/

theorem serialPrint_keeps : KeepsFree [.serial] (serialPrint : KCode n Unit) := critical_keeps _

theorem klog_keeps : KeepsFree [.klog, .serial] (klog : KCode n Unit) := by
  refine bind Code.Keeps.any fun logged => ?_
  split
  · exact pure ()
  · refine Code.Keeps.withLock (by simp) ?_
    iterate 5 refine bind serialPrint_keeps fun _ => ?_
    exact serialPrint_keeps

theorem kmalloc_keeps : KeepsFree [.kmalloc, .klog, .serial] (kmalloc : KCode n Nat) := by
  refine bind ((criticalAny_keeps _).mono (by simp)) fun addr => ?_
  split
  · exact bind (klog_keeps.mono (by simp)) fun _ => pure addr
  · exact bind (pure ()) fun _ => pure addr

theorem kfree_keeps (ptr : Nat) : KeepsFree [.kmalloc] (kfree ptr : KCode n Unit) := by
  unfold kfree
  split
  · exact pure ()
  · exact critical_keeps _

theorem freeWindow_keeps : KeepsFree [.kmalloc] (freeWindow : KCode n Unit) :=
  bind Code.Keeps.any fun _ => bind (kfree_keeps _) fun _ =>
    bind Code.Keeps.any fun _ => kfree_keeps _

/-! ## Frames and address spaces -/

theorem critical_unlocked (l : Lock n) : KeepsUnlocked (critical l) := (critical_keeps l).unlocked

theorem criticalAny_unlocked (l : Lock n) : KeepsUnlocked (criticalAny l) :=
  (criticalAny_keeps l).unlocked

theorem klog_unlocked : KeepsUnlocked (klog : KCode n Unit) := klog_keeps.unlocked

theorem kmalloc_unlocked : KeepsUnlocked (kmalloc : KCode n Nat) := kmalloc_keeps.unlocked

theorem kfree_unlocked (ptr : Nat) : KeepsUnlocked (kfree ptr : KCode n Unit) :=
  (kfree_keeps ptr).unlocked

theorem vmmCreateAddressSpace_keeps : KeepsUnlocked (vmmCreateAddressSpace : KCode n Nat) := by
  refine bind (criticalAny_unlocked _) fun newPml4 => ?_
  split
  · exact pure 0
  · exact bind (critical_unlocked _) fun _ => pure newPml4

theorem ensureNextTable_keeps : KeepsUnlocked (ensureNextTable : KCode n Nat) := by
  refine bind Code.Keeps.any fun next => ?_
  split
  · exact pure next
  refine bind (criticalAny_unlocked _) fun newTable => ?_
  split
  · exact pure 0
  refine bind (criticalAny_unlocked _) fun found => ?_
  split
  · exact bind (critical_unlocked _) fun _ => pure found
  · exact pure newTable

theorem vmmMap_keeps (huge : Bool) : KeepsUnlocked (vmmMap huge : KCode n Unit) := by
  refine bind ensureNextTable_keeps fun pdpt => ?_
  split
  · exact pure ()
  refine bind ensureNextTable_keeps fun pd => ?_
  split
  · exact pure ()
  split
  · exact critical_unlocked _
  refine bind ensureNextTable_keeps fun pt => ?_
  split
  · exact pure ()
  · exact critical_unlocked _

theorem vmmCloneAddressSpace_keeps : KeepsUnlocked (vmmCloneAddressSpace : KCode n Nat) := by
  refine bind vmmCreateAddressSpace_keeps fun dstPml4 => ?_
  refine bind (Code.Keeps.loop ?_) fun _ => pure dstPml4
  refine bind ensureNextTable_keeps fun _ => Code.Keeps.loop ?_
  refine bind ensureNextTable_keeps fun _ => Code.Keeps.loop ?_
  refine bind Code.Keeps.any fun huge => ?_
  split
  · exact critical_unlocked _
  · exact bind ensureNextTable_keeps fun _ => Code.Keeps.loop (critical_unlocked _)

theorem vmmDestroyAddressSpace_keeps : KeepsUnlocked (vmmDestroyAddressSpace : KCode n Unit) := by
  have hfree : KeepsUnlocked (pmmFreeFrame : KCode n Unit) := critical_unlocked _
  have hpt : KeepsUnlocked (do Code.loop pmmFreeFrame; pmmFreeFrame : KCode n Unit) :=
    bind (Code.Keeps.loop hfree) fun _ => hfree
  exact bind (Code.Keeps.loop (bind (Code.Keeps.loop (bind (Code.Keeps.loop hpt) fun _ => hfree))
    fun _ => hfree)) fun _ => hfree

theorem elfLoad_keeps : KeepsUnlocked (elfLoad : KCode n Nat) := by
  refine bind Code.Keeps.any fun magic => ?_
  split
  · exact bind klog_unlocked fun _ => pure 0
  · refine bind vmmCreateAddressSpace_keeps fun pml4 => ?_
    refine bind (Code.Keeps.loop (Code.Keeps.loop ?_)) fun _ => pure _
    exact bind (criticalAny_unlocked _) fun _ => vmmMap_keeps false

/-! ## Files and windows -/

theorem vfsOpen_keeps : KeepsUnlocked (vfsOpen : KCode n Nat) := by
  refine bind (Code.Keeps.loop klog_unlocked) fun _ => bind Code.Keeps.any fun found => ?_
  split
  · exact pure 0
  · exact criticalAny_unlocked _

theorem vfsTransfer_keeps : KeepsUnlocked (vfsTransfer : KCode n Unit) := by
  refine bind (criticalAny_unlocked _) fun count => ?_
  split
  · exact pure ()
  · exact Code.Keeps.loop klog_unlocked

theorem windowCreate_keeps : KeepsUnlocked (windowCreate : KCode n Unit) := by
  have hbody : KeepsFree [.kmalloc, .klog, .serial]
      (do let _ ← kmalloc; Pure.pure () : KCode n Unit) := bind kmalloc_keeps fun _ => pure ()
  exact KeepsFree.unlocked (Code.Keeps.withLock (by simp) hbody)

theorem windowDestroyByPid_keeps : KeepsUnlocked (windowDestroyByPid : KCode n Unit) :=
  KeepsFree.unlocked (Code.Keeps.withLock (by simp) (Code.Keeps.loop freeWindow_keeps))

theorem windowRefresh_keeps : KeepsUnlocked (windowRefresh : KCode n Unit) := by
  refine bind Code.Keeps.any fun idle => ?_
  split
  · exact pure ()
  refine bind (criticalAny_unlocked _) fun unchanged => ?_
  split
  · exact pure ()
  · exact windowDestroyByPid_keeps

/-! ## The CPUs and their runqueues -/

theorem cpuGetCount_keeps : KeepsUnlocked (cpuGetCount : KCode n Nat) :=
  KeepsFree.unlocked (Code.Keeps.withLock List.not_mem_nil (pure n))

theorem leastLoaded_keeps {ok : Guard (Lock n) → Prop} (cs : List (Fin n)) (least : Fin n)
    (minLoad : BitVec 32) : (leastLoaded cs least minLoad).Keeps plainLock ok := by
  induction cs generalizing least minLoad with
  | nil => exact pure least
  | cons c rest ih =>
    refine bind Code.Keeps.get fun s => ?_
    dsimp only
    split
    · exact ih c _
    · exact ih least minLoad

/-- The section of `cpu_lock_all` takes no other lock. -/
theorem pickLeastLoadedCpu_keeps [NeZero n] :
    KeepsUnlocked (pickLeastLoadedCpu : KCode n (Fin n)) :=
  Code.Keeps.holding rfl (bind Code.Keeps.get fun _ => leastLoaded_keeps _ _ _)

theorem enqueueTask_keeps (c : Fin n) (task : TaskPtr) : KeepsUnlocked (enqueueTask c task) :=
  KeepsFree.unlocked (Code.Keeps.withLock List.not_mem_nil (Code.Keeps.modify _))

theorem dequeueTask_keeps (c : Fin n) : KeepsUnlocked (dequeueTask c) :=
  KeepsFree.unlocked (Code.Keeps.withLock List.not_mem_nil (Code.Keeps.modifyGet _))

/-! ## New tasks -/

theorem newTask_keeps : KeepsUnlocked (newTask : KCode n TaskPtr) :=
  bind kmalloc_unlocked fun _ =>
    bind (KeepsFree.unlocked (Code.Keeps.withLock List.not_mem_nil (Code.Keeps.modify _)))
      fun _ => pure _

theorem setTask_keeps (task : TaskPtr) (pml4 stack ustack : Nat) :
    KeepsUnlocked (setTask task pml4 stack ustack : KCode n Unit) :=
  bind (Code.Keeps.modify _) fun _ => Code.Keeps.start task

theorem assignTask_keeps [NeZero n] (task : TaskPtr) :
    KeepsUnlocked (assignTask task : KCode n Unit) :=
  bind pickLeastLoadedCpu_keeps fun target =>
    bind (Code.Keeps.modify _) fun _ => enqueueTask_keeps target task

theorem taskCreate_keeps [NeZero n] (cpu : Fin n) : KeepsUnlocked (taskCreate cpu) :=
  bind newTask_keeps fun _ => bind Code.Keeps.get fun _ => bind kmalloc_unlocked fun _ =>
    bind (setTask_keeps _ _ _ _) fun _ => assignTask_keeps _

theorem taskCreateUser_keeps [NeZero n] : KeepsUnlocked (taskCreateUser : KCode n Unit) :=
  bind newTask_keeps fun _ => bind vmmCreateAddressSpace_keeps fun _ =>
    bind kmalloc_unlocked fun _ => bind kmalloc_unlocked fun _ =>
      bind (setTask_keeps _ _ _ _) fun _ => assignTask_keeps _

theorem taskExec_keeps [NeZero n] : KeepsUnlocked (taskExec : KCode n Unit) := by
  refine bind elfLoad_keeps fun image => ?_
  split
  · exact pure ()
  · exact bind newTask_keeps fun _ => bind kmalloc_unlocked fun _ =>
      bind kmalloc_unlocked fun _ => bind (setTask_keeps _ _ _ _) fun _ => assignTask_keeps _

theorem taskExecFile_keeps [NeZero n] : KeepsUnlocked (taskExecFile : KCode n Unit) := by
  refine bind vfsOpen_keeps fun fd => ?_
  split
  · exact pure ()
  · exact bind (criticalAny_unlocked _) fun _ => bind kmalloc_unlocked fun buf =>
      bind vfsTransfer_keeps fun _ => bind (critical_unlocked _) fun _ =>
        bind taskExec_keeps fun _ => kfree_unlocked buf

theorem taskFork_keeps (cpu : Fin n) : KeepsUnlocked (taskFork cpu) := by
  refine bind Code.Keeps.get fun s => bind newTask_keeps fun child =>
    bind vmmCloneAddressSpace_keeps fun _ => bind kmalloc_unlocked fun _ =>
      bind Code.Keeps.get fun s' => ?_
  have hend : ∀ f, KeepsUnlocked (do Code.modify f; Code.start child; enqueueTask cpu child) :=
    fun f => bind (Code.Keeps.modify f) fun _ => bind (Code.Keeps.start child) fun _ =>
      enqueueTask_keeps cpu child
  dsimp only
  split
  · exact bind kmalloc_unlocked fun _ => hend _
  · exact bind (pure 0) fun _ => hend _

/-! ## The timer interrupt -/

theorem taskReap_keeps (task : TaskPtr) : KeepsUnlocked (taskReap task : KCode n Unit) := by
  refine bind Code.Keeps.get fun s => ?_
  have hend : KeepsUnlocked (do
      windowDestroyByPid
      kfree (s.tasks task).stackBottom
      kfree (s.tasks task).userStackBottom
      kfree task
      Code.modify (ZohoOs.taskReap task) : KCode n Unit) :=
    bind windowDestroyByPid_keeps fun _ => bind (kfree_unlocked _) fun _ =>
      bind (kfree_unlocked _) fun _ => bind (kfree_unlocked _) fun _ => Code.Keeps.modify _
  dsimp only
  split
  · exact bind vmmDestroyAddressSpace_keeps fun _ => hend
  · exact hend

theorem stealFrom_keeps (self : Fin n) (victims : List (Fin n)) :
    KeepsUnlocked (stealFrom self victims) := by
  induction victims with
  | nil => exact pure 0
  | cons victim rest ih =>
    refine bind (critical_unlocked _) fun _ => ?_
    split
    · exact ih
    refine bind (dequeueTask_keeps victim) fun task => ?_
    split
    · exact bind (Code.Keeps.modify _) fun _ => pure task
    · exact ih

theorem taskSteal_keeps (self : Fin n) : KeepsUnlocked (taskSteal self) :=
  bind cpuGetCount_keeps fun _ => stealFrom_keeps self _

/-- What a round of the selection loop does with the task it has taken. -/
theorem selectTaken_keeps {cpu : Fin n} {again : KCode n TaskPtr} (h : KeepsUnlocked again)
    (next : TaskPtr) : KeepsUnlocked (if next = 0 then Pure.pure 0 else do
      let s ← Code.get
      match (s.tasks next).state with
      | .exited => do
        taskReap next
        again
      | .ready => Pure.pure next
      | .running => do
        enqueueTask cpu next
        again) := by
  split
  · exact pure 0
  refine bind Code.Keeps.get fun s => ?_
  split
  · exact bind (taskReap_keeps next) fun _ => h
  · exact pure next
  · exact bind (enqueueTask_keeps cpu next) fun _ => h

theorem selectNext_keeps (cpu : Fin n) (rounds : Nat) : KeepsUnlocked (selectNext cpu rounds) := by
  induction rounds with
  | zero => exact Code.Keeps.hang
  | succ rounds ih =>
    refine bind (dequeueTask_keeps cpu) fun own => ?_
    dsimp only
    split
    · exact bind (taskSteal_keeps cpu) (selectTaken_keeps ih)
    · exact bind (pure own) (selectTaken_keeps ih)

/-- `task_schedule` switches with interrupts off and no lock held. -/
theorem taskSchedule_keeps (cpu : Fin n) (s : Sched n) : KeepsMasked (taskSchedule cpu s) := by
  unfold taskSchedule
  dsimp only
  split
  · exact pure ()
  refine bind (Code.Keeps.modify _) fun _ => ?_
  have hend : KeepsMasked (do
      let rounds ← Code.any
      let next ← selectNext cpu rounds
      Code.modify (ZohoOs.switchTo cpu next)
      let t ← Code.get
      Code.switchTask (s.current cpu) (t.current cpu) : KCode n Unit) :=
    bind Code.Keeps.any fun rounds => bind (selectNext_keeps cpu rounds).masked fun _ =>
      bind (Code.Keeps.modify _) fun _ => bind Code.Keeps.get fun _ => Code.Keeps.switchTask _ _
  split
  · refine bind (Code.Keeps.modify _) fun _ => ?_
    split
    · exact bind (enqueueTask_keeps cpu _).masked fun _ => hend
    · exact hend
  · exact hend

theorem timerInterrupt_keeps (cpu : Fin n) (s : Sched n) : KeepsMasked (timerInterrupt cpu s) := by
  refine bind (Code.Keeps.modify _) fun _ => ?_
  split
  · exact taskSchedule_keeps cpu _
  · exact pure ()

theorem taskYield_keeps (cpu : Fin n) : KeepsUnlocked (taskYield cpu) :=
  bind (Code.Keeps.modify _) fun _ =>
    Code.Keeps.masked (bind Code.Keeps.get fun s => timerInterrupt_keeps cpu s)

/-- The interrupt schedules: a task is current, and it has to give way. -/
def Switches (cpu : Fin n) (s : Sched n) : Prop := s.current cpu ≠ 0 ∧ needsSchedule cpu s

instance Switches.decidable (cpu : Fin n) (s : Sched n) : Decidable (Switches cpu s) :=
  inferInstanceAs (Decidable (_ ∧ _))

theorem taskTimerTick_current (cpu : Fin n) (s : Sched n) :
    (taskTimerTick cpu s).current cpu = s.current cpu := by
  unfold taskTimerTick taskRequestReschedule Sched.current
  dsimp only
  split_ifs <;> simp [Sched.updateCpu, Sched.updateTask]

/-- An interrupt that does not schedule takes no lock. -/
theorem timerInterrupt_quiet {cpu : Fin n} {s : Sched n} (h : ¬ Switches cpu s) :
    (timerInterrupt cpu s).Keeps plainLock fun _ => True := by
  refine bind (Code.Keeps.modify _) fun _ => ?_
  split
  · rename_i hneeds
    have hcurrent : s.current cpu = 0 := by
      by_contra hne
      exact h ⟨hne, hneeds⟩
    unfold taskSchedule
    simp only [taskTimerTick_current, hcurrent, if_true]
    exact pure ()
  · exact pure ()

/-! ## The other calls -/

theorem taskGetAllInfo_keeps : KeepsUnlocked (taskGetAllInfo : KCode n Unit) := by
  refine bind cpuGetCount_keeps fun _ => ?_
  induction List.finRange n with
  | nil => exact pure ()
  | cons c rest ih =>
    exact bind (bind (critical_unlocked _) fun _ => critical_unlocked _) fun _ => ih

theorem sysCreateWindow_keeps : KeepsUnlocked (sysCreateWindow : KCode n Unit) :=
  bind windowCreate_keeps fun _ => bind kmalloc_unlocked fun _ =>
    bind (critical_unlocked _) fun _ => bind (critical_unlocked _) fun _ =>
      Code.Keeps.loop (vmmMap_keeps false)

theorem sysExit_keeps (cpu : Fin n) : KeepsUnlocked (sysExit cpu) :=
  bind (Code.Keeps.modify _) fun _ => taskYield_keeps cpu

theorem sysGetSysInfo_keeps : KeepsUnlocked (sysGetSysInfo : KCode n Unit) :=
  bind (criticalAny_unlocked _) fun _ => bind cpuGetCount_keeps fun _ =>
    bind (Code.Keeps.loop (critical_unlocked _)) fun _ => Code.Keeps.loop (critical_unlocked _)

theorem terminateTask_keeps (cpu : Fin n) : KeepsMasked (terminateTask cpu) :=
  bind (Code.Keeps.modify _) fun _ => bind Code.Keeps.get fun s => taskSchedule_keeps cpu s

theorem handlePageFault_keeps (cpu : Fin n) : KeepsMasked (handlePageFault cpu) := by
  refine bind Code.Keeps.get fun s => ?_
  dsimp only
  split
  · exact pure ()
  refine bind Code.Keeps.any fun cow => ?_
  split
  · refine bind (criticalAny_unlocked _).masked fun refs => ?_
    split
    · exact bind (criticalAny_unlocked _).masked fun _ =>
        bind (vmmMap_keeps false).masked fun _ => (critical_unlocked _).masked
    · exact (vmmMap_keeps false).masked
  · have hend : KeepsMasked (do klog; terminateTask cpu : KCode n Unit) :=
      bind klog_unlocked.masked fun _ => terminateTask_keeps cpu
    refine bind klog_unlocked.masked fun _ => bind Code.Keeps.any fun user => ?_
    split
    · exact bind Code.Keeps.hang fun _ => hend
    · exact hend

theorem handleException_keeps (cpu : Fin n) : KeepsMasked (handleException cpu) := by
  have hpanic : KeepsMasked (do Code.loop serialPrint; Code.hang : KCode n Unit) :=
    bind (Code.Keeps.loop (critical_unlocked _).masked) fun _ => Code.Keeps.hang
  refine bind Code.Keeps.any fun user => ?_
  split
  · refine bind klog_unlocked.masked fun _ => bind Code.Keeps.get fun s => ?_
    dsimp only
    split
    · exact bind (terminateTask_keeps cpu) fun _ => pure ()
    · exact hpanic
  · exact hpanic

/-! ## Runs -/

theorem KernelCall.code_keeps [NeZero n] (cpu : Fin n) (c : KernelCall) :
    KeepsUnlocked (c.code cpu) := by
  -- one lemma for each call
  cases c with
  | taskCreate => exact taskCreate_keeps cpu
  | taskCreateUser => exact taskCreateUser_keeps
  | taskExec => exact taskExec_keeps
  | taskExecFile => exact taskExecFile_keeps
  | taskFork => exact taskFork_keeps cpu
  | taskYield => exact taskYield_keeps cpu
  | taskGetAllInfo => exact taskGetAllInfo_keeps
  | cpuGetCount => exact bind cpuGetCount_keeps fun _ => pure ()
  | kmalloc => exact bind kmalloc_unlocked fun _ => pure ()
  | kfree ptr => exact kfree_unlocked ptr
  | vmmCreateAddressSpace => exact bind vmmCreateAddressSpace_keeps fun _ => pure ()
  | vmmCloneAddressSpace => exact bind vmmCloneAddressSpace_keeps fun _ => pure ()
  | vmmDestroyAddressSpace => exact vmmDestroyAddressSpace_keeps
  | vmmMap huge => exact vmmMap_keeps huge
  | klog => exact klog_unlocked
  | vfsOpen => exact bind vfsOpen_keeps fun _ => pure ()
  | vfsTransfer => exact vfsTransfer_keeps
  | windowCreate => exact windowCreate_keeps
  | windowRefresh => exact windowRefresh_keeps
  | sysCreateWindow => exact sysCreateWindow_keeps
  | sysExit => exact sysExit_keeps cpu
  | sysGetSysInfo => exact sysGetSysInfo_keeps
  | pageFault => exact Code.Keeps.masked (handlePageFault_keeps cpu)
  | exception => exact Code.Keeps.masked (handleException_keeps cpu)
  | pmmAllocFrame | pmmGetRef | pmmGetFreeCount | vfsSize =>
    exact bind (criticalAny_unlocked _) fun _ => pure ()
  | cpuGetByIndex | kmallocGetStats | pmmFreeFrame | pmmRefInc | vmmUnmap | klogSetLevel
  | serialPrint | vfsClose | windowAccess => exact critical_unlocked _

/-- **The discipline of the kernel**: each call leaves the locks as they were and takes none twice,
the timer interrupt switches tasks with no lock held, and takes none where it does not switch. -/
theorem kernel_disciplined [NeZero n] (cpu : Fin n) :
    (kernel cpu).Disciplined plainLock (Switches cpu) where
  call := by
    rintro (c | c)
    · exact c.code_keeps cpu
    · exact Code.Keeps.masked (c.code_keeps cpu).masked
  interrupt := timerInterrupt_keeps cpu
  quiet _ := timerInterrupt_quiet

/-- A step that does not schedule another task inside the section of `cpu_lock_all`: no timer
interrupt that schedules comes while a lock is held. -/
def Undisturbed (cpu : Fin n) (s : State (Sched n) (Lock n) TaskPtr) (op : Op Entry) : Prop :=
  ¬ op.Preempts (Switches cpu) s

instance Undisturbed.decidable (cpu : Fin n) (s : State (Sched n) (Lock n) TaskPtr)
    (op : Op Entry) : Decidable (Undisturbed cpu s op) :=
  inferInstanceAs (Decidable (¬ _))

/-- **No self-deadlock**: from a CPU that holds no lock, with any calls and any timer interrupts,
no state is reached in which the next instruction takes a lock the CPU holds, as long as no
interrupt schedules another task inside the section of `cpu_lock_all`. -/
theorem kernelRun_not_selfDeadlock [NeZero n] (cpu : Fin n) (sched : Sched n) (interrupts : Bool)
    {ops : List (Op Entry)} {t : State (Sched n) (Lock n) TaskPtr}
    (h : Run (Restrict (Undisturbed cpu) (step (kernel cpu))) (State.idle sched interrupts) ops t) :
    ¬ t.SelfDeadlock :=
  run_not_selfDeadlock (kernel_disciplined cpu) (State.idle_follows sched interrupts) h

/-! ## Two commands and a tick -/

/-- A machine with one CPU, which runs its idle task: the main loop of `kmain`. -/
def bootSched : Sched 1 where
  tasks _ := ⟨0, 0, 0, 0, 0, 0, .running, 0, 0, 0, 0⟩
  cpus _ := ⟨0, 0x1000018, 0x1000018, false, 0, 0, 0, 0, 0, ⟨0, 0, 0⟩⟩
  nextId := 1
  live := ∅
  reaped := []

/-- Instructions, all with the same input. -/
def execs (k input : Nat) : List (Op Entry) := List.replicate k (.exec input)

/-- The shell starts the dashboard, and the tick that comes then switches to it. -/
def commandRun : List (Op Entry) :=
  .call (.direct .taskCreate) :: execs 11 0x1000100 ++ execs 16 0x1000200 ++ .interrupt :: execs 15 1

theorem kernelRun_not_selfDeadlock_command : ∃ t,
    Run (Restrict (Undisturbed 0) (step (kernel 0))) (State.idle bootSched true) commandRun t ∧
      ¬ t.SelfDeadlock := by
  have hallowed : Allowed (fun s op => Undisturbed 0 s op ∧ op.Valid s) (Op.run (kernel 0))
      (State.idle bootSched true) commandRun := by decide +kernel
  have hrun : Run (Restrict (Undisturbed 0) (step (kernel 0))) (State.idle bootSched true)
      commandRun _ := hallowed.run.mono fun _ _ _ h => ⟨h.1.1, h.1.2, h.2⟩
  exact ⟨_, hrun, kernelRun_not_selfDeadlock 0 bootSched true hrun⟩

/-- The shell starts the dashboard twice, and the tick comes in the second `cpu_lock_all`: the
dashboard runs, and asks for the number of CPUs. -/
def deadlockRun : List (Op Entry) :=
  .call (.direct .taskCreate) :: execs 11 0x1000100 ++ execs 16 0x1000200 ++
  .call (.direct .taskCreate) :: execs 11 0x1005000 ++ execs 8 0x1005100 ++
  .interrupt :: execs 15 1 ++
  .call (.direct .windowCreate) :: execs 9 0x100A000 ++
  .call (.direct .kmalloc) :: execs 5 0x100B000 ++
  .call (.direct .sysGetSysInfo) :: execs 6 1000

/-- **A self-deadlock**: the CPU takes `cpu_lock` while an interrupted task of its own holds it. -/
theorem kernelRun_selfDeadlock : ∃ t,
    Run (step (kernel 0)) (State.idle bootSched true) deadlockRun t ∧ t.SelfDeadlock :=
  ⟨_, Allowed.run (by decide +kernel), by decide +kernel⟩

end ZohoOs.KernelCode
