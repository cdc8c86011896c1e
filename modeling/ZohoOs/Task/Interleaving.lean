import ZohoOs.Task.Scheduler
import ZohoOs.Lib.TransitionSystem

/-!
# Scheduling step by step

`task_schedule` as the steps between which the calls of other CPUs can come: each takes a runqueue's
lock at most once. The calls that take at most one lock are steps of their own, and whole calls of
`task_schedule` are runs of these steps.

## Main definitions

* `Phase`: where a CPU is in `task_schedule`
* `Machine`, `machineStep`: the steps of all CPUs, in any order
* `SchedOp`, `schedStep`: whole calls

## Main results

* `machineRun_unique`: the steps determine the state
* `schedRun_machineRun`: each run of whole calls is a run of steps
-/

namespace ZohoOs

open TransitionSystem

variable {n : Nat}

/-- Where a CPU is in `task_schedule`. -/
inductive Phase (n : Nat)
  /-- Not in it: its current task runs. -/
  | running
  /-- About to take from its own runqueue. -/
  | pull
  /-- In `task_steal`, with these CPUs left. -/
  | steal (victims : List (Fin n))
  /-- About to look at the state of the task it took. -/
  | check (next : TaskPtr)
  /-- About to put a task back that is not ready. -/
  | putBack (next : TaskPtr)
  /-- About to switch to a task, or to its idle task where this is 0. -/
  | commit (next : TaskPtr)
  deriving DecidableEq

/-- The scheduler, and where each CPU is. -/
structure Machine (n : Nat) where
  sched : Sched n
  phase : Fin n → Phase n

/-- What a CPU in `task_schedule` does next, and where it is then. -/
def resume (cpu : Fin n) (s : Sched n) : Phase n → Sched n × Phase n
  | .running => (s, .running)
  | .pull =>
    let (next, s) := dequeueTask cpu s
    (s, if next ≠ 0 then .check next else .steal (List.finRange n))
  | .steal [] => (s, .commit 0)
  | .steal (victim :: rest) =>
    if victim = cpu then (s, .steal rest)
    else
      let (task, s) := dequeueTask victim s
      if task ≠ 0 then
        (s.updateTask task fun t => { t with cpuId := (s.cpus cpu).id.toNat }, .check task)
      else (s, .steal rest)
  | .check next =>
    match (s.tasks next).state with
    | .exited => (taskReap next s, .pull)
    | .ready => (s, .commit next)
    | .running => (s, .putBack next)
  | .putBack next => (enqueueTask cpu next s, .pull)
  | .commit next => (switchTo cpu next s, .running)

def Machine.move (m : Machine n) (cpu : Fin n) (out : Sched n × Phase n) : Machine n :=
  ⟨out.1, Function.update m.phase cpu out.2⟩

/-- The steps. A new task goes to any CPU: the loads it was chosen by may have changed since. -/
inductive MachineOp (n : Nat)
  | create (target : Fin n) (task : TaskPtr) (pml4 stack ustack : Nat)
  | fork (cpu : Fin n) (task : TaskPtr) (pml4 kstack ustack : Nat)
  | sysExit (cpu : Fin n)
  | terminate (cpu : Fin n)
  | tick (cpu : Fin n)
  /-- `task_schedule` is called, and requeues the outgoing task. -/
  | enter (cpu : Fin n) (currentRsp : BitVec 64)
  | resume (cpu : Fin n)

/-- The runqueue an operation puts a new task into, and the task. -/
def MachineOp.spawns : MachineOp n → Option (Fin n × TaskPtr)
  | .create target task _ _ _ => some (target, task)
  | .fork cpu task _ _ _ => some (cpu, task)
  | _ => none

/-- The CPU whose current task an operation ends. -/
def MachineOp.exits : MachineOp n → Option (Fin n)
  | .sysExit cpu | .terminate cpu => some cpu
  | _ => none

def MachineOp.run : MachineOp n → Machine n → Machine n
  | .create target task pml4 stack ustack, m =>
    { m with sched := assignTask target task (buildTask task pml4 stack ustack m.sched) }
  | .fork cpu task pml4 kstack ustack, m =>
    { m with sched := taskFork cpu task pml4 kstack ustack m.sched }
  | .sysExit cpu, m => { m with sched := ZohoOs.sysExit cpu m.sched }
  | .terminate cpu, m => { m with sched := ZohoOs.terminate cpu m.sched }
  | .tick cpu, m => { m with sched := taskTimerTick cpu m.sched }
  | .enter cpu currentRsp, m =>
    if m.sched.current cpu = 0 then m
    else m.move cpu (requeueCurrent cpu currentRsp m.sched, .pull)
  | .resume cpu, m => m.move cpu (ZohoOs.resume cpu m.sched (m.phase cpu))

/-- What `kmalloc` can return for a new `task_t`: `NULL`, or a block of the heap that is free. -/
def Sched.Fresh (s : Sched n) (task : TaskPtr) : Prop :=
  task = 0 ∨ (InHeap task ∧ task ∉ s.live)

/-- Running code makes the calls, and a CPU goes on with the one it is in. -/
def MachineOp.Valid (m : Machine n) : MachineOp n → Prop
  | .create _ task _ _ _ => m.sched.Fresh task
  | .fork cpu task _ _ _ => m.phase cpu = .running ∧ m.sched.Fresh task
  | .sysExit cpu | .terminate cpu | .tick cpu | .enter cpu _ => m.phase cpu = .running
  | .resume _ => True

abbrev machineStep : Machine n → MachineOp n → Machine n → Prop :=
  Restrict MachineOp.Valid (Apply MachineOp.run)

/-- The steps determine the state they lead to. -/
theorem machineRun_unique {m u w : Machine n} {ops : List (MachineOp n)}
    (h : Run machineStep m ops u) (k : Run machineStep m ops w) : u = w :=
  Run.unique (fun _ _ _ _ hs hs' => hs.2.trans hs'.2.symm) h k

instance (s : Sched n) (task : TaskPtr) : Decidable (s.Fresh task) :=
  inferInstanceAs (Decidable (_ ∨ _))

instance (m : Machine n) (op : MachineOp n) : Decidable (op.Valid m) := by
  cases op <;> unfold MachineOp.Valid <;> infer_instance

/-- The state after some steps. -/
def Machine.runAll : Machine n → List (MachineOp n) → Machine n
  | m, [] => m
  | m, op :: ops => (op.run m).runAll ops

/-- Each of the steps is allowed where it is taken. -/
def Machine.Allowed : Machine n → List (MachineOp n) → Prop
  | _, [] => True
  | m, op :: ops => op.Valid m ∧ (op.run m).Allowed ops

instance Machine.decidableAllowed : (m : Machine n) → (ops : List (MachineOp n)) →
    Decidable (m.Allowed ops)
  | _, [] => inferInstanceAs (Decidable True)
  | m, op :: ops =>
    have := decidableAllowed (op.run m) ops
    inferInstanceAs (Decidable (op.Valid m ∧ (op.run m).Allowed ops))

theorem Machine.Allowed.run {m : Machine n} {ops : List (MachineOp n)} (h : m.Allowed ops) :
    Run machineStep m ops (m.runAll ops) := by
  induction ops generalizing m with
  | nil => exact Run.nil m
  | cons op ops ih => exact Run.cons ⟨h.1, rfl⟩ (ih h.2)

/-! ## Whole calls -/

/-- The calls, each atomic. -/
inductive SchedOp (n : Nat)
  | create (cpu : Fin n) (task : TaskPtr) (stack : Nat)
  | createUser (task : TaskPtr) (pml4 ustack kstack : Nat)
  | exec (image : Option Nat) (task : TaskPtr) (ustack kstack : Nat)
  | fork (cpu : Fin n) (task : TaskPtr) (pml4 kstack ustack : Nat)
  | sysExit (cpu : Fin n)
  | terminate (cpu : Fin n)
  | tick (cpu : Fin n)
  | schedule (cpu : Fin n) (currentRsp : BitVec 64)

/-- What a call does. `task_schedule` may not return. -/
def SchedOp.Returns [NeZero n] (s : Sched n) : SchedOp n → Sched n → Prop
  | .create cpu task stack, t => t = taskCreate cpu task stack s
  | .createUser task pml4 ustack kstack, t => t = taskCreateUser task pml4 ustack kstack s
  | .exec image task ustack kstack, t => t = taskExec image task ustack kstack s
  | .fork cpu task pml4 kstack ustack, t => t = taskFork cpu task pml4 kstack ustack s
  | .sysExit cpu, t => t = ZohoOs.sysExit cpu s
  | .terminate cpu, t => t = ZohoOs.terminate cpu s
  | .tick cpu, t => t = taskTimerTick cpu s
  | .schedule cpu currentRsp, t => ∃ fuel rsp, taskSchedule fuel cpu currentRsp s = some (rsp, t)

/-- The `task_t` a call allocates. -/
def SchedOp.newTask : SchedOp n → Option TaskPtr
  | .create _ task _ | .createUser task _ _ _ | .exec (some _) task _ _ | .fork _ task _ _ _ =>
    some task
  | _ => none

def SchedOp.Valid (s : Sched n) : SchedOp n → Prop
  | .create _ task _ | .createUser task _ _ _ | .exec (some _) task _ _ | .fork _ task _ _ _ =>
    s.Fresh task
  | .exec none _ _ _ | .sysExit _ | .terminate _ | .tick _ | .schedule _ _ => True

abbrev schedStep [NeZero n] : Sched n → SchedOp n → Sched n → Prop :=
  Restrict SchedOp.Valid SchedOp.Returns

/-! ## Calls as runs of steps -/

/-- No CPU is in `task_schedule`. -/
def Sched.idleMachine (s : Sched n) : Machine n := ⟨s, fun _ => .running⟩

section Calls

variable {cpu : Fin n}

theorem Machine.move_move (m : Machine n) (out out' : Sched n × Phase n) :
    (m.move cpu out).move cpu out' = m.move cpu out' := by
  simp [Machine.move]

theorem Machine.move_phase (m : Machine n) (out : Sched n × Phase n) :
    (m.move cpu out).phase cpu = out.2 := Function.update_self _ _ _

/-- The machine goes from `m` to `m'` by steps of one CPU in `task_schedule`. -/
def Resumes (cpu : Fin n) (m m' : Machine n) : Prop :=
  ∃ ls, Run machineStep m ls m' ∧ ∀ l ∈ ls, l = .resume cpu

theorem Resumes.trans {m m' m'' : Machine n} (h : Resumes cpu m m') (k : Resumes cpu m' m'') :
    Resumes cpu m m'' := by
  obtain ⟨ls, hrun, hls⟩ := h
  obtain ⟨ks, hrun', hks⟩ := k
  exact ⟨_, hrun.append hrun', fun l hl => (List.mem_append.mp hl).elim (hls l) (hks l)⟩

/-- One step of a CPU in `task_schedule`. -/
theorem Machine.resumes (m : Machine n) (cpu : Fin n) (s : Sched n) (p : Phase n) :
    Resumes cpu (m.move cpu (s, p)) (m.move cpu (resume cpu s p)) := by
  refine ⟨[.resume cpu], Run.single ⟨trivial, ?_⟩, fun l hl => List.mem_singleton.mp hl⟩
  rw [Apply, MachineOp.run, Machine.move_phase, Machine.move_move]
  rfl

/-- The steps of `task_steal`. -/
theorem Machine.stealFrom_resumes (m : Machine n) (cpu : Fin n) (victims : List (Fin n))
    (s : Sched n) : Resumes cpu (m.move cpu (s, .steal victims))
      (m.move cpu ((stealFrom cpu victims s).2,
        if (stealFrom cpu victims s).1 = 0 then .commit 0
        else .check (stealFrom cpu victims s).1)) := by
  induction victims generalizing s with
  | nil => exact m.resumes cpu s (.steal [])
  | cons victim rest ih =>
    have hstep := m.resumes cpu s (.steal (victim :: rest))
    rw [resume] at hstep
    rw [stealFrom]
    by_cases hself : victim = cpu
    · rw [if_pos hself] at hstep ⊢
      exact hstep.trans (ih s)
    · rw [if_neg hself] at hstep ⊢
      simp only at hstep ⊢
      by_cases htask : (dequeueTask victim s).1 = 0
      · rw [if_neg (not_not.mpr htask)] at hstep ⊢
        exact hstep.trans (ih (dequeueTask victim s).2)
      · rw [if_pos htask] at hstep ⊢
        rw [if_neg htask]
        exact hstep

/-- The steps of the selection loop. -/
theorem Machine.selectNext_resumes (m : Machine n) {fuel : Nat} {s : Sched n}
    {out : TaskPtr × Sched n} (h : selectNext cpu fuel s = some out) :
    Resumes cpu (m.move cpu (s, .pull)) (m.move cpu (out.2, .commit out.1)) := by
  induction fuel generalizing s with
  | zero => cases h
  | succ fuel ih =>
    -- up to the task it takes, from its own runqueue or another's
    have htook : Resumes cpu (m.move cpu (s, .pull)) (m.move cpu
        ((if (dequeueTask cpu s).1 = 0 then taskSteal cpu (dequeueTask cpu s).2
          else dequeueTask cpu s).2,
        if (if (dequeueTask cpu s).1 = 0 then taskSteal cpu (dequeueTask cpu s).2
          else dequeueTask cpu s).1 = 0 then .commit 0
        else .check (if (dequeueTask cpu s).1 = 0 then taskSteal cpu (dequeueTask cpu s).2
          else dequeueTask cpu s).1)) := by
      have hstep := m.resumes cpu s .pull
      rw [resume] at hstep
      simp only at hstep
      by_cases hown : (dequeueTask cpu s).1 = 0
      · rw [if_neg (not_not.mpr hown)] at hstep
        simp only [if_pos hown]
        exact hstep.trans (m.stealFrom_resumes cpu (List.finRange n) (dequeueTask cpu s).2)
      · rw [if_pos hown] at hstep
        simp only [if_neg hown]
        exact hstep
    rw [selectNext] at h
    simp only at h
    generalize (if (dequeueTask cpu s).1 = 0 then taskSteal cpu (dequeueTask cpu s).2
      else dequeueTask cpu s) = took at htook h
    by_cases hnone : took.1 = 0
    · rw [if_pos hnone] at htook h
      cases h
      exact htook
    · rw [if_neg hnone] at htook h
      have hstep := m.resumes cpu took.2 (.check took.1)
      rw [resume] at hstep
      cases hstate : (took.2.tasks took.1).state with
      | exited =>
        simp only [hstate] at h hstep
        exact (htook.trans hstep).trans (ih h)
      | ready =>
        simp only [hstate] at h hstep
        cases h
        exact htook.trans hstep
      | running =>
        simp only [hstate] at h hstep
        have hback := m.resumes cpu took.2 (.putBack took.1)
        exact ((htook.trans hstep).trans hback).trans (ih h)

/-- A call of `task_schedule` is its first part, and steps of its CPU. -/
theorem taskSchedule_resumes {s t : Sched n} {fuel : Nat} {currentRsp rsp : BitVec 64}
    (h : taskSchedule fuel cpu currentRsp s = some (rsp, t)) :
    ∃ m, machineStep s.idleMachine (.enter cpu currentRsp) m ∧ Resumes cpu m t.idleMachine := by
  have henter : machineStep s.idleMachine (.enter cpu currentRsp) _ := ⟨rfl, rfl⟩
  refine ⟨_, henter, ?_⟩
  rw [MachineOp.run]
  rw [taskSchedule] at h
  by_cases hcur : s.current cpu = 0
  · rw [if_pos hcur] at h
    rw [if_pos (show s.idleMachine.sched.current cpu = 0 from hcur)]
    cases h
    exact ⟨[], Run.nil _, fun l hl => by cases hl⟩
  · rw [if_neg hcur] at h
    rw [if_neg (show ¬ s.idleMachine.sched.current cpu = 0 from hcur)]
    obtain ⟨out, hsel, hout⟩ := Option.map_eq_some_iff.mp h
    have hlast := s.idleMachine.resumes cpu out.2 (.commit out.1)
    have hend : s.idleMachine.move cpu (resume cpu out.2 (.commit out.1)) = t.idleMachine := by
      have ht : switchTo cpu out.1 out.2 = t := congrArg Prod.snd hout
      rw [resume, ht]
      simp [Machine.move, Sched.idleMachine]
    rw [hend] at hlast
    exact (s.idleMachine.selectNext_resumes hsel).trans hlast

/-- A call that allocates a task is one step. -/
theorem schedStep_spawns [NeZero n] {s t : Sched n} {op : SchedOp n} {task : TaskPtr}
    (h : schedStep s op t) (hnew : op.newTask = some task) :
    ∃ l target, machineStep s.idleMachine l t.idleMachine ∧ l.spawns = some (target, task) := by
  obtain ⟨hvalid, hret⟩ := h
  have hone : ∀ (l : MachineOp n) (target : Fin n), MachineOp.Valid s.idleMachine l →
      l.spawns = some (target, task) → ∃ l' target', machineStep s.idleMachine l'
        (l.run s.idleMachine) ∧ l'.spawns = some (target', task) :=
    fun l target hl hspawns => ⟨l, target, ⟨hl, rfl⟩, hspawns⟩
  -- only the calls that make a task have one: it goes to the CPU with the least load, or to its parent's
  cases op with
  | create cpu p stack =>
    cases hnew
    obtain rfl := hret
    let built := buildTask task (s.cpus cpu).cr3 stack 0 s
    exact hone (.create (pickLeastLoadedCpu built) task (s.cpus cpu).cr3 stack 0) _ hvalid rfl
  | createUser p pml4 ustack kstack =>
    cases hnew
    obtain rfl := hret
    let built := buildTask task pml4 kstack ustack s
    exact hone (.create (pickLeastLoadedCpu built) task pml4 kstack ustack) _ hvalid rfl
  | exec image p ustack kstack =>
    cases image with
    | none => cases hnew
    | some pml4 =>
      cases hnew
      obtain rfl := hret
      let built := buildTask task pml4 kstack ustack s
      exact hone (.create (pickLeastLoadedCpu built) task pml4 kstack ustack) _ hvalid rfl
  | fork cpu p pml4 kstack ustack =>
    cases hnew
    obtain rfl := hret
    exact hone (.fork cpu task pml4 kstack ustack) _ ⟨rfl, hvalid⟩ rfl
  | sysExit cpu => cases hnew
  | terminate cpu => cases hnew
  | tick cpu => cases hnew
  | schedule cpu currentRsp => cases hnew

/-- The steps of a call allocate what the call does. -/
theorem schedStep_machineRun [NeZero n] {s t : Sched n} {op : SchedOp n}
    (h : schedStep s op t) : ∃ ls, Run machineStep s.idleMachine ls t.idleMachine ∧
      ∀ l ∈ ls, ∀ target task, l.spawns = some (target, task) → op.newTask = some task := by
  cases hnew : op.newTask with
  | some task =>
    obtain ⟨l, target, hstep, hspawns⟩ := schedStep_spawns h hnew
    refine ⟨[l], Run.single hstep, fun l' hl' target' task' hl => ?_⟩
    obtain rfl := List.mem_singleton.mp hl'
    rw [hspawns] at hl
    cases hl
    rfl
  | none =>
    obtain ⟨hvalid, hret⟩ := h
    -- All calls but `schedule` are one step of the machine.
    have hone : ∀ l : MachineOp n, MachineOp.Valid s.idleMachine l → l.spawns = none →
        ∃ ls, Run machineStep s.idleMachine ls (l.run s.idleMachine) ∧
          ∀ l ∈ ls, ∀ target task, l.spawns = some (target, task) → none = some task := by
      intro l hl hnone
      refine ⟨[l], Run.single ⟨hl, rfl⟩, fun l' hl' target task hspawns => ?_⟩
      rw [List.mem_singleton.mp hl', hnone] at hspawns
      cases hspawns
    cases op with
    | create cpu p stack => cases hnew
    | createUser p pml4 ustack kstack => cases hnew
    | exec image p ustack kstack =>
      cases image with
      | none =>
        obtain rfl := hret
        exact ⟨[], Run.nil _, fun l hl => by cases hl⟩
      | some pml4 => cases hnew
    | fork cpu p pml4 kstack ustack => cases hnew
    | sysExit cpu =>
      obtain rfl := hret
      exact hone (.sysExit cpu) rfl rfl
    | terminate cpu =>
      obtain rfl := hret
      exact hone (.terminate cpu) rfl rfl
    | tick cpu =>
      obtain rfl := hret
      exact hone (.tick cpu) rfl rfl
    | schedule cpu currentRsp =>
      obtain ⟨fuel, rsp, hsched⟩ := hret
      -- The call is its entry and as many resumed steps as its loop takes.
      obtain ⟨m, henter, ls, hrun, hls⟩ := taskSchedule_resumes hsched
      refine ⟨_, Run.cons henter hrun, fun l hl target task hspawns => ?_⟩
      rcases List.mem_cons.mp hl with rfl | hl
      · cases hspawns
      · rw [hls l hl] at hspawns
        cases hspawns

/-- **Each run of whole calls is a run of steps**, which allocate what the calls do. -/
theorem schedRun_machineRun [NeZero n] {s t : Sched n} {ops : List (SchedOp n)}
    (h : Run schedStep s ops t) : ∃ ls, Run machineStep s.idleMachine ls t.idleMachine ∧
      ∀ l ∈ ls, ∀ target task, l.spawns = some (target, task) →
        ∃ op ∈ ops, op.newTask = some task := by
  induction h with
  | nil => exact ⟨[], Run.nil _, fun l hl => by cases hl⟩
  | @snoc t u ops op _ hstep ih =>
    obtain ⟨ls, hrun, hls⟩ := ih
    obtain ⟨ms, hmore, hms⟩ := schedStep_machineRun hstep
    refine ⟨_, hrun.append hmore, fun l hl target task hspawns => ?_⟩
    rcases List.mem_append.mp hl with hl | hl
    · obtain ⟨op', hop', hnew⟩ := hls l hl target task hspawns
      exact ⟨op', List.mem_append_left _ hop', hnew⟩
    · exact ⟨op, List.mem_append_right _ (List.mem_singleton_self op), hms l hl target task hspawns⟩

end Calls

end ZohoOs
