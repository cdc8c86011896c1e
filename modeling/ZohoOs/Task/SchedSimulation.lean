import ZohoOs.Task.SchedView
import ZohoOs.Task.Runqueues

/-!
# The linked runqueues simulate the lists

Each step of the machine is a step over lists, with the list of each runqueue read off its links.

## Main definitions

* `Sched.view`: the scheduler over lists that a machine stands for
* `Simulated`: the lists are those of the runqueues, and keep the invariant

## Main results

* `Simulated.step`, `machineRun_simulated`: steps and runs
-/

namespace ZohoOs

open TransitionSystem LinkedQueue Placement

variable {n : Nat}

/-- The scheduler over lists that `s` stands for, where `q` are the lists of its runqueues. -/
def Sched.view (s : Sched n) (phase : Fin n → Phase n) (q : Fin n → List TaskPtr) : SchedView n where
  queue := q
  tail c := (s.rq c).tail
  count c := (s.rq c).count
  phase := phase
  current := s.current
  idle c := (s.cpus c).idleTask
  state p := (s.tasks p).state
  id p := (s.tasks p).id
  live := s.live
  nextId := s.nextId

def Machine.view (m : Machine n) (q : Fin n → List TaskPtr) : SchedView n := m.sched.view m.phase q

/-- The lists `q` are the runqueues of the machine, and keep the invariant. -/
structure Simulated (m : Machine n) (q : Fin n → List TaskPtr) : Prop where
  queues : Queues m.sched q
  inv : ViewInv (m.view q)

section Views

variable {s : Sched n} {phase : Fin n → Phase n} {q : Fin n → List TaskPtr}

/-- Where the fields a view reads are the same, so is the view. -/
theorem Sched.view_congr {s' : Sched n} (hrq : ∀ c, s'.rq c = s.rq c)
    (hcur : ∀ c, s'.current c = s.current c)
    (hidle : ∀ c, (s'.cpus c).idleTask = (s.cpus c).idleTask)
    (hstate : ∀ p, (s'.tasks p).state = (s.tasks p).state)
    (hid : ∀ p, (s'.tasks p).id = (s.tasks p).id) (hlive : s'.live = s.live)
    (hnext : s'.nextId = s.nextId) : s'.view phase q = s.view phase q := by
  simp only [Sched.view, hrq, funext hcur, hidle, hstate, hid, hlive, hnext]

/-- Updating a task, but not its state or id. -/
theorem Sched.view_updateTask {p : TaskPtr} {f : Task → Task}
    (hstate : (f (s.tasks p)).state = (s.tasks p).state)
    (hid : (f (s.tasks p)).id = (s.tasks p).id) :
    (s.updateTask p f).view phase q = s.view phase q :=
  Sched.view_congr (fun _ => rfl) (fun _ => rfl) (fun _ => rfl)
    (s.updateTask_field p f (·.state) hstate) (s.updateTask_field p f (·.id) hid) rfl rfl

/-- Updating a CPU, but not what the view reads of it. -/
theorem Sched.view_updateCpu {c : Fin n} {f : Cpu → Cpu}
    (hrq : (f (s.cpus c)).runqueue = (s.cpus c).runqueue)
    (hcur : (f (s.cpus c)).currentTask = (s.cpus c).currentTask)
    (hidle : (f (s.cpus c)).idleTask = (s.cpus c).idleTask) :
    (s.updateCpu c f).view phase q = s.view phase q :=
  Sched.view_congr (s.updateCpu_field c f (·.runqueue) hrq)
    (s.updateCpu_field c f (·.currentTask) hcur) (s.updateCpu_field c f (·.idleTask) hidle)
    (fun _ => rfl) (fun _ => rfl) rfl rfl

/-- Setting the state of a task. -/
theorem Sched.view_setState {p : TaskPtr} {f : Task → Task} {state : TaskState}
    (hstate : (f (s.tasks p)).state = state) (hid : (f (s.tasks p)).id = (s.tasks p).id) :
    (s.updateTask p f).view phase q = (s.view phase q).setState p state := by
  refine SchedView.ext rfl rfl rfl rfl rfl rfl ?_ ?_ rfl rfl
  · funext x
    show ((s.updateTask p f).tasks x).state =
      Function.update (fun x => (s.tasks x).state) p state x
    rw [Sched.updateTask_tasks, Function.update_apply]
    split
    · exact hstate
    · rfl
  · exact funext (s.updateTask_field p f (·.id) hid)

theorem Queues.updateTask (h : Queues s q) {p : TaskPtr} {f : Task → Task}
    (hnext : (f (s.tasks p)).next = (s.tasks p).next) : Queues (s.updateTask p f) q :=
  h.congr (fun _ x _ => s.updateTask_field p f (·.next) hnext x) fun _ => rfl

theorem Queues.updateCpu (h : Queues s q) {c : Fin n} {f : Cpu → Cpu}
    (hrq : (f (s.cpus c)).runqueue = (s.cpus c).runqueue) : Queues (s.updateCpu c f) q :=
  h.congr (fun _ _ _ => rfl) (s.updateCpu_field c f (·.runqueue) hrq)

theorem view_enqueue (s : Sched n) (phase : Fin n → Phase n) (q : Fin n → List TaskPtr) (c : Fin n)
    (task : TaskPtr) : (enqueueTask c task s).view phase (enqueued s q c task) =
      (s.view phase q).enqueue c task := by
  refine SchedView.ext rfl ?_ ?_ rfl ?_ ?_ ?_ ?_ ?_ ?_
  · funext d
    show ((enqueueTask c task s).rq d).tail = Function.update (fun d => (s.rq d).tail) c task d
    rw [enqueueTask_rq, Function.update_apply]
    split <;> rfl
  · funext d
    show ((enqueueTask c task s).rq d).count =
      Function.update (fun d => (s.rq d).count) c ((s.rq c).count + 1) d
    rw [enqueueTask_rq, Function.update_apply]
    split <;> rfl
  · exact funext (enqueueTask_current c task s)
  · exact funext (enqueueTask_idleTask c task s)
  · exact funext (enqueueTask_state c task s)
  · exact funext (enqueueTask_id c task s)
  · exact enqueueTask_live c task s
  · exact enqueueTask_nextId c task s

theorem view_dequeue (h : Queues s q) {c : Fin n} {task : TaskPtr} {l : List TaskPtr}
    (hq : q c = task :: l) : (dequeueTask c s).2.view phase (Function.update q c l) =
      (s.view phase q).dequeue c l := by
  have hqueue := h.isQueue c
  rw [hq] at hqueue
  obtain ⟨hhead, hne, hl⟩ := hqueue.linked
  have hlast : s.next task = 0 ↔ l = [] := by
    have := hqueue.dequeue.head_eq_nil
    exact this
  -- the queue loses its head, and its tail where it becomes empty; the count goes down
  refine SchedView.ext rfl ?_ ?_ rfl ?_ ?_ ?_ ?_ ?_ ?_
  · funext d
    show ((dequeueTask c s).2.rq d).tail =
      Function.update (fun d => (s.rq d).tail) c (if l = [] then 0 else (s.rq c).tail) d
    rw [dequeueTask_rq hhead hne, Function.update_apply]
    split
    · by_cases hend : l = []
      · rw [if_pos hend, if_pos (hlast.mpr hend)]
      · rw [if_neg hend, if_neg fun hc => hend (hlast.mp hc)]
    · rfl
  · funext d
    show ((dequeueTask c s).2.rq d).count =
      Function.update (fun d => (s.rq d).count) c ((s.rq c).count - 1) d
    rw [dequeueTask_rq hhead hne, Function.update_apply]
    split <;> rfl
  · exact funext (dequeueTask_current c s)
  · exact funext (dequeueTask_idleTask c s)
  · funext p
    rw [Sched.view, dequeueTask_tasks]
    rfl
  · funext p
    rw [Sched.view, dequeueTask_tasks]
    rfl
  · exact dequeueTask_live c s
  · exact dequeueTask_nextId c s

theorem allocTask_view (s : Sched n) (phase : Fin n → Phase n) (q : Fin n → List TaskPtr)
    (task : TaskPtr) : (allocTask task s).view phase q =
      { s.view phase q with
        id := Function.update (fun p => (s.tasks p).id) task s.nextId
        live := if task = 0 then s.live else insert task s.live
        nextId := s.nextId + 1 } := by
  refine SchedView.ext rfl rfl rfl rfl rfl rfl ?_ ?_ rfl rfl
  · exact funext (s.updateTask_field task (fun t => { t with id := s.nextId }) (·.state) rfl)
  · funext x
    show ((s.updateTask task fun t => { t with id := s.nextId }).tasks x).id =
      Function.update (fun p => (s.tasks p).id) task s.nextId x
    rw [Sched.updateTask_tasks, Function.update_apply]
    split <;> rfl

theorem Queues.allocTask (h : Queues s q) (task : TaskPtr) :
    Queues (ZohoOs.allocTask task s) q := by
  have halloc : Queues (s.updateTask task fun t => { t with id := s.nextId }) q :=
    h.updateTask rfl
  exact halloc.congr (fun _ _ _ => rfl) fun _ => rfl

/-- A new `task_t`, built and given an id. -/
theorem buildTask_view (s : Sched n) (phase : Fin n → Phase n) (q : Fin n → List TaskPtr)
    (task : TaskPtr) (pml4 stack ustack : Nat) :
    (buildTask task pml4 stack ustack s).view phase q = (s.view phase q).build task := by
  rw [buildTask, Sched.view_setState rfl rfl, allocTask_view]
  rfl

/-- `task_timer_tick` changes nothing the view reads. -/
theorem taskTimerTick_view (s : Sched n) (phase : Fin n → Phase n) (q : Fin n → List TaskPtr)
    (c : Fin n) : (taskTimerTick c s).view phase q = s.view phase q := by
  unfold taskTimerTick taskRequestReschedule
  simp only
  split_ifs <;>
    simp only [Sched.view_updateTask, Sched.view_updateCpu]

theorem Queues.taskTimerTick (h : Queues s q) (c : Fin n) :
    Queues (ZohoOs.taskTimerTick c s) q := by
  unfold ZohoOs.taskTimerTick taskRequestReschedule
  simp only
  split_ifs <;>
    repeat first
      | exact h
      | refine Queues.updateTask ?_ rfl
      | refine Queues.updateCpu ?_ rfl

/-- `switchTo` is the last step of `task_schedule`. -/
theorem switchTo_view (s : Sched n) (phase : Fin n → Phase n) (q : Fin n → List TaskPtr)
    (c : Fin n) (next : TaskPtr) :
    (switchTo c next s).view (Function.update phase c .running) q =
      (s.view phase q).commit c next := by
  rw [switchTo]
  rw [Sched.view_updateCpu rfl rfl rfl, Sched.view_setState rfl rfl]
  refine SchedView.ext rfl ?_ ?_ rfl ?_ ?_ rfl rfl rfl rfl
  · funext d
    exact congrArg Runqueue.tail (s.updateCpu_field c _ (·.runqueue) rfl d)
  · funext d
    exact congrArg Runqueue.count (s.updateCpu_field c _ (·.runqueue) rfl d)
  · funext d
    show ((s.updateCpu c _).cpus d).currentTask = Function.update (fun d => s.current d) c _ d
    rw [Sched.updateCpu_cpus, Function.update_apply]
    split <;> rfl
  · funext d
    exact s.updateCpu_field c _ (·.idleTask) rfl d

theorem Queues.switchTo (h : Queues s q) (c : Fin n) (next : TaskPtr) :
    Queues (ZohoOs.switchTo c next s) q := by
  rw [ZohoOs.switchTo]
  refine Queues.updateCpu ?_ rfl
  refine Queues.updateTask ?_ rfl
  exact h.updateCpu rfl

/-- What `requeueCurrent` does before it looks at the state of the outgoing task. -/
theorem requeueCurrent_view (h : Queues s q) (phase : Fin n → Phase n) {c : Fin n}
    (hnew : ∀ d, s.current c ∉ q d) (currentRsp : BitVec 64) : ∃ q',
      Queues (requeueCurrent c currentRsp s) q' ∧
      (requeueCurrent c currentRsp s).view (Function.update phase c .pull) q' =
        (s.view phase q).leave c := by
  obtain ⟨t, ht⟩ : ∃ t, t = (s.updateCpu c fun x => { x with needResched := false }).updateTask
    (s.current c) fun x => { x with rsp := currentRsp } := ⟨_, rfl⟩
  have hqueues : Queues t q := by
    rw [ht]
    refine Queues.updateTask ?_ rfl
    exact h.updateCpu rfl
  have hview : ∀ ph, t.view ph q = s.view ph q := fun ph => by
    rw [ht, Sched.view_updateTask rfl rfl, Sched.view_updateCpu rfl rfl rfl]
  have hstate : (t.tasks (s.current c)).state = (s.tasks (s.current c)).state :=
    congrFun (congrArg SchedView.state (hview phase)) (s.current c)
  have hid : (t.tasks (s.current c)).id = (s.tasks (s.current c)).id :=
    congrFun (congrArg SchedView.id (hview phase)) (s.current c)
  -- Both sides branch on the state and the id that the task had before `needResched` and `rsp` were
  -- written; neither is changed by that.
  have heq : requeueCurrent c currentRsp s =
      if (t.tasks (s.current c)).state = .running then
        let t := t.updateTask (s.current c) fun x => { x with state := .ready }
        if (t.tasks (s.current c)).id ≠ 0 then enqueueTask c (s.current c) t else t
      else t := by
    rw [ht]
    rfl
  have hleave : (s.view phase q).leave c =
      if (s.tasks (s.current c)).state = .running then
        if (s.tasks (s.current c)).id ≠ 0 then
          (((s.view phase q).setState (s.current c) .ready).enqueue c (s.current c)).setPhase c .pull
        else ((s.view phase q).setState (s.current c) .ready).setPhase c .pull
      else (s.view phase q).setPhase c .pull := rfl
  rw [heq, hleave, hstate]
  by_cases hrun : (s.tasks (s.current c)).state = .running
  · rw [if_pos hrun, if_pos hrun]
    have hready : ∀ ph, (t.updateTask (s.current c) fun x => { x with state := .ready }).view ph q =
        (s.view ph q).setState (s.current c) .ready := fun ph => by
      rw [Sched.view_setState rfl rfl, hview]
    have hid' : ((t.updateTask (s.current c) fun x => { x with state := .ready }).tasks
        (s.current c)).id = (s.tasks (s.current c)).id :=
      congrFun (congrArg SchedView.id (hready phase)) (s.current c)
    simp only
    rw [hid']
    by_cases hidle : (s.tasks (s.current c)).id = 0
    · rw [if_neg (not_not.mpr hidle), if_neg (not_not.mpr hidle)]
      exact ⟨q, hqueues.updateTask rfl, hready _⟩
    · rw [if_pos hidle, if_pos hidle]
      have hq' := (hqueues.updateTask (p := s.current c)
        (f := fun x => { x with state := .ready }) rfl).enqueue c hnew
      refine ⟨_, hq', ?_⟩
      rw [view_enqueue, hready]
      rfl
  · rw [if_neg hrun, if_neg hrun]
    exact ⟨q, hqueues, hview _⟩

/-- A new task goes into a runqueue. -/
theorem assignTask_view (h : Queues s q) (phase : Fin n → Phase n) (target : Fin n)
    {task : TaskPtr} (hnew : ∀ d, task ∉ q d) : ∃ q', Queues (assignTask target task s) q' ∧
      (assignTask target task s).view phase q' = (s.view phase q).enqueue target task := by
  have hq' := (h.updateTask (p := task)
    (f := fun t => { t with cpuId := (s.cpus target).id.toNat }) rfl).enqueue target hnew
  refine ⟨_, hq', ?_⟩
  rw [assignTask, view_enqueue, Sched.view_updateTask rfl rfl]

theorem taskFork_view (h : Queues s q) (phase : Fin n → Phase n) (c : Fin n) {task : TaskPtr}
    (hnew : ∀ d, task ∉ q d) (pml4 kstack ustack : Nat) : ∃ q',
      Queues (taskFork c task pml4 kstack ustack s) q' ∧
      (taskFork c task pml4 kstack ustack s).view phase q' =
        ((s.view phase q).build task).enqueue c task := by
  rw [taskFork]
  simp only
  refine ⟨_, Queues.enqueue (q := q) ?_ c hnew, ?_⟩
  · refine Queues.updateTask ?_ rfl
    refine Queues.updateTask ?_ rfl
    exact h.allocTask task
  · rw [view_enqueue, Sched.view_setState rfl rfl, Sched.view_updateTask rfl rfl, allocTask_view]
    rfl

end Views

/-! ## Steps -/

namespace Simulated

variable {m m' : Machine n} {q : Fin n → List TaskPtr}

theorem not_queued (h : Simulated m q) {p : TaskPtr} (hp : p ∉ m.sched.live) (d : Fin n) :
    p ∉ q d := fun hmem => hp (h.inv.live (.inl d) p hmem)

theorem not_queued_of_fresh (h : Simulated m q) {p : TaskPtr} (hp : m.sched.Fresh p) (d : Fin n) :
    p ∉ q d := by
  rcases hp with rfl | ⟨-, hp⟩
  · exact h.not_queued h.inv.null d
  · exact h.not_queued hp d

/-- A CPU in `task_schedule` takes what a runqueue has, or nothing. -/
theorem resume_step (h : Simulated m q) (c : Fin n) :
    ∃ q', Queues (resume c m.sched (m.phase c)).1 q' ∧
      ViewStep (m.view q) (.resume c) ((m.move c (resume c m.sched (m.phase c))).view q') := by
  obtain ⟨phase, hphase⟩ : ∃ phase, phase = m.phase c := ⟨_, rfl⟩
  have hok := h.inv.phase c
  have hpass : ∀ new, Passes (m.view q) c phase new →
      ViewStep (m.view q) (.resume c) ((m.move c (m.sched, new)).view q) := fun new hnew => by
    rw [hphase] at hnew
    exact ViewStep.pass hnew
  change (m.phase c).Ok _ _ at hok
  rw [← hphase] at hok ⊢
  cases phase with
  | running =>
    -- nothing to do until the CPU enters `task_schedule` again
    refine ⟨q, h.queues, ?_⟩
    have hstay : (m.move c (resume c m.sched .running)).view q = m.view q := by
      refine SchedView.ext rfl rfl rfl ?_ rfl rfl rfl rfl rfl rfl
      show Function.update m.phase c .running = m.phase
      rw [hphase, Function.update_eq_self]
    rw [hstay]
    exact ViewStep.stay hphase.symm
  | pull =>
    -- its own runqueue is empty, or the first task there is taken
    rw [resume]
    cases hq : q c with
    | nil =>
      rw [h.queues.dequeue_nil hq]
      exact ⟨q, h.queues, hpass _ (Passes.miss hq)⟩
    | cons task l =>
      obtain ⟨htask, hne, hqueues⟩ := h.queues.dequeue hq
      refine ⟨_, hqueues, ?_⟩
      simp only [htask]
      rw [if_pos hne]
      have htake : ViewStep (m.view q) (.resume c) (((m.view q).dequeue c l).setPhase c (.check task)) :=
        ViewStep.take (Or.inl ⟨hphase.symm, rfl⟩) hq
      rw [Machine.view, Machine.view, Machine.move, view_dequeue h.queues hq]
      exact htake
  | steal victims =>
    cases victims with
    | nil =>
      rw [resume]
      exact ⟨q, h.queues, hpass _ Passes.idle⟩
    | cons victim rest =>
      rw [resume]
      by_cases hself : victim = c
      · rw [if_pos hself]
        exact ⟨q, h.queues, hpass _ (Passes.skip (Or.inl hself))⟩
      · -- the same at the victim; the task that is taken changes its CPU
        rw [if_neg hself]
        cases hq : q victim with
        | nil =>
          rw [h.queues.dequeue_nil hq]
          simp only
          rw [if_neg (not_not.mpr rfl)]
          exact ⟨q, h.queues, hpass _ (Passes.skip (Or.inr hq))⟩
        | cons task l =>
          obtain ⟨htask, hne, hqueues⟩ := h.queues.dequeue hq
          simp only [htask]
          rw [if_pos hne]
          have hmoved : Queues ((dequeueTask victim m.sched).2.updateTask task fun t =>
              { t with cpuId := ((dequeueTask victim m.sched).2.cpus c).id.toNat })
              (Function.update q victim l) := hqueues.updateTask rfl
          refine ⟨_, hmoved, ?_⟩
          have htake : ViewStep (m.view q) (.resume c)
              (((m.view q).dequeue victim l).setPhase c (.check task)) :=
            ViewStep.take (Or.inr ⟨⟨rest, hphase.symm⟩, hself⟩) hq
          rw [Machine.view, Machine.view, Machine.move, Sched.view_updateTask rfl rfl,
            view_dequeue h.queues hq]
          exact htake
  | check next =>
    -- a task that was queued is ready, so that none is put back
    have hready : (m.sched.tasks next).state = .ready := hok
    rw [resume, hready]
    exact ⟨q, h.queues, hpass _ (Passes.accept hready)⟩
  | putBack next => exact hok.elim
  | commit next =>
    refine ⟨q, h.queues.switchTo c next, ?_⟩
    show ViewStep (m.view q) (.resume c)
      ((switchTo c next m.sched).view (Function.update m.phase c .running) q)
    rw [switchTo_view]
    exact ViewStep.commit hphase.symm

/-- **Each step of the machine is a step over lists.** -/
theorem view_step (h : Simulated m q) {op : MachineOp n} (hstep : machineStep m op m') :
    ∃ q', Queues m'.sched q' ∧ ViewStep (m.view q) op (m'.view q') := by
  obtain ⟨hvalid, rfl⟩ := hstep
  cases op with
  | create target task pml4 stack ustack =>
    have hnew := h.not_queued_of_fresh hvalid
    have hbuilt : Queues (buildTask task pml4 stack ustack m.sched) q := by
      rw [buildTask]
      exact (h.queues.allocTask task).updateTask rfl
    obtain ⟨q', hqueues, hview⟩ := assignTask_view hbuilt m.phase target hnew
    refine ⟨q', hqueues, ?_⟩
    rw [MachineOp.run, Machine.view, Machine.view, hview, buildTask_view]
    exact ViewStep.create rfl hvalid
  | fork cpu task pml4 kstack ustack =>
    have hnew := h.not_queued_of_fresh hvalid.2
    obtain ⟨q', hqueues, hview⟩ :=
      taskFork_view h.queues m.phase cpu hnew pml4 kstack ustack
    refine ⟨q', hqueues, ?_⟩
    rw [MachineOp.run, Machine.view, Machine.view, hview]
    exact ViewStep.create rfl hvalid.2
  | sysExit cpu =>
    have hqueues : Queues (ZohoOs.sysExit cpu m.sched) q := by
      rw [ZohoOs.sysExit, taskRequestReschedule]
      refine Queues.updateCpu ?_ rfl
      exact h.queues.updateTask rfl
    refine ⟨q, hqueues, ?_⟩
    rw [MachineOp.run, Machine.view, Machine.view, ZohoOs.sysExit, taskRequestReschedule,
      Sched.view_updateCpu rfl rfl rfl, Sched.view_setState rfl rfl]
    exact ViewStep.exit rfl hvalid
  | terminate cpu =>
    have hcur : m.sched.current cpu ≠ 0 := fun he => h.inv.null (he ▸ h.inv.current cpu)
    have hqueues : Queues (m.sched.updateTask (m.sched.current cpu) fun t =>
        { t with state := .exited }) q := h.queues.updateTask rfl
    rw [MachineOp.run, ZohoOs.terminate, if_neg hcur]
    refine ⟨q, hqueues, ?_⟩
    rw [Machine.view, Machine.view, Sched.view_setState rfl rfl]
    exact ViewStep.exit rfl hvalid
  | tick cpu =>
    refine ⟨q, h.queues.taskTimerTick cpu, ?_⟩
    rw [MachineOp.run, Machine.view, Machine.view, taskTimerTick_view]
    exact ViewStep.tick
  | enter cpu currentRsp =>
    have hcur : m.sched.current cpu ≠ 0 := fun he => h.inv.null (he ▸ h.inv.current cpu)
    -- The running task is in the hand of its CPU, so no runqueue has it.
    have hnew : ∀ d, m.sched.current cpu ∉ q d := by
      intro d hmem
      have hhand : m.sched.current cpu ∈ (m.view q).hand cpu := ViewInv.current_mem_hand hvalid
      exact h.inv.apart.disjoint (.inl d) (.inr cpu) (by simp) _ hmem hhand
    obtain ⟨q', hqueues, hview⟩ :=
      requeueCurrent_view h.queues m.phase hnew currentRsp
    rw [MachineOp.run, if_neg hcur]
    refine ⟨q', hqueues, ?_⟩
    rw [Machine.view, Machine.view, Machine.move, hview]
    exact ViewStep.enter hvalid
  | resume cpu => exact h.resume_step cpu

/-- **The simulation is kept.** -/
theorem step (h : Simulated m q) {op : MachineOp n} (hstep : machineStep m op m') :
    ∃ q', Simulated m' q' ∧ ViewStep (m.view q) op (m'.view q') := by
  obtain ⟨q', hqueues, hview⟩ := h.view_step hstep
  exact ⟨q', ⟨hqueues, h.inv.step hview⟩, hview⟩

end Simulated

/-! ## Runs -/

/-- After `task_init_per_cpu` on each CPU: it runs its idle task, and its runqueue is empty. -/
structure Sched.Booted (s : Sched n) : Prop where
  queue : ∀ c, (s.cpus c).runqueue = ⟨0, 0, 0⟩
  current : ∀ c, (s.cpus c).currentTask = (s.cpus c).idleTask
  idle : ∀ c, (s.tasks (s.cpus c).idleTask).id = 0 ∧
    (s.tasks (s.cpus c).idleTask).state = .running
  idle_inj : ∀ c d, (s.cpus c).idleTask = (s.cpus d).idleTask → c = d
  live : ∀ p, p ∈ s.live ↔ ∃ c, p = (s.cpus c).idleTask
  heap : ∀ p ∈ s.live, InHeap p
  nextId : s.nextId = 1

theorem Sched.Booted.simulated {s : Sched n} (h : s.Booted) :
    Simulated s.idleMachine fun _ => [] := by
  have hidle : ∀ c, (s.cpus c).idleTask ∈ s.live := fun c => (h.live _).mpr ⟨c, rfl⟩
  have hcur : ∀ c, s.current c = (s.cpus c).idleTask := h.current
  have hhand : ∀ c, (s.idleMachine.view fun _ => []).hand c = [(s.cpus c).idleTask] :=
    fun c => congrArg (fun p => [p]) (h.current c)
  -- The runqueues are empty: a task is placed in the hand of its CPU or nowhere.
  have hplace : ∀ i, ∀ p ∈ (s.idleMachine.view fun _ => []).places i,
      ∃ c, i = .inr c ∧ p = (s.cpus c).idleTask := by
    rintro (c | c) p hp
    · cases hp
    · rw [SchedView.places_inr, hhand] at hp
      exact ⟨c, rfl, List.mem_singleton.mp hp⟩
  refine ⟨⟨fun c => ?_, ⟨fun _ => List.nodup_nil, fun _ _ _ _ ha => by cases ha⟩⟩, ?_⟩
  · show IsQueue s.next 0 (s.rq c).head (s.rq c).tail []
    rw [Sched.rq, h.queue]
    exact IsQueue.empty
  · constructor
    · refine ⟨fun i => ?_, fun i j hne p hp hj => ?_⟩
      · cases i with
        | inl c => exact List.nodup_nil
        | inr c =>
          rw [SchedView.places_inr, hhand]
          exact List.nodup_singleton _
      · obtain ⟨c, rfl, rfl⟩ := hplace i p hp
        obtain ⟨d, rfl, he⟩ := hplace j _ hj
        exact hne (congrArg Sum.inr (h.idle_inj c d he))
    · intro i p hp
      obtain ⟨c, -, rfl⟩ := hplace i p hp
      exact hidle c
    · intro c p hp
      cases hp
    · intro c
      show (s.tasks (s.current c)).state ≠ .ready
      rw [hcur, (h.idle c).2]
      exact TaskState.noConfusion
    · exact fun hnull => absurd (h.heap 0 hnull).1 (by decide)
    · intro c
      show s.current c ∈ s.live
      rw [hcur]
      exact hidle c
    · exact hidle
    · exact fun c => (h.idle c).1
    · exact h.idle_inj
    · intro c i hi
      obtain ⟨d, rfl, he⟩ := hplace i _ hi
      exact ⟨congrArg Sum.inr (h.idle_inj c d he).symm, rfl⟩

/-- **The machine keeps to the lists in every run.** -/
theorem machineRun_simulated {s : Sched n} (h : s.Booted) {m : Machine n}
    {ops : List (MachineOp n)} (hrun : Run machineStep s.idleMachine ops m) :
    ∃ q, Simulated m q :=
  Run.invariant (I := fun m => ∃ q, Simulated m q)
    (fun _ _ _ ⟨_, hq⟩ hstep => (hq.step hstep).imp fun _ hq' => hq'.1) hrun
    ⟨_, h.simulated⟩

end ZohoOs
