import ZohoOs.Task.Exclusive

/-!
# Idle CPUs

A timer interrupt on a CPU that runs its idle task. `task_schedule` would find any task that waits in a
runqueue, but the tick asks for it only where the CPU's own runqueue counts one.

## Main definitions

* `timerInterrupt`: the tick, and `task_schedule` where it is asked for

## Main results

* `Queues.selectNext_takes`: `task_schedule` finds a waiting task, whosever runqueue it is in
* `timerInterrupt_works_iff`: when the interrupt leaves an idle CPU with a task
* `timerInterrupt_idles`: a CPU stays idle while a task waits
-/

namespace ZohoOs

open TransitionSystem LinkedQueue

variable {n : Nat}

/-- The timer interrupt, as `isr_handler` serves it: the tick of `pit_handler`, and `task_schedule` if
`task_needs_schedule` says so. It is `none` where `task_schedule` takes more than `fuel` rounds. -/
def timerInterrupt (fuel : Nat) (cpu : Fin n) (currentRsp : BitVec 64) (s : Sched n) :
    Option (Sched n) :=
  let s := taskTimerTick cpu s
  if (s.cpus cpu).needResched then (taskSchedule fuel cpu currentRsp s).map Prod.snd else some s

/-! ## Finding a task -/

section Finding

variable {s : Sched n} {q : Fin n → List TaskPtr} {cpu : Fin n}

/-- `task_steal` takes the head of a runqueue, if one of those it looks at has a task. -/
theorem Queues.stealFrom_takes (h : Queues s q) (self : Fin n) (victims : List (Fin n)) :
    ((∀ c ∈ victims, c ≠ self → q c = []) ∧ stealFrom self victims s = (0, s)) ∨
      ∃ task s', stealFrom self victims s = (task, s') ∧ task ≠ 0 ∧ (∃ c, task ∈ q c) ∧
        (∀ p, (s'.tasks p).state = (s.tasks p).state) ∧
        ∀ d, (s'.cpus d).idleTask = (s.cpus d).idleTask := by
  induction victims with
  | nil => exact Or.inl ⟨fun c hc => absurd hc List.not_mem_nil, rfl⟩
  | cons victim rest ih =>
    rw [stealFrom]
    -- its own queue is left out, and an empty one is passed over
    by_cases hself : victim = self
    · rw [if_pos hself]
      refine ih.imp_left fun hnone => ⟨fun c hc hne => ?_, hnone.2⟩
      rcases List.mem_cons.mp hc with rfl | hc
      · exact absurd hself hne
      · exact hnone.1 c hc hne
    · rw [if_neg hself]
      cases hq : q victim with
      | nil =>
        rw [h.dequeue_nil hq]
        dsimp only
        rw [if_neg (not_not.mpr rfl)]
        refine ih.imp_left fun hnone => ⟨fun c hc hne => ?_, hnone.2⟩
        rcases List.mem_cons.mp hc with rfl | hc
        · exact hq
        · exact hnone.1 c hc hne
      -- the head of the queue is taken
      | cons task l =>
        obtain ⟨htask, hne, -⟩ := h.dequeue hq
        right
        dsimp only
        rw [htask, if_pos hne]
        refine ⟨task, _, rfl, hne, ⟨victim, ?_⟩, fun p => ?_, fun d => ?_⟩
        · rw [hq]
          exact List.mem_cons_self
        · rw [Sched.updateTask_field _ _ _ (·.state) rfl, dequeueTask_tasks]
        · rw [Sched.updateTask_cpus, dequeueTask_idleTask]

/-- A CPU takes the first task of its own runqueue. -/
theorem Queues.selectNext_own (h : Queues s q) {task : TaskPtr} {l : List TaskPtr}
    (hq : q cpu = task :: l) (hready : (s.tasks task).state = .ready) (fuel : Nat) :
    selectNext cpu (fuel + 1) s = some (task, (dequeueTask cpu s).2) := by
  obtain ⟨htask, hne, -⟩ := h.dequeue hq
  have hstate : ((dequeueTask cpu s).2.tasks task).state = .ready := by
    rw [dequeueTask_tasks]
    exact hready
  rw [selectNext]
  dsimp only
  rw [htask, if_neg hne]
  dsimp only
  rw [if_neg hne, hstate]

/-- **`task_schedule` finds a waiting task**, in whatever runqueue it is. -/
theorem Queues.selectNext_takes (h : Queues s q) (hready : ∀ c, ∀ p ∈ q c, (s.tasks p).state = .ready)
    (hwaits : ∃ c, q c ≠ []) (cpu : Fin n) (fuel : Nat) :
    ∃ task s', selectNext cpu (fuel + 1) s = some (task, s') ∧ task ≠ 0 ∧ (∃ c, task ∈ q c) ∧
      ∀ d, (s'.cpus d).idleTask = (s.cpus d).idleTask := by
  cases hq : q cpu with
  | cons task l =>
    have hmem : task ∈ q cpu := by
      rw [hq]
      exact List.mem_cons_self
    exact ⟨task, _, h.selectNext_own hq (hready cpu task hmem) fuel, (h.dequeue hq).2.1, ⟨cpu, hmem⟩,
      fun d => dequeueTask_idleTask cpu s d⟩
  | nil =>
    rw [selectNext, h.dequeue_nil hq]
    dsimp only
    rw [if_pos rfl]
    rcases h.stealFrom_takes cpu (List.finRange n) with ⟨hnone, -⟩ |
      ⟨task, s', hsteal, hne, ⟨c, hmem⟩, hstate, hidle⟩
    · -- some runqueue has a task
      obtain ⟨c, hc⟩ := hwaits
      by_cases hself : c = cpu
      · rw [hself] at hc
        exact absurd hq hc
      · exact absurd (hnone c (List.mem_finRange c) hself) hc
    · rw [taskSteal, hsteal]
      dsimp only
      rw [if_neg hne, hstate, hready c task hmem]
      exact ⟨task, s', rfl, hne, ⟨c, hmem⟩, hidle⟩

end Finding

/-! ## The interrupt -/

section Interrupt

variable {s : Sched n} {m : Machine n} {q : Fin n → List TaskPtr} {cpu : Fin n}

/-- What a tick asks for, on a CPU that runs its idle task. -/
theorem taskTimerTick_idle (hcur : s.current cpu ≠ 0) (hid : (s.tasks (s.current cpu)).id = 0) :
    ((taskTimerTick cpu s).cpus cpu).needResched = true ↔
      (s.cpus cpu).needResched = true ∨ (s.tasks (s.current cpu)).state ≠ .running ∨
        (s.cpus cpu).runqueue.count ≠ 0 := by
  unfold taskTimerTick taskRequestReschedule
  simp only [if_neg hcur, Sched.updateTask_tasks, Sched.updateCpu_tasks, if_true, hid]
  by_cases hrun : (s.tasks (s.current cpu)).state = .running
  · rw [if_neg (not_not.mpr hrun)]
    simp only [Sched.updateCpu_cpus, Sched.updateTask_cpus, if_true]
    by_cases hcount : (s.cpus cpu).runqueue.count = 0
    · rw [if_neg (not_not.mpr hcount)]
      simp only [Sched.updateCpu_cpus, Sched.updateTask_cpus, if_true]
      simp only [hrun, hcount, ne_eq, not_true_eq_false, or_false]
    · rw [if_pos hcount]
      simp only [Sched.updateCpu_cpus, if_true]
      exact iff_of_true trivial (Or.inr (Or.inr hcount))
  · rw [if_pos hrun]
    simp only [Sched.updateCpu_cpus, if_true]
    exact iff_of_true trivial (Or.inr (Or.inl hrun))

/-- An idle task goes back to no runqueue. -/
theorem requeueCurrent_idle (h : Queues s q) (hid : (s.tasks (s.current cpu)).id = 0)
    (currentRsp : BitVec 64) : Queues (requeueCurrent cpu currentRsp s) q ∧
      (∀ p, p ≠ s.current cpu → ((requeueCurrent cpu currentRsp s).tasks p).state =
        (s.tasks p).state) ∧
      ∀ d, ((requeueCurrent cpu currentRsp s).cpus d).idleTask = (s.cpus d).idleTask := by
  -- the flag is cleared and the stack pointer saved, whatever is running
  obtain ⟨t, ht⟩ : ∃ t, t = (s.updateCpu cpu fun x => { x with needResched := false }).updateTask
    (s.current cpu) fun x => { x with rsp := currentRsp } := ⟨_, rfl⟩
  have hqueues : Queues t q := by
    rw [ht]
    apply Queues.updateTask ?_ rfl
    exact h.updateCpu rfl
  have hstate : ∀ p, (t.tasks p).state = (s.tasks p).state := by
    intro p
    rw [ht, Sched.updateTask_field _ _ _ (·.state) rfl, Sched.updateCpu_tasks]
  have hidle : ∀ d, (t.cpus d).idleTask = (s.cpus d).idleTask := by
    intro d
    rw [ht, Sched.updateTask_cpus, Sched.updateCpu_field _ _ _ (·.idleTask) rfl]
  have hready : ((t.updateTask (s.current cpu) fun x => { x with state := .ready }).tasks
      (s.current cpu)).id = 0 := by
    rw [Sched.updateTask_field _ _ _ (·.id) rfl, ht, Sched.updateTask_field _ _ _ (·.id) rfl]
    exact hid
  have heq : requeueCurrent cpu currentRsp s =
      if (t.tasks (s.current cpu)).state = .running then
        t.updateTask (s.current cpu) fun x => { x with state := .ready }
      else t := by
    rw [requeueCurrent, ← ht]
    dsimp only
    rw [if_neg (not_not.mpr hready)]
  rw [heq]
  -- the idle task is never queued
  split
  · refine ⟨hqueues.updateTask rfl, fun p hp => ?_, hidle⟩
    rw [Sched.updateTask_tasks, if_neg hp]
    exact hstate p
  · exact ⟨hqueues, fun p _ => hstate p, hidle⟩

theorem Queues.unique {q' : Fin n → List TaskPtr} (h : Queues s q) (k : Queues s q') : q = q' :=
  funext fun c => (h.isQueue c).linked.unique (k.isQueue c).linked

/-- What a switch to a task leaves as the current task, and the idle tasks. -/
theorem switchTo_current (s : Sched n) (cpu : Fin n) {task : TaskPtr} (hne : task ≠ 0) :
    (switchTo cpu task s).current cpu = task ∧
      ∀ d, ((switchTo cpu task s).cpus d).idleTask = (s.cpus d).idleTask := by
  have hview := switchTo_view s (fun _ => .running) (fun _ => []) cpu task
  constructor
  · have hcur := congrFun (congrArg SchedView.current hview) cpu
    refine hcur.trans ?_
    rw [SchedView.commit, if_neg hne]
    exact Function.update_self _ _ _
  · exact fun d => congrFun (congrArg SchedView.idle hview) d

/-- Where the tick asks for it, `task_schedule` finds the idle CPU a task. -/
theorem Simulated.schedule_idle (h : Simulated m q)
    (hcur : m.sched.current cpu = (m.sched.cpus cpu).idleTask) (hwaits : ∃ c, q c ≠ [])
    (currentRsp : BitVec 64) : ∃ out, taskSchedule 1 cpu currentRsp (taskTimerTick cpu m.sched) =
      some out ∧ ∀ d, out.2.current cpu ≠ (out.2.cpus d).idleTask := by
  obtain ⟨s, hs⟩ : ∃ s, s = taskTimerTick cpu m.sched := ⟨_, rfl⟩
  rw [← hs]
  -- the tick changes nothing the lists show
  have hview : s.view m.phase q = m.view q := by
    rw [hs]
    exact taskTimerTick_view m.sched m.phase q cpu
  have hqueues : Queues s q := by
    rw [hs]
    exact h.queues.taskTimerTick cpu
  have hinv : ViewInv (s.view m.phase q) := by
    rw [hview]
    exact h.inv
  have hidle : s.current cpu = (s.cpus cpu).idleTask := by
    have hc := congrFun (congrArg SchedView.current hview) cpu
    have hi := congrFun (congrArg SchedView.idle hview) cpu
    exact hc.trans (hcur.trans hi.symm)
  have hid : (s.tasks (s.current cpu)).id = 0 := by
    rw [hidle]
    exact hinv.idle_id cpu
  have hne : s.current cpu ≠ 0 := fun he => hinv.null (he ▸ hinv.current cpu)
  have hnot : ∀ c, ∀ p ∈ q c, ∀ d, p ≠ (s.cpus d).idleTask := by
    intro c p hp d he
    exact hinv.ne_idle (i := .inl c) hp (by simp) d he.symm
  -- what waits is ready, and stays so when the idle task leaves
  obtain ⟨hq, hstate, hkeep⟩ := requeueCurrent_idle hqueues hid currentRsp
  have hready : ∀ c, ∀ p ∈ q c, ((requeueCurrent cpu currentRsp s).tasks p).state = .ready := by
    intro c p hp
    rw [hstate p fun he => hnot c p hp cpu (he.trans hidle)]
    exact hinv.queued c p hp
  obtain ⟨task, s', hsel, htask, ⟨c, hmem⟩, hfrom⟩ := hq.selectNext_takes hready hwaits cpu 0
  obtain ⟨hnow, hafter⟩ := switchTo_current s' cpu htask
  have hout : taskSchedule 1 cpu currentRsp s = some ((((switchTo cpu task s').tasks
      ((switchTo cpu task s').current cpu)).rsp), switchTo cpu task s') := by
    rw [taskSchedule, if_neg hne, hsel]
    rfl
  refine ⟨_, hout, fun d => ?_⟩
  · show (switchTo cpu task s').current cpu ≠ ((switchTo cpu task s').cpus d).idleTask
    rw [hnow, hafter, hfrom, hkeep]
    exact hnot c task hmem d

/-- **When the timer interrupt gives an idle CPU the work that waits**: where its own runqueue counts a
task, whichever runqueue the waiting task is in, or where a reschedule was due already. -/
theorem timerInterrupt_works_iff (h : s.Booted) {ops : List (MachineOp n)}
    (hrun : Run machineStep s.idleMachine ops m)
    (hcur : m.sched.current cpu = (m.sched.cpus cpu).idleTask) (hq : Queues m.sched q) {c : Fin n}
    {task : TaskPtr} (hwaits : task ∈ q c) (currentRsp : BitVec 64) :
    (∃ fuel t, timerInterrupt fuel cpu currentRsp m.sched = some t ∧
      ∀ d, t.current cpu ≠ (t.cpus d).idleTask) ↔
    (m.sched.cpus cpu).needResched = true ∨
      (m.sched.tasks (m.sched.current cpu)).state ≠ .running ∨
      (m.sched.cpus cpu).runqueue.count ≠ 0 := by
  obtain ⟨q', hsim⟩ := machineRun_simulated h hrun
  obtain rfl := hq.unique hsim.queues
  have hne : m.sched.current cpu ≠ 0 := fun he => hsim.inv.null (he ▸ hsim.inv.current cpu)
  have hid : (m.sched.tasks (m.sched.current cpu)).id = 0 := by
    rw [hcur]
    exact hsim.inv.idle_id cpu
  rw [← taskTimerTick_idle hne hid]
  constructor
  · rintro ⟨fuel, t, hint, hleft⟩
    by_contra hnot
    -- the tick asked for nothing, and the CPU goes on with its idle task
    rw [timerInterrupt, if_neg hnot] at hint
    cases hint
    have hview := taskTimerTick_view m.sched m.phase q cpu
    apply hleft cpu
    have hc := congrFun (congrArg SchedView.current hview) cpu
    have hi := congrFun (congrArg SchedView.idle hview) cpu
    exact hc.trans (hcur.trans hi.symm)
  · intro hasked
    obtain ⟨out, hout, hleft⟩ := hsim.schedule_idle hcur
      ⟨c, fun he => List.not_mem_nil (he ▸ hwaits)⟩ currentRsp
    refine ⟨1, out.2, ?_, hleft⟩
    rw [timerInterrupt, if_pos hasked, hout]
    rfl

end Interrupt

/-! ## An idle CPU beside a busy one -/

/-- The first CPU has a task to run; the second one runs its idle task. -/
def loadedFirst : Machine 2 :=
  MachineOp.run (.create 0 0x10000F8 0x100000 0x1001000 0) bootSched2.idleMachine

theorem loadedFirst_run : Run machineStep bootSched2.idleMachine
    [.create 0 0x10000F8 0x100000 0x1001000 0] loadedFirst :=
  Run.single ⟨Or.inr ⟨by decide, by decide⟩, rfl⟩

/-- The runqueues there. -/
theorem loadedFirst_queues : Queues loadedFirst.sched
    (fun c : Fin 2 => if c = 0 then [0x10000F8] else []) where
  isQueue c := by
    cases c using Fin.cases with
    | zero => exact ⟨Linked.single (by decide) (by decide), fun _ => by decide⟩
    | succ c =>
      obtain rfl := Subsingleton.elim c 0
      exact IsQueue.empty
  apart := by
    refine ⟨fun c => ?_, fun c d hne x hc hd => ?_⟩
    · fin_cases c <;> decide
    · fin_cases c <;> fin_cases d <;> simp_all

/-- The CPU whose own runqueue has the task takes it. -/
theorem timerInterrupt_works_first : ∃ fuel t,
    timerInterrupt fuel 0 0x9000 loadedFirst.sched = some t ∧
      ∀ d, t.current 0 ≠ (t.cpus d).idleTask :=
  (timerInterrupt_works_iff bootSched2_booted loadedFirst_run rfl loadedFirst_queues
    (c := 0) (List.mem_singleton_self _) 0x9000).mpr (Or.inr (Or.inr (by decide)))

/-- **The other CPU stays idle** while the task waits. -/
theorem timerInterrupt_idles : loadedFirst.sched.current 1 = (loadedFirst.sched.cpus 1).idleTask ∧
    (loadedFirst.sched.cpus 0).runqueue.head = 0x10000F8 ∧
    (loadedFirst.sched.tasks 0x10000F8).state = .ready ∧
    ∀ fuel, ∃ t, timerInterrupt fuel 1 0xA000 loadedFirst.sched = some t ∧
      t.current 1 = (t.cpus 1).idleTask := by
  refine ⟨rfl, by decide, by decide, fun fuel => ⟨taskTimerTick 1 loadedFirst.sched, ?_, by decide⟩⟩
  rw [timerInterrupt, if_neg (by decide)]

end ZohoOs
