import ZohoOs.Task.Scheduler
import ZohoOs.Lib.LinkedQueue
import ZohoOs.Lib.Placement
import Mathlib.Data.Sum.Basic

/-!
# The runqueues as lists

What `enqueue_task` and `dequeue_task` do, with each runqueue read as the list of its tasks. A
runqueue that was given a `NULL` task has lost its tail, and loses its tasks with the next one.

## Main definitions

* `Queues s q`: the runqueue of each CPU is linked through the tasks of a list
* `enqueued`: the lists after `enqueue_task`

## Main results

* `Queues.enqueue`, `Queues.dequeue`: the two operations on the lists
-/

namespace ZohoOs

open LinkedQueue Placement

variable {n : Nat}

namespace Sched

section Fields

variable (s : Sched n) (p : TaskPtr) (c : Fin n) (f : Task → Task) (g : Cpu → Cpu)

@[simp] theorem updateTask_cpus : (s.updateTask p f).cpus = s.cpus := rfl
@[simp] theorem updateTask_live : (s.updateTask p f).live = s.live := rfl
@[simp] theorem updateTask_nextId : (s.updateTask p f).nextId = s.nextId := rfl
@[simp] theorem updateCpu_tasks : (s.updateCpu c g).tasks = s.tasks := rfl
@[simp] theorem updateCpu_live : (s.updateCpu c g).live = s.live := rfl
@[simp] theorem updateCpu_nextId : (s.updateCpu c g).nextId = s.nextId := rfl

theorem updateTask_tasks (x : TaskPtr) :
    (s.updateTask p f).tasks x = if x = p then f (s.tasks p) else s.tasks x := by
  simp [updateTask, Function.update_apply]

theorem updateCpu_cpus (d : Fin n) :
    (s.updateCpu c g).cpus d = if d = c then g (s.cpus c) else s.cpus d := by
  simp [updateCpu, Function.update_apply]

/-- What the update does not change of one task, it changes of none. -/
theorem updateTask_field {β : Type*} (k : Task → β) (h : k (f (s.tasks p)) = k (s.tasks p))
    (x : TaskPtr) : k ((s.updateTask p f).tasks x) = k (s.tasks x) := by
  rw [updateTask_tasks]
  split
  · rename_i hx
    rw [h, hx]
  · rfl

theorem updateCpu_field {β : Type*} (k : Cpu → β) (h : k (g (s.cpus c)) = k (s.cpus c))
    (d : Fin n) : k ((s.updateCpu c g).cpus d) = k (s.cpus d) := by
  rw [updateCpu_cpus]
  split
  · rename_i hd
    rw [h, hd]
  · rfl

end Fields

/-- `next` of each task. -/
def next (s : Sched n) (p : TaskPtr) : TaskPtr := (s.tasks p).next

/-- The runqueue of a CPU. -/
def rq (s : Sched n) (c : Fin n) : Runqueue := (s.cpus c).runqueue

end Sched

/-- **The runqueues are the lists `q`**, which share no task. -/
structure Queues (s : Sched n) (q : Fin n → List TaskPtr) : Prop where
  isQueue : ∀ c, IsQueue s.next 0 (s.rq c).head (s.rq c).tail (q c)
  apart : Apart q

/-- The tasks of a runqueue `enqueue_task` keeps. -/
def keptBy (s : Sched n) (q : Fin n → List TaskPtr) (c : Fin n) : List TaskPtr :=
  if (s.rq c).tail = 0 then [] else q c

/-- The runqueues after `enqueue_task`. -/
def enqueued (s : Sched n) (q : Fin n → List TaskPtr) (c : Fin n) (task : TaskPtr) :
    Fin n → List TaskPtr :=
  Function.update q c (keptBy s q c ++ if task = 0 then [] else [task])

theorem keptBy_sublist (s : Sched n) (q : Fin n → List TaskPtr) (c : Fin n) :
    (keptBy s q c).Sublist (q c) := by
  unfold keptBy
  split
  · exact List.nil_sublist _
  · exact List.Sublist.refl _

section Enqueue

variable (c : Fin n) (task : TaskPtr) (s : Sched n)

theorem enqueueTask_of_tail (h : (s.rq c).tail ≠ 0) : enqueueTask c task s =
    ((s.updateTask task fun t => { t with next := 0 }).updateTask (s.rq c).tail
      fun t => { t with next := task }).updateCpu c fun cpu =>
        { cpu with runqueue := ⟨(s.rq c).head, task, (s.rq c).count + 1⟩ } := by
  unfold enqueueTask
  exact if_pos h

theorem enqueueTask_of_not_tail (h : (s.rq c).tail = 0) : enqueueTask c task s =
    (s.updateTask task fun t => { t with next := 0 }).updateCpu c fun cpu =>
      { cpu with runqueue := ⟨task, task, (s.rq c).count + 1⟩ } := by
  unfold enqueueTask
  exact if_neg (not_not.mpr h)

/-- What does not read `next` is kept by `enqueue_task`. -/
theorem enqueueTask_tasks {β : Type*} (g : Task → β) (hg : ∀ t x, g { t with next := x } = g t)
    (p : TaskPtr) : g ((enqueueTask c task s).tasks p) = g (s.tasks p) := by
  by_cases htail : (s.rq c).tail = 0
  · rw [enqueueTask_of_not_tail _ _ _ htail, Sched.updateCpu_tasks,
      Sched.updateTask_field _ _ _ g (hg _ _)]
  · rw [enqueueTask_of_tail _ _ _ htail, Sched.updateCpu_tasks,
      Sched.updateTask_field _ _ _ g (hg _ _), Sched.updateTask_field _ _ _ g (hg _ _)]

/-- What does not read the runqueue is kept by `enqueue_task`. -/
theorem enqueueTask_cpus {β : Type*} (g : Cpu → β) (hg : ∀ x r, g { x with runqueue := r } = g x)
    (d : Fin n) : g ((enqueueTask c task s).cpus d) = g (s.cpus d) := by
  by_cases htail : (s.rq c).tail = 0
  · rw [enqueueTask_of_not_tail _ _ _ htail, Sched.updateCpu_field _ _ _ g (hg _ _)]
    rfl
  · rw [enqueueTask_of_tail _ _ _ htail, Sched.updateCpu_field _ _ _ g (hg _ _)]
    rfl

@[simp] theorem enqueueTask_live : (enqueueTask c task s).live = s.live := by
  unfold enqueueTask
  simp only
  split <;> rfl

@[simp] theorem enqueueTask_nextId : (enqueueTask c task s).nextId = s.nextId := by
  unfold enqueueTask
  simp only
  split <;> rfl

@[simp] theorem enqueueTask_state (p : TaskPtr) :
    ((enqueueTask c task s).tasks p).state = (s.tasks p).state :=
  enqueueTask_tasks c task s (·.state) (fun _ _ => rfl) p

@[simp] theorem enqueueTask_id (p : TaskPtr) :
    ((enqueueTask c task s).tasks p).id = (s.tasks p).id :=
  enqueueTask_tasks c task s (·.id) (fun _ _ => rfl) p

@[simp] theorem enqueueTask_current (d : Fin n) :
    (enqueueTask c task s).current d = s.current d :=
  enqueueTask_cpus c task s (·.currentTask) (fun _ _ => rfl) d

@[simp] theorem enqueueTask_idleTask (d : Fin n) :
    ((enqueueTask c task s).cpus d).idleTask = (s.cpus d).idleTask :=
  enqueueTask_cpus c task s (·.idleTask) (fun _ _ => rfl) d

theorem enqueueTask_rq (d : Fin n) : (enqueueTask c task s).rq d =
    if d = c then
      ⟨if (s.rq c).tail = 0 then task else (s.rq c).head, task, (s.rq c).count + 1⟩
    else s.rq d := by
  by_cases htail : (s.rq c).tail = 0
  · rw [enqueueTask_of_not_tail _ _ _ htail, if_pos htail, Sched.rq, Sched.updateCpu_cpus]
    split <;> rfl
  · rw [enqueueTask_of_tail _ _ _ htail, if_neg htail, Sched.rq, Sched.updateCpu_cpus]
    split <;> rfl

theorem enqueueTask_next (x : TaskPtr) : (enqueueTask c task s).next x =
    if (s.rq c).tail ≠ 0 ∧ x = (s.rq c).tail then task else if x = task then 0 else s.next x := by
  by_cases htail : (s.rq c).tail = 0
  · rw [enqueueTask_of_not_tail _ _ _ htail, if_neg fun h => h.1 htail, Sched.next,
      Sched.updateCpu_tasks, Sched.updateTask_tasks]
    split <;> rfl
  · rw [enqueueTask_of_tail _ _ _ htail, Sched.next, Sched.updateCpu_tasks, Sched.updateTask_tasks]
    by_cases hx : x = (s.rq c).tail
    · rw [if_pos hx, if_pos ⟨htail, hx⟩]
    · rw [if_neg hx, if_neg fun h => hx h.2, Sched.updateTask_tasks]
      split <;> rfl

/-- **`enqueue_task` on the lists**, for a task that is in none of them. -/
theorem Queues.enqueue {s : Sched n} {q : Fin n → List TaskPtr} (h : Queues s q) (c : Fin n)
    {task : TaskPtr} (hnew : ∀ d, task ∉ q d) :
    Queues (enqueueTask c task s) (enqueued s q c task) := by
  constructor
  · intro d
    rw [enqueueTask_rq]
    by_cases hd : d = c
    · subst hd
      rw [if_pos rfl, enqueued, Function.update_self, keptBy]
      -- an empty queue becomes one of the task, and another one has it at its end
      by_cases htail : (s.rq d).tail = 0
      · rw [if_pos htail, if_pos htail, List.nil_append]
        by_cases hnull : task = 0
        · rw [if_pos hnull, hnull]
          exact IsQueue.empty
        · rw [if_neg hnull]
          exact IsQueue.single hnull (by rw [enqueueTask_next]; simp [htail])
      · rw [if_neg htail, if_neg htail]
        have htask : task ≠ (s.rq d).tail := fun he => hnew d (he ▸ (h.isQueue d).tail_mem htail)
        by_cases hnull : task = 0
        · -- the tail's successor was `NULL` before
          rw [if_pos hnull, List.append_nil, hnull]
          refine (h.isQueue d).lost fun x hx => ?_
          have hx0 : x ≠ 0 := (h.isQueue d).linked.ne_nil hx
          rw [enqueueTask_next]
          by_cases hlast : x = (s.rq d).tail
          · rw [if_pos ⟨htail, hlast⟩, hlast, (h.isQueue d).next_tail htail]
          · rw [if_neg fun hc => hlast hc.2, if_neg hx0]
        · rw [if_neg hnull]
          refine (h.isQueue d).append htail hnull ?_ ?_ fun x hx hne => ?_
          · rw [enqueueTask_next, if_pos ⟨htail, rfl⟩]
          · rw [enqueueTask_next, if_neg fun hc => htask hc.2, if_pos rfl]
          · rw [enqueueTask_next, if_neg fun hc => hne hc.2, if_neg]
            rintro rfl
            exact hnew d hx
    -- the other queues hold neither the task nor the tail
    · rw [if_neg hd, enqueued, Function.update_of_ne hd]
      refine (h.isQueue d).congr fun x hx => ?_
      rw [enqueueTask_next, if_neg, if_neg]
      · rintro rfl
        exact hnew d hx
      · rintro ⟨htail, rfl⟩
        exact h.apart.disjoint d c hd _ hx ((h.isQueue c).tail_mem htail)
  · rw [enqueued]
    by_cases hnull : task = 0
    · rw [if_pos hnull, List.append_nil]
      exact h.apart.shrink (keptBy_sublist s q c)
    · rw [if_neg hnull]
      exact h.apart.put (keptBy_sublist s q c) hnew

end Enqueue

section Dequeue

variable (c : Fin n) (s : Sched n)

@[simp] theorem dequeueTask_tasks : (dequeueTask c s).2.tasks = s.tasks := by
  unfold dequeueTask
  simp only
  split <;> rfl

@[simp] theorem dequeueTask_live : (dequeueTask c s).2.live = s.live := by
  unfold dequeueTask
  simp only
  split <;> rfl

@[simp] theorem dequeueTask_nextId : (dequeueTask c s).2.nextId = s.nextId := by
  unfold dequeueTask
  simp only
  split <;> rfl

/-- What does not read the runqueue is kept by `dequeue_task`. -/
theorem dequeueTask_cpus {β : Type*} (g : Cpu → β) (hg : ∀ x r, g { x with runqueue := r } = g x)
    (d : Fin n) : g ((dequeueTask c s).2.cpus d) = g (s.cpus d) := by
  unfold dequeueTask
  simp only
  split
  · rfl
  · rw [Sched.updateCpu_cpus]
    split <;> simp [*]

@[simp] theorem dequeueTask_current (d : Fin n) :
    (dequeueTask c s).2.current d = s.current d :=
  dequeueTask_cpus c s (·.currentTask) (fun _ _ => rfl) d

@[simp] theorem dequeueTask_idleTask (d : Fin n) :
    ((dequeueTask c s).2.cpus d).idleTask = (s.cpus d).idleTask :=
  dequeueTask_cpus c s (·.idleTask) (fun _ _ => rfl) d

variable {c s}

/-- `dequeue_task` of an empty runqueue changes nothing. -/
theorem Queues.dequeue_nil {q : Fin n → List TaskPtr} (h : Queues s q) (hq : q c = []) :
    dequeueTask c s = (0, s) := by
  have hhead : (s.rq c).head = 0 := (h.isQueue c).head_eq_nil.mpr hq
  rw [Sched.rq] at hhead
  simp only [dequeueTask, hhead, if_true]

theorem dequeueTask_rq {task : TaskPtr} (hhead : (s.rq c).head = task) (hne : task ≠ 0)
    (d : Fin n) : (dequeueTask c s).2.rq d =
      if d = c then ⟨s.next task, if s.next task = 0 then 0 else (s.rq c).tail, (s.rq c).count - 1⟩
      else s.rq d := by
  rw [Sched.rq] at hhead
  simp only [dequeueTask, hhead, if_neg hne, Sched.rq, Sched.updateCpu_cpus]
  split <;> rfl

/-- **`dequeue_task` on the lists.** -/
theorem Queues.dequeue {q : Fin n → List TaskPtr} (h : Queues s q) {task : TaskPtr}
    {l : List TaskPtr} (hq : q c = task :: l) :
    (dequeueTask c s).1 = task ∧ task ≠ 0 ∧ Queues (dequeueTask c s).2 (Function.update q c l) := by
  have hqueue := h.isQueue c
  rw [hq] at hqueue
  obtain ⟨hhead, hne, -⟩ := hqueue.linked
  refine ⟨?_, hne, ?_, h.apart.shrink (hq ▸ List.sublist_cons_self task l)⟩
  · rw [Sched.rq] at hhead
    simp only [dequeueTask, hhead, if_neg hne]
  · have hnext : (dequeueTask c s).2.next = s.next := by
      funext x
      rw [Sched.next, dequeueTask_tasks, Sched.next]
    intro d
    rw [hnext, dequeueTask_rq hhead hne]
    by_cases hd : d = c
    · subst hd
      rw [if_pos rfl, Function.update_self]
      exact hqueue.dequeue
    · rw [if_neg hd, Function.update_of_ne hd]
      exact h.isQueue d

/-- What a switch does not set in a CPU, it keeps. -/
theorem switchTo_cpus {β : Type*} (g : Cpu → β)
    (hg : ∀ x task rsp0 stack cr3, g { x with
      currentTask := task, rsp0 := rsp0, kernelStack := stack, cr3 := cr3 } = g x)
    (s : Sched n) (c : Fin n) (next : TaskPtr) (d : Fin n) :
    g ((switchTo c next s).cpus d) = g (s.cpus d) := by
  simp only [switchTo, Sched.updateCpu_cpus, Sched.updateTask_cpus, if_true]
  split
  · rename_i hd
    rw [hd]
    exact hg _ _ _ _ _
  · rfl

/-- Where the links and the runqueues are the same, so are the lists. -/
theorem Queues.congr {s' : Sched n} {q : Fin n → List TaskPtr} (h : Queues s q)
    (hnext : ∀ c, ∀ p ∈ q c, s'.next p = s.next p) (hrq : ∀ c, s'.rq c = s.rq c) :
    Queues s' q := by
  refine ⟨fun c => ?_, h.apart⟩
  rw [hrq]
  exact (h.isQueue c).congr (hnext c)

end Dequeue

end ZohoOs
