import ZohoOs.Task.IdleSteal

/-!
# Round robin

The tasks of a machine with one CPU that are all runnable. `task_schedule` puts the running task behind
the others and takes the first of them, so in one round each of them runs once, from where it stopped.

## Main definitions

* `InTurn s t₀ ts`: the task that runs and those that wait
* `scheduleAll`: `task_schedule` called again and again

## Main results

* `InTurn.schedule`: what one call does
* `InTurn.scheduleAll`: what some calls do, up to a round
* `schedule_round`: one round
-/

namespace ZohoOs

open LinkedQueue Placement

/-- **The task `t₀` runs, and `ts` wait in the runqueue.** None of them is an idle task. -/
structure InTurn (s : Sched 1) (t₀ : TaskPtr) (ts : List TaskPtr) : Prop where
  current : s.current 0 = t₀
  allocated : t₀ ≠ 0
  running : (s.tasks t₀).state = .running
  queues : Queues s fun _ => ts
  tail : (s.rq 0).tail = 0 → ts = []
  ready : ∀ t ∈ ts, (s.tasks t).state = .ready
  id_ne_zero : ∀ t ∈ ts ++ [t₀], (s.tasks t).id ≠ 0

/-- `task_schedule`, called by the tasks that run one after another, with the stack pointer of each: the
tasks that run next, with the stack pointers they are resumed with. -/
def scheduleAll (fuel : Nat) : List (BitVec 64) → Sched 1 → Option (List (TaskPtr × BitVec 64) × Sched 1)
  | [], s => some ([], s)
  | rsp :: rsps, s => (taskSchedule fuel 0 rsp s).bind fun out =>
      (scheduleAll fuel rsps out.2).map fun later =>
        ((out.2.current 0, out.1) :: later.1, later.2)

/-- The task that becomes the current one is the only one that changes. -/
theorem switchTo_tasks {n : Nat} (s : Sched n) (c : Fin n) {next : TaskPtr} (hne : next ≠ 0)
    (t : TaskPtr) : (switchTo c next s).tasks t = if t = next then
      { s.tasks next with
        state := .running
        timeslice := if (s.tasks next).id = 0 then 0 else taskDefaultTimeslice }
      else s.tasks t := by
  rw [switchTo]
  simp only [if_neg hne]
  rw [Sched.updateCpu_tasks, Sched.updateTask_tasks, Sched.updateCpu_tasks]

namespace InTurn

variable {s : Sched 1} {t₀ next : TaskPtr} {ts rest : List TaskPtr}

theorem not_mem (h : InTurn s t₀ ts) : t₀ ∉ ts := by
  intro hmem
  have hready := h.ready t₀ hmem
  rw [h.running] at hready
  cases hready

theorem nodup (h : InTurn s t₀ ts) : (ts ++ [t₀]).Nodup := by
  refine List.nodup_append.mpr ⟨h.queues.apart.nodup 0, List.nodup_singleton _, ?_⟩
  rintro t ht _ hmem rfl
  exact h.not_mem (List.mem_singleton.mp hmem ▸ ht)

/-- The running task is the last one to run again. -/
theorem not_mem_dropLast {us ds : List TaskPtr} (h : InTurn s t₀ ts)
    (hturns : ts ++ [t₀] = us ++ ds) : t₀ ∉ us.dropLast := by
  intro hmem
  have hne : us ≠ [] := by
    rintro rfl
    exact List.not_mem_nil hmem
  have hsplit : ts ++ [t₀] = us.dropLast ++ ([us.getLast hne] ++ ds) := by
    rw [hturns, ← List.append_assoc, List.dropLast_append_getLast]
  -- both sides end with the running task
  have hlast : t₀ ∈ [us.getLast hne] ++ ds := by
    have hget := congrArg List.getLast? hsplit
    rw [List.getLast?_concat, List.getLast?_append_of_ne_nil _ (by simp)] at hget
    exact List.mem_of_getLast? hget.symm
  have hnodup := h.nodup
  rw [hsplit] at hnodup
  exact (List.nodup_append.mp hnodup).2.2 t₀ hmem t₀ hlast rfl

/-- The running task goes behind those that wait. -/
theorem requeue (h : InTurn s t₀ ts) (rsp : BitVec 64) :
    Queues (requeueCurrent 0 rsp s) (fun _ => ts ++ [t₀]) ∧
      ((requeueCurrent 0 rsp s).rq 0).tail = t₀ ∧
      (∀ t ∈ ts ++ [t₀], ((requeueCurrent 0 rsp s).tasks t).state = .ready) ∧
      ∀ t, ((requeueCurrent 0 rsp s).tasks t).id = (s.tasks t).id ∧
        ((requeueCurrent 0 rsp s).tasks t).rsp =
          Function.update (fun t => (s.tasks t).rsp) t₀ rsp t := by
  obtain ⟨u, hu⟩ : ∃ u, u = ((s.updateCpu 0 fun x => { x with needResched := false }).updateTask t₀
    fun x => { x with rsp := rsp }).updateTask t₀ fun x => { x with state := .ready } := ⟨_, rfl⟩
  have hid : ∀ t, (u.tasks t).id = (s.tasks t).id := by
    intro t
    rw [hu, Sched.updateTask_field _ _ _ (·.id) rfl, Sched.updateTask_field _ _ _ (·.id) rfl,
      Sched.updateCpu_tasks]
  have hrsp : ∀ t, (u.tasks t).rsp = Function.update (fun t => (s.tasks t).rsp) t₀ rsp t := by
    intro t
    rw [hu, Sched.updateTask_field _ _ _ (·.rsp) rfl, Sched.updateTask_tasks, Sched.updateCpu_tasks,
      Function.update_apply]
    split <;> rfl
  have hstate : ∀ t, (u.tasks t).state = if t = t₀ then .ready else (s.tasks t).state := by
    intro t
    rw [hu, Sched.updateTask_tasks]
    split
    · rfl
    · rw [Sched.updateTask_field _ _ _ (·.state) rfl, Sched.updateCpu_tasks]
  have hqueues : Queues u fun _ => ts := by
    rw [hu]
    refine Queues.updateTask ?_ rfl
    refine Queues.updateTask ?_ rfl
    exact h.queues.updateCpu rfl
  have hrq : u.rq 0 = s.rq 0 := by
    rw [hu]
    exact s.updateCpu_field 0 (fun x => { x with needResched := false }) (·.runqueue) rfl 0
  -- the task is running and no idle task, so it is put back
  have heq : requeueCurrent 0 rsp s = enqueueTask 0 t₀ u := by
    have hrun : (((s.updateCpu 0 fun x => { x with needResched := false }).updateTask t₀
        fun x => { x with rsp := rsp }).tasks t₀).state = .running := by
      rw [Sched.updateTask_field _ _ _ (·.state) rfl]
      exact h.running
    have hne : (u.tasks t₀).id ≠ 0 := by
      rw [hid]
      exact h.id_ne_zero t₀ (List.mem_append_right _ (List.mem_singleton_self _))
    rw [requeueCurrent]
    simp only [h.current]
    rw [if_pos hrun, ← hu, if_pos hne]
  -- nothing is lost, as the runqueue has its tail
  have hlist : enqueued u (fun _ => ts) 0 t₀ = fun _ => ts ++ [t₀] := by
    funext d
    obtain rfl := Subsingleton.elim 0 d
    rw [enqueued, Function.update_self, keptBy, hrq, if_neg h.allocated]
    by_cases htail : (s.rq 0).tail = 0
    · rw [if_pos htail, h.tail htail]
    · rw [if_neg htail]
  rw [heq]
  refine ⟨hlist ▸ hqueues.enqueue 0 fun _ => h.not_mem, ?_, fun t ht => ?_, fun t => ⟨?_, ?_⟩⟩
  · rw [enqueueTask_rq, if_pos rfl]
  · rw [enqueueTask_state, hstate]
    split
    · rfl
    · rename_i hne
      rcases List.mem_append.mp ht with ht | ht
      · exact h.ready t ht
      · exact absurd (List.mem_singleton.mp ht) hne
  · rw [enqueueTask_id, hid]
  · rw [enqueueTask_tasks 0 t₀ u (·.rsp) (fun _ _ => rfl), hrsp]

/-- **`task_schedule`** takes the first task that waits, and resumes it where it stopped. -/
theorem schedule (h : InTurn s t₀ ts) (hturn : ts ++ [t₀] = next :: rest) (rsp : BitVec 64)
    (fuel : Nat) : ∃ s', taskSchedule (fuel + 1) 0 rsp s = some ((s'.tasks next).rsp, s') ∧
      InTurn s' next rest ∧
      ∀ t, (s'.tasks t).rsp = Function.update (fun t => (s.tasks t).rsp) t₀ rsp t := by
  obtain ⟨hqueues, htail, hready, hkept⟩ := h.requeue rsp
  obtain ⟨u, hu⟩ : ∃ u, u = requeueCurrent 0 rsp s := ⟨_, rfl⟩
  rw [← hu] at hqueues htail hready hkept
  rw [hturn] at hqueues hready
  have hnext : next ∈ next :: rest := List.mem_cons_self
  have hselect : selectNext 0 (fuel + 1) u = some (next, (dequeueTask 0 u).2) :=
    hqueues.selectNext_own rfl (hready next hnext) fuel
  obtain ⟨-, hne, hqueues'⟩ := hqueues.dequeue (c := 0) rfl
  have hnodup : (next :: rest).Nodup := hqueues.apart.nodup 0
  -- where the runqueue has lost its tail, it is empty
  have hrest : ((dequeueTask 0 u).2.rq 0).tail = 0 → rest = [] := by
    have hhead : (u.rq 0).head = next := (hqueues.isQueue 0).linked.1
    rw [dequeueTask_rq hhead hne, if_pos rfl]
    simp only [htail]
    intro hlost
    split at hlost
    · rename_i hend
      exact (hqueues.isQueue 0).dequeue.head_eq_nil.mp hend
    · exact absurd hlost h.allocated
  obtain ⟨v, hv⟩ : ∃ v, v = (dequeueTask 0 u).2 := ⟨_, rfl⟩
  rw [← hv] at hselect hqueues' hrest
  have htasks : v.tasks = u.tasks := by rw [hv, dequeueTask_tasks]
  have hcurrent : (switchTo 0 next v).current 0 = next := (switchTo_current v 0 hne).1
  have hkept' : ∀ t, ((switchTo 0 next v).tasks t).id = (s.tasks t).id ∧
      ((switchTo 0 next v).tasks t).rsp = Function.update (fun t => (s.tasks t).rsp) t₀ rsp t := by
    intro t
    rw [switchTo_tasks v 0 hne, htasks]
    split
    · rename_i heq
      exact heq ▸ hkept next
    · exact hkept t
  refine ⟨switchTo 0 next v, ?_, ⟨hcurrent, hne, ?_, ?_, ?_, fun t ht => ?_, fun t ht => ?_⟩,
    fun t => (hkept' t).2⟩
  · rw [taskSchedule, if_neg (h.current.symm ▸ h.allocated), ← hu, hselect, Option.map_some]
    dsimp only
    rw [hcurrent]
  · rw [switchTo_tasks v 0 hne, if_pos rfl]
  · have hlist : Function.update (fun _ => next :: rest) 0 rest = fun _ : Fin 1 => rest := by
      funext d
      obtain rfl := Subsingleton.elim 0 d
      exact Function.update_self _ _ _
    exact (hlist ▸ hqueues').switchTo 0 next
  · have hrq : (switchTo 0 next v).rq 0 = v.rq 0 :=
      switchTo_cpus (·.runqueue) (fun _ _ _ _ _ => rfl) v 0 next 0
    rw [hrq]
    exact hrest
  -- the task that runs is not one of those that wait
  · rw [switchTo_tasks v 0 hne, htasks, if_neg]
    · exact hready t (List.mem_cons_of_mem _ ht)
    · rintro rfl
      exact (List.nodup_cons.mp hnodup).1 ht
  · rw [(hkept' t).1]
    refine h.id_ne_zero t ?_
    rw [hturn]
    exact (List.perm_append_singleton next rest).mem_iff.mp ht

/-- **Some calls**, up to a round: the tasks that wait run in their order, each from where it stopped, and
those that ran wait behind the others. -/
theorem scheduleAll {us ds : List TaskPtr} (h : InTurn s t₀ ts) (hturns : ts ++ [t₀] = us ++ ds)
    {rsps : List (BitVec 64)} (hlen : rsps.length = us.length) (fuel : Nat) :
    ∃ s' t' ts', ZohoOs.scheduleAll (fuel + 1) rsps s = some
        (us.map fun t => (t, if t = t₀ then rsps.headD 0 else (s.tasks t).rsp), s') ∧
      InTurn s' t' ts' ∧ ts' ++ [t'] = ds ++ us ∧
      (t₀ :: us).dropLast.map (fun t => (s'.tasks t).rsp) = rsps ∧
      ∀ t ∉ (t₀ :: us).dropLast, (s'.tasks t).rsp = (s.tasks t).rsp := by
  -- by the calls: each moves the first task that waits behind the running one
  induction us generalizing s t₀ ts ds rsps with
  | nil =>
    obtain rfl := List.length_eq_zero_iff.mp hlen
    exact ⟨s, t₀, ts, rfl, h, by rw [hturns, List.nil_append, List.append_nil], rfl, fun _ _ => rfl⟩
  | cons u us ih =>
    obtain ⟨rsp, rsps, rfl⟩ := List.exists_cons_of_length_eq_add_one hlen
    obtain ⟨s₁, hcall, h₁, hrsp⟩ := h.schedule hturns rsp fuel
    have hlen' : rsps.length = us.length := Nat.succ_injective hlen
    have hturns' : us ++ ds ++ [u] = us ++ (ds ++ [u]) := List.append_assoc _ _ _
    obtain ⟨s', t', ts', hcalls, h', hlast, hsaved, hother⟩ := ih h₁ hturns' hlen'
    have hnodup : (u :: (us ++ ds)).Nodup := by
      rw [← List.cons_append, ← hturns]
      exact h.nodup
    have hdrop : (t₀ :: u :: us).dropLast = t₀ :: (u :: us).dropLast := rfl
    have hrsp' : ∀ t, (s₁.tasks t).rsp = if t = t₀ then rsp else (s.tasks t).rsp := by
      intro t
      rw [hrsp, Function.update_apply]
    refine ⟨s', t', ts', ?_, h', hlast.trans (List.append_assoc _ _ _), ?_, fun t ht => ?_⟩
    · have hus : (us.map fun t => (t, if t = u then rsps.headD 0 else (s₁.tasks t).rsp)) =
          us.map fun t => (t, if t = t₀ then rsp else (s.tasks t).rsp) := by
        refine List.map_congr_left fun t ht => ?_
        -- the task that runs now is not among those that follow it
        have hne : t ≠ u := by
          rintro rfl
          exact (List.nodup_cons.mp hnodup).1 (List.mem_append_left _ ht)
        rw [if_neg hne, hrsp']
      rw [ZohoOs.scheduleAll, hcall, Option.bind_some, hcalls, Option.map_some, h₁.current, hus]
      dsimp only
      rw [hrsp']
      rfl
    · rw [hdrop, List.map_cons, hsaved, hother t₀ (h.not_mem_dropLast hturns), hrsp', if_pos rfl]
    · rw [hdrop, List.mem_cons, not_or] at ht
      rw [hother t ht.2, hrsp', if_neg ht.1]

end InTurn

/-- **One round**: the tasks that wait run in their order, each from the stack pointer it was switched out
with, and then the first one again. They wait in the same order as before, each with the stack pointer of
its call. -/
theorem schedule_round {s : Sched 1} {t₀ : TaskPtr} {ts : List TaskPtr} (h : InTurn s t₀ ts)
    (rsp : BitVec 64) {rsps : List (BitVec 64)} (hlen : rsps.length = ts.length) (fuel : Nat) :
    ∃ s', scheduleAll (fuel + 1) (rsp :: rsps) s =
        some ((ts.map fun t => (t, (s.tasks t).rsp)) ++ [(t₀, rsp)], s') ∧
      InTurn s' t₀ ts ∧ (t₀ :: ts).map (fun t => (s'.tasks t).rsp) = rsp :: rsps := by
  have hturns : ts ++ [t₀] = (ts ++ [t₀]) ++ [] := (List.append_nil _).symm
  have hlen' : (rsp :: rsps).length = (ts ++ [t₀]).length := by
    rw [List.length_cons, List.length_append, hlen]
    rfl
  obtain ⟨s', t', ts', hcalls, h', hlast, hsaved, -⟩ := h.scheduleAll hturns hlen' fuel
  -- after the whole round the order is the one from the start
  obtain ⟨rfl, heq⟩ := List.append_inj' (hlast.trans (List.nil_append _)) rfl
  obtain rfl := List.singleton_inj.mp heq
  have hdrop : (t' :: (ts' ++ [t'])).dropLast = t' :: ts' := by
    rw [← List.cons_append, List.dropLast_concat]
  rw [hdrop] at hsaved
  refine ⟨s', ?_, h', hsaved⟩
  have hts : (ts'.map fun t => (t, if t = t' then rsp else (s.tasks t).rsp)) =
      ts'.map fun t => (t, (s.tasks t).rsp) := by
    refine List.map_congr_left fun t ht => ?_
    rw [if_neg]
    rintro rfl
    exact h.not_mem ht
  rw [hcalls, List.map_append, List.headD_cons, hts, List.map_cons, if_pos rfl, List.map_nil]

/-- A task that runs and two that wait. -/
def threeTasks : Sched 1 where
  tasks p :=
    if p = 0x1000100 then ⟨1, 0, 0, 0, 0, 0x100000, .running, 0, 4, 0, 0⟩
    else if p = 0x1000200 then ⟨2, 0x2F50, 0, 0, 0, 0x100000, .ready, 0, 4, 0, 0x1000300⟩
    else ⟨3, 0x3F50, 0, 0, 0, 0x100000, .ready, 0, 4, 0, 0⟩
  cpus _ := ⟨0, 0x1000100, 0x1000018, false, 0, 0, 0, 0, 0x100000, ⟨0x1000200, 0x1000300, 2⟩⟩
  nextId := 4
  live := {0x1000018, 0x1000100, 0x1000200, 0x1000300}
  reaped := []

theorem threeTasks_inTurn : InTurn threeTasks 0x1000100 [0x1000200, 0x1000300] where
  current := rfl
  allocated := by simp
  running := rfl
  queues :=
    { isQueue := fun _ => ⟨⟨rfl, by simp, rfl, by simp, rfl⟩, fun _ => rfl⟩
      apart := ⟨fun _ => by simp, fun c d hne => absurd (Subsingleton.elim c d) hne⟩ }
  tail h := absurd h (by simp [Sched.rq, threeTasks])
  ready := by simp [threeTasks]
  id_ne_zero := by simp [threeTasks]

theorem schedule_round_three : ∃ s', scheduleAll 1 [0x9000, 0xA000, 0xB000] threeTasks =
      some ([(0x1000200, 0x2F50), (0x1000300, 0x3F50), (0x1000100, 0x9000)], s') ∧
    InTurn s' 0x1000100 [0x1000200, 0x1000300] ∧
    [0x1000100, 0x1000200, 0x1000300].map (fun t => (s'.tasks t).rsp) = [0x9000, 0xA000, 0xB000] :=
  schedule_round threeTasks_inTurn 0x9000 rfl 0

end ZohoOs
