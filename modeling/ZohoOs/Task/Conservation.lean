import ZohoOs.Task.SchedSimulation
import Mathlib.Data.Finset.Card
import Mathlib.Order.Interval.Finset.Nat

/-!
# No task is lost or doubled

While `kmalloc` has a block for each new `task_t`, the scheduler keeps each runnable task in one
runqueue or on one CPU, and its runqueues well linked and counted. A creation without a block puts
`NULL` into a runqueue, which loses its tail and counts a task that is not there.

## Main definitions

* `Sched.Conserved`: each runnable task is somewhere, once
* `ViewKept`: the invariant behind it
* `SchedOp.Allocates`: `kmalloc` had a block for the new task

## Main results

* `schedRun_conserved_iff`: a run conserves the tasks, and each `task_schedule` returns, just if
  each creation had a block
-/

namespace ZohoOs

open TransitionSystem LinkedQueue Placement

variable {n : Nat}

/-- **Conservation.** With `q` the tasks linked from each runqueue's head: the tail is the last of
them and the count their number; they are ready, and none is an idle task; and each non-idle task
that is ready or running occurs once in the runqueues and the current tasks. -/
def Sched.Conserved (s : Sched n) : Prop :=
  ∃ q : Fin n → List TaskPtr,
    (∀ c, Linked s.next 0 (s.rq c).head (q c) ∧ (s.rq c).tail = (q c).getLast?.getD 0 ∧
      (s.rq c).count.toNat = (q c).length) ∧
    (∀ c, ∀ p ∈ q c, (s.tasks p).state = .ready ∧ ∀ d, p ≠ (s.cpus d).idleTask) ∧
    ∀ p ∈ s.live, (∀ d, p ≠ (s.cpus d).idleTask) →
      (s.tasks p).state = .ready ∨ (s.tasks p).state = .running →
      (∑ c, (q c).count p) + (Finset.univ.filter fun c => s.current c = p).card = 1

/-- The selection loop ends, on every CPU. -/
def Sched.ScheduleReturns (s : Sched n) : Prop :=
  ∀ (c : Fin n) (currentRsp : BitVec 64),
    ∃ fuel rsp t, taskSchedule fuel c currentRsp s = some (rsp, t)

/-- If the call allocates a `task_t`, `kmalloc` does not return `NULL`. -/
def SchedOp.Allocates (op : SchedOp n) : Prop := op.newTask ≠ some 0

/-! ## The invariant -/

/-- The runqueues are whole, and each runnable task is at some place. -/
structure ViewKept (v : SchedView n) : Prop where
  tail : ∀ c, v.tail c = 0 → v.queue c = []
  count : ∀ c, v.count c = BitVec.ofNat 32 (v.queue c).length
  placed : ∀ p ∈ v.live, (∀ c, p ≠ v.idle c) → v.state p ≠ .exited → ∃ i, p ∈ v.places i
  id_ne : ∀ p ∈ v.live, (∀ c, p ≠ v.idle c) → v.id p ≠ 0
  heap : ∀ p ∈ v.live, InHeap p
  nextId : 1 ≤ v.nextId.toNat ∧ v.nextId.toNat ≤ v.live.card + 1

namespace ViewKept

variable {v : SchedView n}

/-- The heap has room for fewer tasks than the counters can count. -/
theorem card_live (h : ViewKept v) : v.live.card ≤ 2 ^ 24 := by
  have hsub : v.live ⊆ Finset.Ico heapStart (heapStart + heapSize) :=
    fun p hp => Finset.mem_Ico.mpr (h.heap p hp)
  have := Finset.card_le_card hsub
  rwa [Nat.card_Ico, Nat.add_sub_cancel_left] at this

theorem kept_eq (h : ViewKept v) (c : Fin n) : v.kept c = v.queue c := by
  rw [SchedView.kept]
  split
  · rename_i htail
    exact (h.tail c htail).symm
  · rfl

/-- Whole runqueues stay so when a task is added. -/
theorem enqueue (h : ViewKept v) {c : Fin n} {p : TaskPtr} (hp : p ≠ 0) :
    (∀ d, (v.enqueue c p).tail d = 0 → (v.enqueue c p).queue d = []) ∧
      (∀ d, (v.enqueue c p).count d = BitVec.ofNat 32 ((v.enqueue c p).queue d).length) ∧
      (v.enqueue c p).queue = Function.update v.queue c (v.queue c ++ [p]) := by
  have hqueue : (v.enqueue c p).queue = Function.update v.queue c (v.queue c ++ [p]) := by
    rw [SchedView.enqueue, h.kept_eq, if_neg hp]
  refine ⟨fun d htail => ?_, fun d => ?_, hqueue⟩
  · by_cases hd : d = c
    · subst hd
      exact absurd ((Function.update_self _ _ _).symm.trans htail) hp
    · rw [hqueue, Function.update_of_ne hd]
      exact h.tail d ((Function.update_of_ne hd _ _).symm.trans htail)
  · rw [hqueue]
    show Function.update v.count c (v.count c + 1) d = _
    by_cases hd : d = c
    · subst hd
      rw [Function.update_self, Function.update_self, h.count, List.length_append,
        BitVec.ofNat_add]
      rfl
    · rw [Function.update_of_ne hd, Function.update_of_ne hd]
      exact h.count d

/-- A new task goes to a runqueue. -/
theorem create (h : ViewKept v) {target : Fin n} {task : TaskPtr}
    (hne : task ≠ 0) (hheap : InHeap task) (hnot : task ∉ v.live) :
    ViewKept ((v.build task).enqueue target task) := by
  obtain ⟨htail, hcount, hqueue⟩ := h.enqueue (c := target) hne
  have hlive : ((v.build task).enqueue target task).live = insert task v.live := if_neg hne
  have hroom := h.card_live
  have hnext := h.nextId
  -- The id does not wrap: there are no more tasks than the heap has room for.
  have hsucc : (v.nextId + 1).toNat = v.nextId.toNat + 1 := by
    have hone : (1 : BitVec 64).toNat = 1 := rfl
    rw [BitVec.toNat_add, hone]
    exact Nat.mod_eq_of_lt (by omega)
  refine ⟨htail, hcount, fun p hp hidle hstate => ?_, fun p hp hidle => ?_, fun p hp => ?_, ?_⟩
  · rw [hlive] at hp
    rcases Finset.mem_insert.mp hp with rfl | hp
    · refine ⟨.inl target, ?_⟩
      show p ∈ (v.enqueue target p).queue target
      rw [hqueue, Function.update_self]
      exact List.mem_append_right _ (List.mem_singleton_self p)
    · -- An older task keeps its state and its place; the queue of `target` has only grown.
      have hpt : p ≠ task := fun he => hnot (he ▸ hp)
      have hold : v.state p ≠ .exited := by
        have : Function.update v.state task .ready p ≠ .exited := hstate
        rwa [Function.update_of_ne hpt] at this
      obtain ⟨i, hi⟩ := h.placed p hp hidle hold
      refine ⟨i, ?_⟩
      rcases i with c | c
      · show p ∈ (v.enqueue target task).queue c
        rw [hqueue]
        by_cases hc : c = target
        · subst hc
          rw [Function.update_self]
          exact List.mem_append_left _ hi
        · rw [Function.update_of_ne hc]
          exact hi
      · exact hi
  · show Function.update v.id task v.nextId p ≠ 0
    by_cases hpt : p = task
    · rw [hpt, Function.update_self]
      intro hzero
      rw [hzero] at hnext
      exact absurd hnext.1 (by decide)
    · rw [Function.update_of_ne hpt]
      rw [hlive] at hp
      exact h.id_ne p ((Finset.mem_insert.mp hp).resolve_left hpt) hidle
  · rw [hlive] at hp
    rcases Finset.mem_insert.mp hp with rfl | hp
    · exact hheap
    · exact h.heap p hp
  · show 1 ≤ (v.nextId + 1).toNat ∧ (v.nextId + 1).toNat ≤ _
    rw [hlive, Finset.card_insert_of_notMem hnot, hsucc]
    omega

/-- Of what is placed, only the states and the places are read. -/
theorem of_places (h : ViewKept v) {w : SchedView n} (hqueue : w.queue = v.queue)
    (htail : w.tail = v.tail) (hcount : w.count = v.count) (hidle : w.idle = v.idle)
    (hid : w.id = v.id) (hlive : w.live = v.live) (hnext : w.nextId = v.nextId)
    (hplaced : ∀ p ∈ v.live, (∀ c, p ≠ v.idle c) → w.state p ≠ .exited → ∃ i, p ∈ w.places i) :
    ViewKept w where
  tail c hc := by
    rw [hqueue]
    exact h.tail c (htail ▸ hc)
  count c := by rw [hcount, hqueue, h.count]
  placed p hp hi hs := hplaced p (hlive ▸ hp) (hidle ▸ hi) hs
  id_ne p hp hi := by
    rw [hid]
    exact h.id_ne p (hlive ▸ hp) (hidle ▸ hi)
  heap p hp := h.heap p (hlive ▸ hp)
  nextId := by rw [hnext, hlive]; exact h.nextId

/-- The outgoing task of a CPU is requeued, is idle, or has exited. -/
theorem leave (h : ViewKept v) (hinv : ViewInv v) {c : Fin n} (hrun : v.phase c = .running) :
    ViewKept (v.leave c) := by
  have hhand := ViewInv.hand_of_phase hrun
  have hrel : (v.setPhase c .pull).places = Function.update v.places (.inr c) [] :=
    SchedView.places_of_hand rfl (v.hand_setPhase c .pull)
  -- every other task is where it was
  have hother : ∀ p i, p ≠ v.current c → p ∈ v.places i → p ∈ (v.setPhase c .pull).places i := by
    intro p i hne hi
    rw [hrel, mem_update]
    by_cases hic : i = .inr c
    · subst hic
      rw [SchedView.places_inr, hhand] at hi
      exact absurd (List.mem_singleton.mp hi) hne
    · exact Or.inr ⟨hic, hi⟩
  rw [SchedView.leave]
  by_cases hstate : v.state (v.current c) = .running
  · rw [if_pos hstate]
    by_cases hid : v.id (v.current c) = 0
    · rw [if_neg (not_not.mpr hid)]
      refine h.of_places rfl rfl rfl rfl rfl rfl rfl fun p hp hidle hs => ?_
      have hne : p ≠ v.current c := fun he => h.id_ne p hp hidle (he ▸ hid)
      obtain ⟨i, hi⟩ := h.placed p hp hidle fun hx => hs ((Function.update_of_ne hne _ _).trans hx)
      exact ⟨i, hother p i hne hi⟩
    · rw [if_pos hid]
      have hnull : v.current c ≠ 0 := fun he => hinv.null (he ▸ hinv.current c)
      obtain ⟨htail, hcount, hqueue⟩ := h.enqueue (c := c) hnull
      refine ⟨htail, hcount, fun p hp hidle hs => ?_, h.id_ne, h.heap, h.nextId⟩
      by_cases hne : p = v.current c
      · refine ⟨.inl c, ?_⟩
        show p ∈ (v.enqueue c (v.current c)).queue c
        rw [hqueue, Function.update_self, hne]
        exact List.mem_append_right _ (List.mem_singleton_self _)
      · obtain ⟨i, hi⟩ := h.placed p hp hidle fun hx => hs ((Function.update_of_ne hne _ _).trans hx)
        have hold := hother p i hne hi
        refine ⟨i, ?_⟩
        rcases i with d | d
        · show p ∈ (v.enqueue c (v.current c)).queue d
          rw [hqueue]
          by_cases hd : d = c
          · subst hd
            rw [Function.update_self]
            exact List.mem_append_left _ hold
          · rw [Function.update_of_ne hd]
            exact hold
        · exact hold
  · rw [if_neg hstate]
    refine h.of_places rfl rfl rfl rfl rfl rfl rfl fun p hp hidle hs => ?_
    have hok := hinv.phase c
    rw [hrun] at hok
    have hne : p ≠ v.current c := by
      rintro rfl
      cases hx : v.state (v.current c) with
      | ready => exact hok hx
      | running => exact hstate hx
      | exited => exact hs hx
    obtain ⟨i, hi⟩ := h.placed p hp hidle hs
    exact ⟨i, hother p i hne hi⟩

/-- A task goes from a runqueue into a hand. -/
theorem take (h : ViewKept v) {c source : Fin n} {task : TaskPtr} {l : List TaskPtr}
    (hhand : v.hand c = []) (hq : v.queue source = task :: l) :
    ViewKept ((v.dequeue source l).setPhase c (.check task)) := by
  refine ⟨fun d htail => ?_, fun d => ?_, fun p hp hidle hs => ?_, h.id_ne, h.heap, h.nextId⟩
  · show Function.update v.queue source l d = []
    by_cases hd : d = source
    · subst hd
      rw [Function.update_self]
      -- The tail is written with 0 only when the queue became empty.
      by_contra hl
      have hzero : (if l = [] then 0 else v.tail d) = 0 :=
        (Function.update_self _ _ _).symm.trans htail
      rw [if_neg hl] at hzero
      have hnil := h.tail d hzero
      rw [hq] at hnil
      cases hnil
    · rw [Function.update_of_ne hd]
      exact h.tail d ((Function.update_of_ne hd _ _).symm.trans htail)
  · show Function.update v.count source (v.count source - 1) d =
      BitVec.ofNat 32 (Function.update v.queue source l d).length
    by_cases hd : d = source
    · subst hd
      rw [Function.update_self, Function.update_self, h.count, hq, List.length_cons,
        BitVec.ofNat_add]
      exact BitVec.add_sub_cancel _ _
    · rw [Function.update_of_ne hd, Function.update_of_ne hd]
      exact h.count d
  · obtain ⟨i, hi⟩ := h.placed p hp hidle hs
    have hplaces : ((v.dequeue source l).setPhase c (.check task)).places =
        Function.update (Function.update v.places (.inl source) l) (.inr c) [task] :=
      SchedView.places_congr rfl (SchedView.hand_setPhase _ _ _)
    rw [hplaces]
    by_cases hne : p = task
    · exact ⟨.inr c, mem_update.mpr (Or.inl ⟨rfl, List.mem_singleton.mpr hne⟩)⟩
    · refine ⟨i, mem_update.mpr (Or.inr ⟨?_, mem_update.mpr ?_⟩)⟩
      · rintro rfl
        rw [SchedView.places_inr, hhand] at hi
        cases hi
      · by_cases his : i = .inl source
        · subst his
          rw [SchedView.places_inl, hq] at hi
          exact Or.inl ⟨rfl, (List.mem_cons.mp hi).resolve_left hne⟩
        · exact Or.inr ⟨his, hi⟩

/-- A CPU switches to what it has in hand. -/
theorem commit (h : ViewKept v) {c : Fin n} {next : TaskPtr} (hphase : v.phase c = .commit next) :
    ViewKept (v.commit c next) := by
  have hhand := ViewInv.hand_of_phase hphase
  refine h.of_places rfl rfl rfl rfl rfl rfl rfl fun p hp hidle hs => ?_
  have hplaces : (v.commit c next).places =
      Function.update v.places (.inr c) [if next = 0 then v.idle c else next] :=
    SchedView.places_of_hand rfl (v.hand_commit c next)
  rw [hplaces]
  by_cases hne : p = if next = 0 then v.idle c else next
  · exact ⟨.inr c, mem_update.mpr (Or.inl ⟨rfl, List.mem_singleton.mpr hne⟩)⟩
  · have hold : v.state p ≠ .exited := fun hx => hs ((Function.update_of_ne hne _ _).trans hx)
    obtain ⟨i, hi⟩ := h.placed p hp hidle hold
    refine ⟨i, mem_update.mpr (Or.inr ⟨?_, hi⟩)⟩
    rintro rfl
    rw [SchedView.places_inr, hhand, Phase.hand] at hi
    by_cases hnext : next = 0
    · rw [if_pos hnext] at hi
      cases hi
    · rw [if_neg hnext] at hi hne
      exact hne (List.mem_singleton.mp hi)

/-- **Each step keeps the tasks**, where new ones have a block. -/
theorem step (h : ViewKept v) (hinv : ViewInv v) {op : MachineOp n} {w : SchedView n}
    (hstep : ViewStep v op w) (hnew : ∀ target, op.spawns ≠ some (target, 0)) : ViewKept w := by
  cases hstep with
  | @create _ target task hspawns hfresh =>
    have hne : task ≠ 0 := fun he => hnew target (he ▸ hspawns)
    obtain ⟨hheap, hnot⟩ := hfresh.resolve_left hne
    exact h.create hne hheap hnot
  | @exit _ cpu _ hrun =>
    refine h.of_places rfl rfl rfl rfl rfl rfl rfl fun p hp hidle hs => ?_
    -- the task that exits is the only one whose state changes
    have hne : p ≠ v.current cpu := by
      rintro rfl
      exact hs (Function.update_self _ _ _)
    exact h.placed p hp hidle fun hx => hs ((Function.update_of_ne hne _ _).trans hx)
  | tick => exact h
  | enter hrun => exact h.leave hinv hrun
  | @take cpu source task l hphase hq =>
    refine h.take ?_ hq
    rcases hphase with ⟨hphase, -⟩ | ⟨⟨rest, hphase⟩, -⟩
    · rw [ViewInv.hand_of_phase hphase]
      rfl
    · rw [ViewInv.hand_of_phase hphase]
      rfl
  | @pass cpu phase hpass =>
    refine h.of_places rfl rfl rfl rfl rfl rfl rfl fun p hp hidle hs => ?_
    -- a search that goes on has nothing in its hand
    obtain ⟨i, hi⟩ := h.placed p hp hidle hs
    refine ⟨i, ?_⟩
    rw [hinv.places_pass hpass]
    exact hi
  | commit hphase => exact h.commit hphase
  | stay => exact h

end ViewKept

/-! ## Calls -/

/-- The lists of a machine, with the invariants of both kinds. -/
structure KeptBy (m : Machine n) (q : Fin n → List TaskPtr) : Prop where
  sim : Simulated m q
  kept : ViewKept (m.view q)

theorem KeptBy.step {m m' : Machine n} {q : Fin n → List TaskPtr} (h : KeptBy m q)
    {op : MachineOp n} (hstep : machineStep m op m') (hnew : ∀ target, op.spawns ≠ some (target, 0)) :
    ∃ q', KeptBy m' q' := by
  obtain ⟨q', hsim, hview⟩ := h.sim.step hstep
  exact ⟨q', hsim, h.kept.step h.sim.inv hview hnew⟩

theorem Sched.Booted.kept {s : Sched n} (h : s.Booted) : KeptBy s.idleMachine fun _ => [] := by
  refine ⟨h.simulated, fun _ _ => rfl, fun c => ?_, fun p hp hidle _ => ?_, fun p hp hidle => ?_,
    h.heap, ?_⟩
  · show (s.rq c).count = 0
    rw [Sched.rq, h.queue]
  · obtain ⟨c, rfl⟩ := (h.live p).mp hp
    exact absurd rfl (hidle c)
  · obtain ⟨c, rfl⟩ := (h.live p).mp hp
    exact absurd rfl (hidle c)
  · show 1 ≤ s.nextId.toNat ∧ s.nextId.toNat ≤ s.live.card + 1
    rw [h.nextId]
    exact ⟨le_refl 1, Nat.le_add_left 1 _⟩

/-- In a run whose new tasks have a block, the lists are kept. -/
theorem machineRun_kept {s : Sched n} (h : s.Booted) {m : Machine n} {ls : List (MachineOp n)}
    (hrun : Run machineStep s.idleMachine ls m)
    (hnew : ∀ l ∈ ls, ∀ target, l.spawns ≠ some (target, 0)) : ∃ q, KeptBy m q := by
  induction hrun with
  | nil => exact ⟨_, h.kept⟩
  | snoc _ hstep ih =>
    obtain ⟨q, hq⟩ := ih fun l hl => hnew l (List.mem_append_left _ hl)
    exact hq.step hstep (hnew _ (List.mem_append_right _ (List.mem_singleton_self _)))

theorem schedRun_kept [NeZero n] {s t : Sched n} (h : s.Booted) {ops : List (SchedOp n)}
    (hrun : Run schedStep s ops t) (halloc : ∀ op ∈ ops, op.Allocates) :
    ∃ q, KeptBy t.idleMachine q := by
  obtain ⟨ls, hmachine, hls⟩ := schedRun_machineRun hrun
  refine machineRun_kept h hmachine fun l hl target hspawns => ?_
  obtain ⟨op, hop, hnull⟩ := hls l hl target 0 hspawns
  exact halloc op hop hnull

/-- **The tasks are conserved** where the lists are kept and no CPU is in `task_schedule`. -/
theorem KeptBy.conserved {s : Sched n} {q : Fin n → List TaskPtr} (h : KeptBy s.idleMachine q) :
    s.Conserved := by
  obtain ⟨⟨hqueues, hinv⟩, hkept⟩ := h
  refine ⟨q, fun c => ⟨(hqueues.isQueue c).linked, ?_, ?_⟩, fun c p hp => ?_,
    fun p hp hidle hstate => ?_⟩
  · by_cases htail : (s.rq c).tail = 0
    · have hnil : q c = [] := hkept.tail c htail
      rw [htail, hnil]
      rfl
    · rw [(hqueues.isQueue c).last htail]
      rfl
  · have hcount : (s.rq c).count = BitVec.ofNat 32 (q c).length := hkept.count c
    rw [hcount, BitVec.toNat_ofNat]
    refine Nat.mod_eq_of_lt ?_
    -- the runqueue repeats no task, and the heap has room for few
    have hle : (q c).length ≤ s.live.card := by
      rw [← List.toFinset_card_of_nodup (hqueues.apart.nodup c)]
      exact Finset.card_le_card fun p hp => hinv.live (.inl c) p (List.mem_toFinset.mp hp)
    have hroom : s.live.card ≤ 2 ^ 24 := hkept.card_live
    omega
  · refine ⟨hinv.queued c p hp, fun d he => ?_⟩
    have hplace : (s.idleMachine.view q).idle d ∈ (s.idleMachine.view q).places (.inl c) := by
      show (s.cpus d).idleTask ∈ q c
      rw [← he]
      exact hp
    exact absurd (hinv.idle_place d _ hplace).1 (by simp)
  · have hne : (s.tasks p).state ≠ .exited := by
      rcases hstate with hx | hx <;> rw [hx] <;> exact TaskState.noConfusion
    obtain ⟨i, hi⟩ := hkept.placed p hp hidle hne
    have hsum := hinv.apart.sum_count hi
    rw [Fintype.sum_sum_type] at hsum
    refine Eq.trans (congrArg (_ + ·) ?_) hsum
    rw [Finset.card_filter]
    refine Finset.sum_congr rfl fun c _ => ?_
    show _ = List.count p [s.current c]
    simp [List.count_singleton]

/-- What `task_steal` returns is ready. -/
theorem Simulated.stealFrom_ready {m : Machine n} {q : Fin n → List TaskPtr} (h : Simulated m q)
    (self : Fin n) (victims : List (Fin n)) :
    (stealFrom self victims m.sched).1 = 0 ∨
      ((stealFrom self victims m.sched).2.tasks (stealFrom self victims m.sched).1).state =
        .ready := by
  induction victims with
  | nil => exact Or.inl rfl
  | cons victim rest ih =>
    rw [stealFrom]
    by_cases hself : victim = self
    · rw [if_pos hself]
      exact ih
    · rw [if_neg hself]
      cases hq : q victim with
      | nil =>
        rw [h.queues.dequeue_nil hq]
        simp only
        rw [if_neg (not_not.mpr rfl)]
        exact ih
      | cons task l =>
        obtain ⟨htask, hne, -⟩ := h.queues.dequeue hq
        simp only [htask]
        rw [if_pos hne]
        refine Or.inr ?_
        -- what is in a queue is ready
        have hready : (m.sched.tasks task).state = .ready := by
          refine h.inv.queued victim task ?_
          show task ∈ q victim
          rw [hq]
          exact List.mem_cons_self
        rw [Sched.updateTask_field _ _ _ (·.state) rfl, dequeueTask_tasks, hready]

/-- The round of the selection loop that takes no task, or a ready one, is the last. -/
theorem selectNext_first {c : Fin n} {took : TaskPtr × Sched n}
    (h : took.1 = 0 ∨ (took.2.tasks took.1).state = .ready) :
    ∃ out, (if took.1 = 0 then some (0, took.2) else
      match (took.2.tasks took.1).state with
      | .exited => selectNext c 0 (taskReap took.1 took.2)
      | .ready => some (took.1, took.2)
      | .running => selectNext c 0 (enqueueTask c took.1 took.2)) = some out := by
  by_cases hzero : took.1 = 0
  · exact ⟨_, if_pos hzero⟩
  · rw [if_neg hzero, h.resolve_left hzero]
    exact ⟨_, rfl⟩

/-- The selection loop ends with its first task. -/
theorem Simulated.selectNext_isSome {m : Machine n} {q : Fin n → List TaskPtr}
    (h : Simulated m q) (c : Fin n) : ∃ out, selectNext c 1 m.sched = some out := by
  rw [selectNext]
  simp only
  cases hq : q c with
  | nil =>
    rw [h.queues.dequeue_nil hq]
    simp only [if_true]
    exact selectNext_first (h.stealFrom_ready c (List.finRange n))
  | cons task l =>
    obtain ⟨htask, hne, -⟩ := h.queues.dequeue hq
    have hready : ((dequeueTask c m.sched).2.tasks task).state = .ready := by
      rw [dequeueTask_tasks]
      refine h.inv.queued c task ?_
      show task ∈ q c
      rw [hq]
      exact List.mem_cons_self
    have hsel := @selectNext_first n c (task, (dequeueTask c m.sched).2) (Or.inr hready)
    simp only [if_neg hne] at hsel
    simp only [htask, if_neg hne]
    exact hsel

/-- **`task_schedule` returns.** -/
theorem Simulated.scheduleReturns {s : Sched n} {q : Fin n → List TaskPtr}
    (h : Simulated s.idleMachine q) : s.ScheduleReturns := by
  intro c currentRsp
  have hcur : s.current c ≠ 0 := fun he => h.inv.null (he ▸ h.inv.current c)
  have hstep : machineStep s.idleMachine (.enter c currentRsp) _ := ⟨rfl, rfl⟩
  obtain ⟨q', hsim, -⟩ := h.step hstep
  rw [MachineOp.run, if_neg (show ¬ s.idleMachine.sched.current c = 0 from hcur)] at hsim
  obtain ⟨out, hout⟩ := hsim.selectNext_isSome c
  have hselect : selectNext c 1 (requeueCurrent c currentRsp s) = some out := hout
  have hreturn : taskSchedule 1 c currentRsp s =
      some (((switchTo c out.1 out.2).tasks ((switchTo c out.1 out.2).current c)).rsp,
        switchTo c out.1 out.2) := by
    rw [taskSchedule, if_neg hcur, hselect]
    rfl
  exact ⟨1, _, _, hreturn⟩

/-- A conserved runqueue loses no task to `NULL`. -/
theorem Sched.Conserved.queue {s : Sched n} (h : s.Conserved) {q : Fin n → List TaskPtr}
    (hqueues : Queues s q) (c : Fin n) :
    (s.rq c).tail = (q c).getLast?.getD 0 ∧ (s.rq c).count.toNat = (q c).length := by
  obtain ⟨q₀, hlinked, -, -⟩ := h
  obtain ⟨hlink, htail, hcount⟩ := hlinked c
  have heq : q₀ c = q c := hlink.unique (hqueues.isQueue c).linked
  rw [heq] at htail hcount
  exact ⟨htail, hcount⟩

/-- A creation without a block counts a task that is not there. -/
theorem Sched.Conserved.not_of_null {s t : Sched n} (h : s.Conserved) {q : Fin n → List TaskPtr}
    (hsim : Simulated s.idleMachine q) {l : MachineOp n} {target : Fin n}
    (hstep : machineStep s.idleMachine l t.idleMachine) (hspawns : l.spawns = some (target, 0)) :
    ¬ t.Conserved := by
  intro hcons
  obtain ⟨q', hsim', hview⟩ := hsim.step hstep
  obtain ⟨hqueue, hcount⟩ : q' target = (s.idleMachine.view q).kept target ∧
      (t.rq target).count = (s.rq target).count + 1 := by
    generalize hw : t.idleMachine.view q' = w at hview
    have hq' : q' target = w.queue target := congrFun (congrArg SchedView.queue hw) target
    have hc' : (t.rq target).count = w.count target := congrFun (congrArg SchedView.count hw) target
    cases hview with
    | @create _ target' task hspawns' hfresh =>
      rw [hspawns] at hspawns'
      cases hspawns'
      refine ⟨hq'.trans ((Function.update_self _ _ _).trans (List.append_nil _)), ?_⟩
      exact hc'.trans (Function.update_self _ _ _)
    | @exit _ cpu hexits _ => cases l <;> cases hspawns <;> cases hexits
    | tick => cases hspawns
    | enter => cases hspawns
    | take => cases hspawns
    | pass => cases hspawns
    | commit => cases hspawns
    | stay => cases hspawns
  -- before, the runqueue was whole
  obtain ⟨htail, hlen⟩ := h.queue hsim.queues target
  have hkept : (s.idleMachine.view q).kept target = q target := by
    show (if (s.rq target).tail = 0 then [] else q target) = q target
    split
    · rename_i hzero
      cases hq : q target with
      | nil => rfl
      | cons p rest =>
        obtain ⟨last, hlast⟩ : ∃ last, (p :: rest).getLast? = some last :=
          ⟨_, List.getLast?_cons⟩
        rw [htail, hq, hlast] at hzero
        have hmem : last ∈ q target := hq ▸ List.mem_of_getLast? hlast
        exact absurd hzero ((hsim.queues.isQueue target).linked.ne_nil hmem)
    · rfl
  obtain ⟨-, hlen'⟩ := hcons.queue hsim'.queues target
  have hmore := (s.rq target).count.isLt
  have hone : (1 : BitVec 32).toNat = 1 := rfl
  rw [hqueue, hkept, hcount, ← hlen, BitVec.toNat_add, hone] at hlen'
  omega

/-- **A run conserves the tasks just if each creation has a block.** In each state on the way, each
ready or running task is in one runqueue or on one CPU, the runqueues are whole, and
`task_schedule` returns. -/
theorem schedRun_conserved_iff [NeZero n] {s t : Sched n} (h : s.Booted) {ops : List (SchedOp n)}
    (hrun : Run schedStep s ops t) :
    (∀ pre u, pre <+: ops → Run schedStep s pre u → u.Conserved ∧ u.ScheduleReturns) ↔
      ∀ op ∈ ops, op.Allocates := by
  constructor
  · intro hall op hop hnull
    obtain ⟨pre, post, rfl⟩ := List.append_of_mem hop
    obtain ⟨u, hpre, hrest⟩ := Run.of_append pre _ hrun
    obtain ⟨w, hstep, -⟩ := Run.of_append [op] post hrest
    have hcons := (hall pre u (List.prefix_append _ _) hpre).1
    have hprefix : pre ++ [op] <+: pre ++ op :: post := ⟨post, by simp⟩
    have hcons' := (hall (pre ++ [op]) w hprefix (hpre.append hstep)).1
    obtain ⟨q, hsim⟩ : ∃ q, Simulated u.idleMachine q := by
      obtain ⟨ls, hmachine, -⟩ := schedRun_machineRun hpre
      exact machineRun_simulated h hmachine
    obtain ⟨l, target, hl, hspawns⟩ := schedStep_spawns (Run.of_single hstep) hnull
    exact hcons.not_of_null hsim hl hspawns hcons'
  · intro halloc pre u hpre hu
    obtain ⟨q, hq⟩ := schedRun_kept h hu fun op hop => halloc op (hpre.subset hop)
    exact ⟨hq.conserved, hq.sim.scheduleReturns⟩

/-! ## One CPU at boot -/

/-- One CPU runs its idle task, at the first address `kmalloc` hands out. -/
def bootSched : Sched 1 where
  tasks _ := ⟨0, 0, 0, 0, 0, 0x100000, .running, 0, 0, 0, 0⟩
  cpus _ := ⟨0, 0x1000018, 0x1000018, false, 0, 0, 0, 0, 0x100000, ⟨0, 0, 0⟩⟩
  nextId := 1
  live := {0x1000018}
  reaped := []

theorem bootSched_booted : bootSched.Booted where
  queue _ := rfl
  current _ := rfl
  idle _ := ⟨rfl, rfl⟩
  idle_inj _ _ _ := Subsingleton.elim _ _
  live p := by simp [bootSched]
  heap p hp := by
    obtain rfl := Finset.mem_singleton.mp hp
    decide
  nextId := rfl

/-- Two tasks are created, and the CPU switches to the first one: it runs, and the other one waits. -/
theorem schedRun_conserved_iff_boot : ∃ t, Run schedStep bootSched
    [.create 0 0x1000088 0x1001000, .create 0 0x10000F8 0x1006000, .schedule 0 0x9000] t ∧
      t.current 0 = 0x1000088 ∧ (t.rq 0).head = 0x10000F8 ∧ t.Conserved ∧ t.ScheduleReturns := by
  have hswitch : (taskSchedule 1 0 0x9000
      (taskCreate 0 0x10000F8 0x1006000 (taskCreate 0 0x1000088 0x1001000 bootSched))).map
        (fun x => (x.2.current 0, (x.2.rq 0).head)) = some (0x1000088, 0x10000F8) := by decide +kernel
  obtain ⟨⟨rsp, t⟩, hreturns, ht⟩ := Option.map_eq_some_iff.mp hswitch
  have hrun : Run schedStep bootSched
      [.create 0 0x1000088 0x1001000, .create 0 0x10000F8 0x1006000, .schedule 0 0x9000] t :=
    Run.cons ⟨Or.inr ⟨by decide, by decide⟩, rfl⟩ <|
      Run.cons ⟨Or.inr ⟨by decide, by decide⟩, rfl⟩ <| Run.single ⟨trivial, 1, rsp, hreturns⟩
  have hallocates : ∀ op ∈ ([.create 0 0x1000088 0x1001000, .create 0 0x10000F8 0x1006000,
      .schedule 0 0x9000] : List (SchedOp 1)), op.Allocates := by
    simp [SchedOp.Allocates, SchedOp.newTask]
  obtain ⟨hcurrent, hhead⟩ := Prod.mk.inj ht
  exact ⟨t, hrun, hcurrent, hhead,
    (schedRun_conserved_iff bootSched_booted hrun).mpr hallocates _ _ (List.prefix_refl _) hrun⟩

/-- Out of memory, a creation counts a task that is not there: the runqueue has no head, and a
count of 1. -/
theorem taskCreate_counts_null : ∃ t, Run schedStep bootSched [.create 0 0 0x1001000] t ∧
    (t.rq 0).head = 0 ∧ (t.rq 0).count = 1 ∧ ¬ t.Conserved := by
  have hstep : schedStep bootSched (.create 0 0 0x1001000) _ := ⟨Or.inl rfl, rfl⟩
  refine ⟨_, Run.single hstep, rfl, rfl, ?_⟩
  rintro ⟨q, hlinked, -⟩
  obtain ⟨hlink, -, hcount⟩ := hlinked 0
  have hnil : q 0 = [] := by
    apply hlink.unique
    rfl
  rw [hnil] at hcount
  exact absurd hcount (by decide)

end ZohoOs
