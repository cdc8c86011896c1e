import ZohoOs.Task.Interleaving
import ZohoOs.Lib.Placement
import Mathlib.Data.Sum.Basic

/-!
# The scheduler over lists

The scheduler with a list for each runqueue in place of the linked tasks, and of each task only its
state and id. This is where its invariants are stated and proved.

## Main definitions

* `SchedView`, `ViewStep`: the scheduler over lists
* `SchedView.places`: the runqueues, and the task each CPU has in hand
* `ViewInv`: no task is at two places, and those in the runqueues are ready

## Main results

* `ViewInv.step`: each step keeps the invariant
-/

namespace ZohoOs

open Placement

variable {n : Nat}

/-- The scheduler over lists. -/
@[ext] structure SchedView (n : Nat) where
  queue : Fin n → List TaskPtr
  tail : Fin n → TaskPtr
  count : Fin n → BitVec 32
  phase : Fin n → Phase n
  current : Fin n → TaskPtr
  idle : Fin n → TaskPtr
  state : TaskPtr → TaskState
  id : TaskPtr → BitVec 64
  live : Finset TaskPtr
  nextId : BitVec 64

/-- What a CPU has taken from the runqueues, or runs. A task it is switching away from is not in
its hand. -/
def Phase.hand (current : TaskPtr) : Phase n → List TaskPtr
  | .running => [current]
  | .pull | .steal _ => []
  | .check next | .putBack next => [next]
  | .commit next => if next = 0 then [] else [next]

/-- What a phase needs of the states of tasks. -/
def Phase.Ok (state : TaskPtr → TaskState) (current : TaskPtr) : Phase n → Prop
  | .running => state current ≠ .ready
  | .pull | .steal _ => True
  | .check next => state next = .ready
  | .putBack _ => False
  | .commit next => next = 0 ∨ state next = .ready

namespace SchedView

variable (v : SchedView n)

def hand (c : Fin n) : List TaskPtr := (v.phase c).hand (v.current c)

/-- The places a task can be at: a runqueue, or the hand of a CPU. -/
def places : Fin n ⊕ Fin n → List TaskPtr := Sum.elim v.queue v.hand

/-- The tasks of a runqueue `enqueue_task` keeps. -/
def kept (c : Fin n) : List TaskPtr := if v.tail c = 0 then [] else v.queue c

/-! ## The operations -/

def enqueue (c : Fin n) (task : TaskPtr) : SchedView n :=
  { v with
    queue := Function.update v.queue c (v.kept c ++ if task = 0 then [] else [task])
    tail := Function.update v.tail c task
    count := Function.update v.count c (v.count c + 1) }

/-- Taking the head of a runqueue, whose rest is `l`. -/
def dequeue (c : Fin n) (l : List TaskPtr) : SchedView n :=
  { v with
    queue := Function.update v.queue c l
    tail := Function.update v.tail c (if l = [] then 0 else v.tail c)
    count := Function.update v.count c (v.count c - 1) }

def setState (task : TaskPtr) (state : TaskState) : SchedView n :=
  { v with state := Function.update v.state task state }

def setPhase (c : Fin n) (phase : Phase n) : SchedView n :=
  { v with phase := Function.update v.phase c phase }

/-- A new task, before it goes to a runqueue. -/
def build (task : TaskPtr) : SchedView n :=
  { v with
    state := Function.update v.state task .ready
    id := Function.update v.id task v.nextId
    live := if task = 0 then v.live else insert task v.live
    nextId := v.nextId + 1 }

/-- The current task is requeued if it is still runnable. -/
def leave (c : Fin n) : SchedView n :=
  if v.state (v.current c) = .running then
    if v.id (v.current c) ≠ 0 then
      ((v.setState (v.current c) .ready).enqueue c (v.current c)).setPhase c .pull
    else (v.setState (v.current c) .ready).setPhase c .pull
  else v.setPhase c .pull

/-- A CPU switches to a task, or to its idle task. -/
def commit (c : Fin n) (next : TaskPtr) : SchedView n :=
  let next := if next = 0 then v.idle c else next
  { v.setState next .running with
    current := Function.update v.current c next
    phase := Function.update v.phase c .running }

end SchedView

/-- A CPU that goes on to another phase, and nothing else changes. -/
inductive Passes (v : SchedView n) (cpu : Fin n) : Phase n → Phase n → Prop
  | miss : v.queue cpu = [] → Passes v cpu .pull (.steal (List.finRange n))
  | skip {victim : Fin n} {rest : List (Fin n)} :
      victim = cpu ∨ v.queue victim = [] → Passes v cpu (.steal (victim :: rest)) (.steal rest)
  | idle : Passes v cpu (.steal []) (.commit 0)
  | accept {next : TaskPtr} : v.state next = .ready → Passes v cpu (.check next) (.commit next)

/-- The steps over lists. A task taken from a runqueue is always ready, so that the branches for
others are not among them. -/
inductive ViewStep (v : SchedView n) : MachineOp n → SchedView n → Prop
  | create {op : MachineOp n} {target : Fin n} {task : TaskPtr} :
      op.spawns = some (target, task) → task = 0 ∨ (InHeap task ∧ task ∉ v.live) →
      ViewStep v op ((v.build task).enqueue target task)
  | exit {op : MachineOp n} {cpu : Fin n} :
      op.exits = some cpu → v.phase cpu = .running →
      ViewStep v op (v.setState (v.current cpu) .exited)
  | tick {cpu : Fin n} : ViewStep v (.tick cpu) v
  | enter {cpu : Fin n} {currentRsp : BitVec 64} :
      v.phase cpu = .running → ViewStep v (.enter cpu currentRsp) (v.leave cpu)
  | take {cpu source : Fin n} {task : TaskPtr} {l : List TaskPtr} :
      (v.phase cpu = .pull ∧ source = cpu) ∨
        ((∃ rest, v.phase cpu = .steal (source :: rest)) ∧ source ≠ cpu) →
      v.queue source = task :: l →
      ViewStep v (.resume cpu) ((v.dequeue source l).setPhase cpu (.check task))
  | pass {cpu : Fin n} {phase : Phase n} :
      Passes v cpu (v.phase cpu) phase → ViewStep v (.resume cpu) (v.setPhase cpu phase)
  | commit {cpu : Fin n} {next : TaskPtr} :
      v.phase cpu = .commit next → ViewStep v (.resume cpu) (v.commit cpu next)
  | stay {cpu : Fin n} : v.phase cpu = .running → ViewStep v (.resume cpu) v

/-! ## The invariant -/

/-- **No task is at two places**, those in the runqueues are ready, and the idle tasks are where
they belong. -/
structure ViewInv (v : SchedView n) : Prop where
  apart : Apart v.places
  live : ∀ i, ∀ p ∈ v.places i, p ∈ v.live
  queued : ∀ c, ∀ p ∈ v.queue c, v.state p = .ready
  phase : ∀ c, (v.phase c).Ok v.state (v.current c)
  null : 0 ∉ v.live
  current : ∀ c, v.current c ∈ v.live
  idle_live : ∀ c, v.idle c ∈ v.live
  idle_id : ∀ c, v.id (v.idle c) = 0
  idle_inj : ∀ c d, v.idle c = v.idle d → c = d
  idle_place : ∀ c i, v.idle c ∈ v.places i → i = .inr c ∧ v.phase c = .running

/-- What a phase needs depends on the states of the tasks in hand. -/
theorem Phase.Ok.congr {phase : Phase n} {state state' : TaskPtr → TaskState} {current : TaskPtr}
    (h : phase.Ok state current) (heq : ∀ p ∈ phase.hand current, state' p = state p) :
    phase.Ok state' current := by
  cases phase with
  | running =>
    have := heq current (List.mem_singleton_self _)
    rw [Phase.Ok, this]
    exact h
  | pull => trivial
  | steal victims => trivial
  | check next => exact (heq next (List.mem_singleton_self _)).trans h
  | putBack next => exact h
  | commit next =>
    by_cases hnext : next = 0
    · exact Or.inl hnext
    · refine Or.inr ?_
      rw [heq next (by simp [Phase.hand, hnext])]
      exact h.resolve_left hnext

namespace SchedView

variable {v : SchedView n} {c : Fin n}

theorem setState_state (v : SchedView n) (task : TaskPtr) (state : TaskState) :
    (v.setState task state).state = Function.update v.state task state := rfl

theorem places_inl (v : SchedView n) (c : Fin n) : v.places (.inl c) = v.queue c := rfl

theorem places_inr (v : SchedView n) (c : Fin n) : v.places (.inr c) = v.hand c := rfl

/-- The places, where the runqueues and the hands change. -/
theorem places_congr {w : SchedView n} {l m : List TaskPtr} {d : Fin n}
    (hqueue : w.queue = Function.update v.queue d l)
    (hhand : w.hand = Function.update v.hand c m) : w.places =
      Function.update (Function.update v.places (.inl d) l) (.inr c) m := by
  rw [places, hqueue, hhand, places, Sum.update_elim_inl, Sum.update_elim_inr]

theorem kept_sublist (v : SchedView n) (c : Fin n) : (v.kept c).Sublist (v.places (.inl c)) := by
  rw [kept]
  split
  · exact List.nil_sublist _
  · exact List.Sublist.refl _

theorem places_of_queue {w : SchedView n} {l : List TaskPtr} {d : Fin n}
    (hqueue : w.queue = Function.update v.queue d l) (hhand : w.hand = v.hand) :
    w.places = Function.update v.places (.inl d) l := by
  rw [places, hqueue, hhand, places, Sum.update_elim_inl]

theorem places_of_hand {w : SchedView n} {m : List TaskPtr} (hqueue : w.queue = v.queue)
    (hhand : w.hand = Function.update v.hand c m) :
    w.places = Function.update v.places (.inr c) m := by
  rw [places, hqueue, hhand, places, Sum.update_elim_inr]

theorem hand_setPhase (v : SchedView n) (c : Fin n) (phase : Phase n) :
    (v.setPhase c phase).hand = Function.update v.hand c (phase.hand (v.current c)) := by
  funext d
  by_cases hd : d = c
  · subst hd
    simp [hand, setPhase]
  · simp [hand, setPhase, hd]

theorem hand_commit (v : SchedView n) (c : Fin n) (next : TaskPtr) :
    (v.commit c next).hand =
      Function.update v.hand c [if next = 0 then v.idle c else next] := by
  funext d
  by_cases hd : d = c
  · subst hd
    simp [hand, commit, Phase.hand]
  · simp [hand, commit, hd, setState]

end SchedView

/-! ## Each step keeps the invariant -/

namespace ViewInv

variable {v : SchedView n}

theorem hand_of_phase {phase : Phase n} {c : Fin n} (hphase : v.phase c = phase) :
    v.hand c = phase.hand (v.current c) := by
  rw [SchedView.hand, hphase]

/-- No task has the address `NULL`. -/
theorem ne_null (h : ViewInv v) {p : TaskPtr} {i : Fin n ⊕ Fin n} (hp : p ∈ v.places i) : p ≠ 0 := by
  rintro rfl
  exact h.null (h.live i 0 hp)

/-- An idle task is in no runqueue, and in no hand but where its CPU runs it. -/
theorem ne_idle (h : ViewInv v) {p : TaskPtr} {i : Fin n ⊕ Fin n} (hp : p ∈ v.places i)
    (hrun : ∀ c, i = .inr c → v.phase c ≠ .running) (c : Fin n) : v.idle c ≠ p := by
  rintro rfl
  obtain ⟨rfl, hc⟩ := h.idle_place c i hp
  exact hrun c rfl hc

/-- The state of a task in the hand of another CPU is not read by this one. -/
theorem phase_setState (h : ViewInv v) {c : Fin n} {p : TaskPtr} {state : TaskState}
    (hp : p ∈ v.hand c) {d : Fin n} (hd : d ≠ c) :
    (v.phase d).Ok (v.setState p state).state (v.current d) := by
  refine (h.phase d).congr fun x hx => Function.update_of_ne ?_ _ _
  rintro rfl
  exact h.apart.disjoint (.inr d) (.inr c) (fun he => hd (Sum.inr_injective he)) x hx hp

theorem queued_setState (h : ViewInv v) {c : Fin n} {p : TaskPtr} {state : TaskState}
    (hp : p ∈ v.hand c) (d : Fin n) : ∀ x ∈ v.queue d, (v.setState p state).state x = .ready := by
  intro x hx
  rw [SchedView.setState_state, Function.update_of_ne]
  · exact h.queued d x hx
  · rintro rfl
    exact h.apart.disjoint (.inl d) (.inr c) (by simp) x hx hp

/-- The current task of a running CPU is in its hand. -/
theorem current_mem_hand {c : Fin n} (hrun : v.phase c = .running) : v.current c ∈ v.hand c := by
  rw [hand_of_phase hrun]
  exact List.mem_singleton_self _

/-- A running task ends. -/
theorem exit (h : ViewInv v) {c : Fin n} (hrun : v.phase c = .running) :
    ViewInv (v.setState (v.current c) .exited) := by
  have hcur := current_mem_hand hrun
  refine { h with queued := h.queued_setState hcur, phase := fun d => ?_ }
  by_cases hd : d = c
  · subst hd
    show (v.phase d).Ok _ (v.current d)
    rw [hrun, Phase.Ok, SchedView.setState_state, Function.update_self]
    exact TaskState.noConfusion
  · exact h.phase_setState hcur hd

/-- A new task. -/
theorem create (h : ViewInv v) {target : Fin n} {task : TaskPtr}
    (hfresh : task = 0 ∨ (InHeap task ∧ task ∉ v.live)) :
    ViewInv ((v.build task).enqueue target task) := by
  -- the task is none of those that are alive, and so in no place
  have hlive : ∀ p ∈ v.live, p ≠ task := by
    rintro p hp rfl
    rcases hfresh with rfl | ⟨-, hnot⟩
    · exact h.null hp
    · exact hnot hp
  have hnew : ∀ i, task ∉ v.places i := fun i hi => hlive task (h.live i task hi) rfl
  have hsub : v.live ⊆ (v.build task).live := by
    rw [SchedView.build]
    split
    · exact Finset.Subset.refl _
    · exact Finset.subset_insert _ _
  have hkept := v.kept_sublist target
  -- only the target's queue changes
  have hplaces : ((v.build task).enqueue target task).places = Function.update v.places
      (.inl target) (v.kept target ++ if task = 0 then [] else [task]) :=
    SchedView.places_of_queue rfl rfl
  -- what is in a place was there before, or it is the new task
  have hmem : ∀ i, ∀ p ∈ ((v.build task).enqueue target task).places i,
      p ∈ v.places i ∨ (i = .inl target ∧ p = task ∧ task ≠ 0) := by
    intro i p hp
    rw [hplaces] at hp
    rcases mem_update.mp hp with ⟨rfl, hat⟩ | ⟨-, hat⟩
    · rcases List.mem_append.mp hat with hold | hadd
      · exact Or.inl (hkept.subset hold)
      · split at hadd
        · cases hadd
        · rename_i hne
          exact Or.inr ⟨rfl, List.mem_singleton.mp hadd, hne⟩
    · exact Or.inl hat
  constructor
  · -- the task was nowhere
    rw [hplaces]
    by_cases hnull : task = 0
    · rw [if_pos hnull, List.append_nil]
      exact h.apart.shrink hkept
    · rw [if_neg hnull]
      exact h.apart.put hkept hnew
  · intro i p hp
    rcases hmem i p hp with hp | ⟨-, rfl, hne⟩
    · exact hsub (h.live i p hp)
    · show p ∈ if p = 0 then v.live else insert p v.live
      rw [if_neg hne]
      exact Finset.mem_insert_self _ _
  · intro c p hp
    show Function.update v.state task .ready p = .ready
    rcases hmem (.inl c) p hp with hp | ⟨-, rfl, -⟩
    · rw [Function.update_of_ne (hlive p (h.live _ p hp))]
      exact h.queued c p hp
    · rw [Function.update_self]
  · intro c
    refine (h.phase c).congr fun x hx => ?_
    exact Function.update_of_ne (hlive x (h.live (.inr c) x hx)) _ _
  · show 0 ∉ if task = 0 then v.live else insert task v.live
    split
    · exact h.null
    · rename_i hne
      rw [Finset.mem_insert]
      exact fun hc => hc.elim (fun he => hne he.symm) h.null
  · exact fun c => hsub (h.current c)
  · exact fun c => hsub (h.idle_live c)
  · intro c
    show Function.update v.id task v.nextId (v.idle c) = 0
    rw [Function.update_of_ne (hlive _ (h.idle_live c))]
    exact h.idle_id c
  · exact h.idle_inj
  · intro c i hi
    rcases hmem i _ hi with hi | ⟨-, he, -⟩
    · exact h.idle_place c i hi
    · exact absurd he (hlive _ (h.idle_live c))

/-- A CPU goes on, with the same task in hand. -/
theorem setPhase (h : ViewInv v) {c : Fin n} {phase : Phase n}
    (hhand : phase.hand (v.current c) = v.hand c) (hok : phase.Ok v.state (v.current c))
    (hrun : v.phase c ≠ .running) : ViewInv (v.setPhase c phase) := by
  have hplaces : (v.setPhase c phase).places = v.places := by
    have hmove : (v.setPhase c phase).places =
        Function.update v.places (.inr c) (phase.hand (v.current c)) :=
      SchedView.places_of_hand rfl (v.hand_setPhase c phase)
    rw [hmove, hhand]
    exact Function.update_eq_self _ _
  have hphase : ∀ d, (v.setPhase c phase).phase d = if d = c then phase else v.phase d := fun d => by
    simp [SchedView.setPhase, Function.update_apply]
  refine { h with apart := hplaces ▸ h.apart, live := hplaces ▸ h.live, phase := ?_, idle_place := ?_ }
  · intro d
    rw [hphase]
    split
    · rename_i hd
      exact hd ▸ hok
    · exact h.phase d
  · intro d i hi
    rw [hplaces] at hi
    obtain ⟨hi, hd⟩ := h.idle_place d i hi
    refine ⟨hi, ?_⟩
    rw [hphase, if_neg]
    · exact hd
    · rintro rfl
      exact hrun hd

/-- A CPU in `task_schedule` takes the head of a runqueue. -/
theorem take (h : ViewInv v) {c source : Fin n} {task : TaskPtr} {l : List TaskPtr}
    (hhand : v.hand c = []) (hq : v.queue source = task :: l) :
    ViewInv ((v.dequeue source l).setPhase c (.check task)) := by
  have htask : task ∈ v.places (.inl source) := by
    rw [SchedView.places_inl, hq]
    exact List.mem_cons_self
  have hrun : v.phase c ≠ .running := fun hrun => by
    have := current_mem_hand hrun
    rw [hhand] at this
    cases this
  have hplaces : ((v.dequeue source l).setPhase c (.check task)).places =
      Function.update (Function.update v.places (.inl source) l) (.inr c) [task] :=
    SchedView.places_congr rfl (SchedView.hand_setPhase _ _ _)
  -- The step moves `task` from the queue of `source` to the hand of `c`, and moves nothing else.
  have hmem : ∀ i, ∀ p ∈ ((v.dequeue source l).setPhase c (.check task)).places i,
      p ∈ v.places i ∨ (i = .inr c ∧ p = task) := by
    intro i p hp
    rw [hplaces] at hp
    rcases mem_update.mp hp with ⟨rfl, hat⟩ | ⟨-, hat⟩
    · exact Or.inr ⟨rfl, List.mem_singleton.mp hat⟩
    · rcases mem_update.mp hat with ⟨rfl, hold⟩ | ⟨-, hold⟩
      · refine Or.inl ?_
        rw [SchedView.places_inl, hq]
        exact List.mem_cons_of_mem _ hold
      · exact Or.inl hold
  have hphase : ∀ d, ((v.dequeue source l).setPhase c (.check task)).phase d =
      if d = c then .check task else v.phase d := fun d => by
    simp [SchedView.setPhase, SchedView.dequeue, Function.update_apply]
  refine { h with apart := ?_, live := ?_, queued := ?_, phase := ?_, idle_place := ?_ }
  · rw [hplaces]
    -- Without `task` the queue is still apart from the rest; then the empty hand takes it.
    have hrest : Apart (Function.update v.places (.inl source) l) :=
      h.apart.shrink (by rw [SchedView.places_inl, hq]; exact List.sublist_cons_self _ _)
    exact hrest.put (List.nil_sublist _) (h.apart.not_mem_rest hq)
  · intro i p hp
    rcases hmem i p hp with hp | ⟨-, rfl⟩
    · exact h.live i p hp
    · exact h.live _ p htask
  · intro d p hp
    rcases hmem (.inl d) p hp with hold | ⟨he, -⟩
    · exact h.queued d p hold
    · cases he
  · intro d
    rw [hphase]
    split
    · exact h.queued source task htask
    · exact h.phase d
  · intro d i hi
    rcases hmem i _ hi with hold | ⟨-, he⟩
    · obtain ⟨hi, hd⟩ := h.idle_place d i hold
      refine ⟨hi, ?_⟩
      rw [hphase, if_neg]
      · exact hd
      · rintro rfl
        exact hrun hd
    · exact absurd he (h.ne_idle htask (by simp) d)

/-- The outgoing task of a CPU is out of its hand. -/
theorem release (h : ViewInv v) (c : Fin n) :
    ViewInv (v.setPhase c .pull) := by
  have hplaces : (v.setPhase c .pull).places = Function.update v.places (.inr c) [] :=
    SchedView.places_of_hand rfl (v.hand_setPhase c .pull)
  have hmem : ∀ i, ∀ p ∈ (v.setPhase c .pull).places i, i ≠ .inr c ∧ p ∈ v.places i := by
    intro i p hp
    rw [hplaces] at hp
    rcases mem_update.mp hp with ⟨-, hat⟩ | hat
    · cases hat
    · exact hat
  have hphase : ∀ d, (v.setPhase c .pull).phase d = if d = c then .pull else v.phase d := fun d => by
    simp [SchedView.setPhase, Function.update_apply]
  refine { h with apart := ?_, live := ?_, phase := ?_, idle_place := ?_ }
  · rw [hplaces]
    exact h.apart.shrink (List.nil_sublist _)
  · exact fun i p hp => h.live i p (hmem i p hp).2
  · intro d
    rw [hphase]
    split
    · trivial
    · exact h.phase d
  · intro d i hi
    obtain ⟨hne, hold⟩ := hmem i _ hi
    obtain ⟨rfl, hd⟩ := h.idle_place d i hold
    refine ⟨rfl, ?_⟩
    rw [hphase, if_neg fun he : d = c => hne (congrArg Sum.inr he)]
    exact hd

/-- A task that is nowhere, and not idle, becomes ready. -/
theorem setReady (h : ViewInv v) {p : TaskPtr} (hp : ∀ i, p ∉ v.places i) :
    ViewInv (v.setState p .ready) := by
  have heq : ∀ i, ∀ x ∈ v.places i, (v.setState p .ready).state x = v.state x := by
    intro i x hx
    refine Function.update_of_ne ?_ _ _
    rintro rfl
    exact hp i hx
  refine { h with queued := fun d x hx => ?_, phase := fun d => ?_ }
  · rw [heq (.inl d) x hx]
    exact h.queued d x hx
  · exact (h.phase d).congr (heq (.inr d))

/-- A ready task that is nowhere goes to a runqueue. -/
theorem enqueue (h : ViewInv v) {p : TaskPtr} (hp : ∀ i, p ∉ v.places i) (hlive : p ∈ v.live)
    (hready : v.state p = .ready) (hidle : ∀ c, v.idle c ≠ p) (c : Fin n) :
    ViewInv (v.enqueue c p) := by
  have hnull : p ≠ 0 := fun he => h.null (he ▸ hlive)
  have hkept := v.kept_sublist c
  -- only the queue of `c` changes: the task is its last
  have hplaces : (v.enqueue c p).places =
      Function.update v.places (.inl c) (v.kept c ++ [p]) := by
    refine SchedView.places_of_queue ?_ rfl
    rw [SchedView.enqueue, if_neg hnull]
  have hmem : ∀ i, ∀ x ∈ (v.enqueue c p).places i, x ∈ v.places i ∨ x = p := by
    intro i x hx
    rw [hplaces] at hx
    rcases mem_update.mp hx with ⟨rfl, hat⟩ | ⟨-, hat⟩
    · exact (List.mem_append.mp hat).imp (fun hold => hkept.subset hold) List.mem_singleton.mp
    · exact Or.inl hat
  refine { h with apart := ?_, live := ?_, queued := ?_, idle_place := ?_ }
  · rw [hplaces]
    exact h.apart.put hkept hp
  · intro i x hx
    rcases hmem i x hx with hx | rfl
    · exact h.live i x hx
    · exact hlive
  · intro d x hx
    rcases hmem (.inl d) x hx with hold | rfl
    · exact h.queued d x hold
    · exact hready
  · intro d i hi
    rcases hmem i _ hi with hold | he
    · exact h.idle_place d i hold
    · exact absurd he (hidle d)

/-- A CPU requeues its outgoing task. -/
theorem leave (h : ViewInv v) {c : Fin n} (hrun : v.phase c = .running) : ViewInv (v.leave c) := by
  have hrel := h.release c
  have hcur := current_mem_hand hrun
  -- with the hand empty, the outgoing task is nowhere
  have hnowhere : ∀ i, v.current c ∉ (v.setPhase c .pull).places i := by
    have hplaces : (v.setPhase c .pull).places = Function.update v.places (.inr c) [] :=
      SchedView.places_of_hand rfl (v.hand_setPhase c .pull)
    rw [hplaces]
    exact h.apart.not_mem_rest (hand_of_phase hrun)
  rw [SchedView.leave]
  split
  · have hready := hrel.setReady hnowhere
    split
    · rename_i hid
      refine hready.enqueue hnowhere (h.current c) (Function.update_self _ _ _) ?_ c
      intro d he
      exact hid ((congrArg v.id he).symm.trans (h.idle_id d))
    · exact hready
  · exact hrel

/-- A CPU switches. -/
theorem commit (h : ViewInv v) {c : Fin n} {next : TaskPtr} (hphase : v.phase c = .commit next) :
    ViewInv (v.commit c next) := by
  have hhand := hand_of_phase hphase
  have hnotRun : v.phase c ≠ .running := by
    rw [hphase]
    exact nofun
  obtain ⟨x, hx⟩ : ∃ x, x = if next = 0 then v.idle c else next := ⟨_, rfl⟩
  have hlive : x ∈ v.live := by
    rw [hx]
    split
    · exact h.idle_live c
    · rename_i hne
      refine h.live (.inr c) next ?_
      rw [SchedView.places_inr, hhand, Phase.hand, if_neg hne]
      exact List.mem_singleton_self _
  -- it is in hand already, or the idle task, which is nowhere
  have helse : ∀ j, j ≠ .inr c → x ∉ v.places j := by
    intro j hj hmem
    by_cases hnext : next = 0
    · rw [if_pos hnext] at hx
      exact hj (h.idle_place c j (hx ▸ hmem)).1
    · rw [if_neg hnext] at hx
      refine hj (h.apart.eq_of_mem hmem ?_)
      rw [SchedView.places_inr, hhand, Phase.hand, if_neg hnext, hx]
      exact List.mem_singleton_self _
  have hidle : ∀ d, v.idle d = x → d = c := by
    intro d hd
    by_cases hnext : next = 0
    · rw [if_pos hnext] at hx
      exact h.idle_inj d c (hd.trans hx)
    · rw [if_neg hnext] at hx
      have hmem : v.idle d ∈ v.places (.inr c) := by
        rw [SchedView.places_inr, hhand, Phase.hand, if_neg hnext, hd, hx]
        exact List.mem_singleton_self _
      obtain ⟨he, hdrun⟩ := h.idle_place d _ hmem
      exact (Sum.inr_injective he).symm
  have hw : v.commit c next = { v.setState x .running with
      current := Function.update v.current c x, phase := Function.update v.phase c .running } := by
    rw [hx]
    rfl
  have hplaces : (v.commit c next).places = Function.update v.places (.inr c) [x] := by
    refine SchedView.places_of_hand rfl ?_
    rw [hx]
    exact v.hand_commit c next
  have hmem : ∀ i, ∀ p ∈ (v.commit c next).places i,
      (i = .inr c ∧ p = x) ∨ (i ≠ .inr c ∧ p ∈ v.places i) := by
    intro i p hp
    rw [hplaces] at hp
    exact (mem_update.mp hp).imp (fun hat => ⟨hat.1, List.mem_singleton.mp hat.2⟩) id
  constructor
  · rw [hplaces]
    refine h.apart.update (List.nodup_singleton x) fun a ha j hj => ?_
    rw [List.mem_singleton.mp ha]
    exact helse j hj
  · intro i p hp
    rcases hmem i p hp with ⟨-, rfl⟩ | ⟨-, hold⟩
    · rw [hw]
      exact hlive
    · rw [hw]
      exact h.live i p hold
  · intro d p hp
    have hold : p ∈ v.queue d := hp
    rw [hw]
    show Function.update v.state x .running p = .ready
    rw [Function.update_of_ne]
    · exact h.queued d p hold
    · rintro rfl
      exact helse (.inl d) (by simp) hold
  · intro d
    rw [hw]
    show (Function.update v.phase c .running d).Ok (Function.update v.state x .running)
      (Function.update v.current c x d)
    by_cases hd : d = c
    · subst hd
      rw [Function.update_self, Function.update_self, Phase.Ok, Function.update_self]
      exact TaskState.noConfusion
    · rw [Function.update_of_ne hd, Function.update_of_ne hd]
      refine (h.phase d).congr fun p hp => Function.update_of_ne ?_ _ _
      rintro rfl
      exact helse (.inr d) (fun he => hd (Sum.inr_injective he)) hp
  · rw [hw]
    exact h.null
  · intro d
    rw [hw]
    show Function.update v.current c x d ∈ v.live
    by_cases hd : d = c
    · rw [hd, Function.update_self]
      exact hlive
    · rw [Function.update_of_ne hd]
      exact h.current d
  · exact fun d => by rw [hw]; exact h.idle_live d
  · exact fun d => by rw [hw]; exact h.idle_id d
  · exact fun d e he => h.idle_inj d e (by rw [hw] at he; exact he)
  · intro d i hi
    have hi' : v.idle d ∈ (v.commit c next).places i := by
      rw [hw] at hi ⊢
      exact hi
    rw [hw]
    show i = .inr d ∧ Function.update v.phase c .running d = .running
    rcases hmem i _ hi' with ⟨rfl, he⟩ | ⟨hne, hold⟩
    · obtain rfl := hidle d he
      exact ⟨rfl, Function.update_self _ _ _⟩
    · obtain ⟨rfl, hd⟩ := h.idle_place d i hold
      refine ⟨rfl, ?_⟩
      rw [Function.update_of_ne fun he : d = c => hne (congrArg Sum.inr he)]
      exact hd

/-- A CPU that goes on to another phase keeps its hand. -/
theorem hand_pass (h : ViewInv v) {c : Fin n} {phase : Phase n}
    (hpass : Passes v c (v.phase c) phase) : phase.hand (v.current c) = v.hand c := by
  obtain ⟨old, hold⟩ : ∃ old, old = v.phase c := ⟨_, rfl⟩
  have hhand := hand_of_phase hold.symm
  rw [← hold] at hpass
  rw [hhand]
  cases hpass with
  | miss => rfl
  | skip => rfl
  | idle => rfl
  | @accept next hready =>
    have hmem : next ∈ v.places (.inr c) := by
      rw [SchedView.places_inr, hhand]
      exact List.mem_singleton_self _
    simp [Phase.hand, h.ne_null hmem]

theorem places_pass (h : ViewInv v) {c : Fin n} {phase : Phase n}
    (hpass : Passes v c (v.phase c) phase) : (v.setPhase c phase).places = v.places := by
  have hmove : (v.setPhase c phase).places =
      Function.update v.places (.inr c) (phase.hand (v.current c)) :=
    SchedView.places_of_hand rfl (v.hand_setPhase c phase)
  rw [hmove, h.hand_pass hpass]
  exact Function.update_eq_self _ _

/-- **Each step keeps the invariant.** -/
theorem step (h : ViewInv v) {op : MachineOp n} {w : SchedView n} (hstep : ViewStep v op w) :
    ViewInv w := by
  cases hstep with
  | create _ hfresh => exact h.create hfresh
  | exit _ hrun => exact h.exit hrun
  | tick => exact h
  | enter hrun => exact h.leave hrun
  | @take cpu source task l hphase hq =>
    refine h.take ?_ hq
    rcases hphase with ⟨hphase, -⟩ | ⟨⟨rest, hphase⟩, -⟩
    · rw [hand_of_phase hphase]
      rfl
    · rw [hand_of_phase hphase]
      rfl
  | @pass cpu phase hpass =>
    refine h.setPhase (h.hand_pass hpass) ?_ ?_
    · generalize v.phase cpu = old at hpass
      cases hpass with
      | miss => trivial
      | skip => trivial
      | idle => exact Or.inl rfl
      | accept hready => exact Or.inr hready
    · intro hrun
      rw [hrun] at hpass
      cases hpass
  | commit hphase => exact h.commit hphase
  | stay => exact h

end ViewInv

end ZohoOs
