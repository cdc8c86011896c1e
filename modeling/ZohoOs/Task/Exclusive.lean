import ZohoOs.Task.SchedSimulation
import Mathlib.Tactic.FinCases

/-!
# No task on two CPUs

`task_schedule` puts the outgoing task into a runqueue while its CPU still runs on its stack. A CPU
that steals it before the switch gets a task another CPU runs.

## Main definitions

* `Machine.Exclusive`: no two CPUs have the same current task
* `MachineOp.Overtakes`: a CPU steals the task its victim is switching away from

## Main results

* `machineRun_exclusive`: without such a step no task is on two CPUs, and such a step leads to one
  that is
-/

namespace ZohoOs

open TransitionSystem LinkedQueue Placement

variable {n : Nat}

/-- **No task is on two CPUs.** A CPU whose current task this is executes on its kernel stack. -/
def Machine.Exclusive (m : Machine n) : Prop :=
  ∀ c d, c ≠ d → m.sched.current c ≠ m.sched.current d

/-- A steal of the victim's own current task, which heads its runqueue. -/
def MachineOp.Overtakes (m : Machine n) : MachineOp n → Prop
  | .resume cpu =>
    ∃ victim rest, m.phase cpu = .steal (victim :: rest) ∧ victim ≠ cpu ∧
      (m.sched.rq victim).head = m.sched.current victim
  | _ => False

/-- The CPU `task_steal` looks at next. -/
def Phase.victim : Phase n → Option (Fin n)
  | .steal (victim :: _) => some victim
  | _ => none

theorem Phase.mem_victim {phase : Phase n} {victim : Fin n} :
    victim ∈ phase.victim ↔ ∃ rest, phase = .steal (victim :: rest) := by
  cases phase with
  | steal victims => cases victims <;> simp [Phase.victim, eq_comm]
  | running | pull | check | putBack | commit => simp [Phase.victim]

theorem MachineOp.overtakes_resume {m : Machine n} {cpu : Fin n} :
    (∃ victim ∈ (m.phase cpu).victim,
      victim ≠ cpu ∧ (m.sched.rq victim).head = m.sched.current victim) ↔
      (MachineOp.resume cpu).Overtakes m := by
  simp only [Phase.mem_victim, Overtakes, exists_and_right]

instance MachineOp.decidableOvertakes (m : Machine n) : ∀ op : MachineOp n, Decidable (op.Overtakes m)
  | .resume _ => decidable_of_iff _ overtakes_resume
  | .create .. | .fork .. | .sysExit .. | .terminate .. | .tick .. | .enter .. => isFalse id

/-- **What a CPU runs is its own**: no other CPU runs it or has it in hand, and it is in no runqueue
but its CPU's. -/
structure SchedView.Own (v : SchedView n) : Prop where
  current : ∀ c d, c ≠ d → v.current c ≠ v.current d
  queue : ∀ c d, c ≠ d → v.current c ∉ v.queue d
  hand : ∀ c d, c ≠ d → v.current c ∉ v.hand d
  idle : ∀ c d, v.current c = v.idle d → c = d

namespace SchedView.Own

variable {v : SchedView n}

/-- A task goes to a runqueue other CPUs do not run it from. -/
theorem enqueue (h : v.Own) {c : Fin n} {p : TaskPtr} (hp : ∀ d, d ≠ c → v.current d ≠ p) :
    (v.enqueue c p).Own := by
  refine ⟨h.current, fun e d hne hmem => ?_, h.hand, h.idle⟩
  have hcur : v.current e ∈ Function.update v.queue c (v.kept c ++ if p = 0 then [] else [p]) d :=
    hmem
  by_cases hd : d = c
  · subst hd
    rw [Function.update_self] at hcur
    rcases List.mem_append.mp hcur with hold | hnew
    · refine h.queue e d hne ?_
      rw [SchedView.kept] at hold
      split at hold
      · cases hold
      · exact hold
    · split at hnew
      · cases hnew
      · exact hp e hne (List.mem_singleton.mp hnew)
  · rw [Function.update_of_ne hd] at hcur
    exact h.queue e d hne hcur

/-- Only the hands and the runqueues shrink. -/
theorem mono (h : v.Own) {w : SchedView n} (hcur : w.current = v.current) (hidle : w.idle = v.idle)
    (hqueue : ∀ d, ∀ p ∈ w.queue d, p ∈ v.queue d) (hhand : ∀ d, ∀ p ∈ w.hand d, p ∈ v.hand d) :
    w.Own where
  current c d hne := by rw [hcur]; exact h.current c d hne
  queue c d hne hmem := h.queue c d hne (hcur ▸ hqueue d _ hmem)
  hand c d hne hmem := h.hand c d hne (hcur ▸ hhand d _ hmem)
  idle c d he := h.idle c d (by rw [hcur, hidle] at he; exact he)

theorem leave (h : v.Own) (c : Fin n) : (v.leave c).Own := by
  have hrel : (v.setPhase c .pull).Own := by
    refine h.mono rfl rfl (fun d p hp => hp) fun d p hp => ?_
    rw [v.hand_setPhase] at hp
    by_cases hd : d = c
    · subst hd
      rw [Function.update_self] at hp
      cases hp
    · rwa [Function.update_of_ne hd] at hp
  rw [SchedView.leave]
  split
  · split
    · -- it goes to the CPU's own runqueue
      have hput := hrel.enqueue (c := c) (p := v.current c) fun d hd => h.current d c hd
      exact ⟨hput.current, hput.queue, hput.hand, hput.idle⟩
    · exact ⟨hrel.current, hrel.queue, hrel.hand, hrel.idle⟩
  · exact hrel

/-- A task is taken that no other CPU runs. -/
theorem take (h : v.Own) {c source : Fin n} {task : TaskPtr} {l : List TaskPtr}
    (hq : v.queue source = task :: l) (hfree : ∀ d, d ≠ c → v.current d ≠ task) :
    ((v.dequeue source l).setPhase c (.check task)).Own := by
  refine ⟨h.current, fun e d hne hmem => ?_, fun e d hne hmem => ?_, h.idle⟩
  · have hcur : v.current e ∈ Function.update v.queue source l d := hmem
    refine h.queue e d hne ?_
    by_cases hd : d = source
    · subst hd
      rw [Function.update_self] at hcur
      rw [hq]
      exact List.mem_cons_of_mem _ hcur
    · rwa [Function.update_of_ne hd] at hcur
  · rw [SchedView.hand_setPhase] at hmem
    by_cases hd : d = c
    · subst hd
      rw [Function.update_self] at hmem
      exact hfree e hne (List.mem_singleton.mp hmem)
    · rw [Function.update_of_ne hd] at hmem
      exact h.hand e d hne hmem

theorem commit (h : v.Own) (hinv : ViewInv v) {c : Fin n} {next : TaskPtr}
    (hphase : v.phase c = .commit next) : (v.commit c next).Own := by
  obtain ⟨x, hx⟩ : ∃ x, x = if next = 0 then v.idle c else next := ⟨_, rfl⟩
  have hhand := ViewInv.hand_of_phase hphase
  have hnotRun : v.phase c ≠ .running := by
    rw [hphase]
    exact nofun
  -- the next task is in hand, or the CPU's idle task
  have hcase : x ∈ v.hand c ∨ x = v.idle c := by
    by_cases hnext : next = 0
    · rw [if_pos hnext] at hx
      exact Or.inr hx
    · rw [if_neg hnext] at hx
      rw [hhand, Phase.hand, if_neg hnext, hx]
      exact Or.inl (List.mem_singleton_self _)
  have hother : ∀ d, d ≠ c → v.current d ≠ x := by
    rintro d hd rfl
    rcases hcase with hmem | he
    · exact h.hand d c hd hmem
    · exact hd (h.idle d c he)
  have hqueue : ∀ d, x ∉ v.queue d := by
    intro d hmem
    rcases hcase with hin | rfl
    · exact hinv.apart.disjoint (.inl d) (.inr c) (by simp) _ hmem hin
    · exact absurd (hinv.idle_place c (.inl d) hmem).1 (by simp)
  have hhands : ∀ d, d ≠ c → x ∉ v.hand d := by
    intro d hd hmem
    rcases hcase with hin | rfl
    · exact hinv.apart.disjoint (.inr d) (.inr c) (fun he => hd (Sum.inr_injective he)) _ hmem hin
    · exact hd (Sum.inr_injective (hinv.idle_place c (.inr d) hmem).1)
  have hcur : ∀ d, (v.commit c next).current d = if d = c then x else v.current d := fun d => by
    rw [hx]
    simp [SchedView.commit, Function.update_apply]
  refine ⟨fun e d hne => ?_, fun e d hne => ?_, fun e d hne => ?_, fun e d he => ?_⟩
  · rw [hcur, hcur]
    by_cases he : e = c
    · rw [if_pos he, if_neg fun hd => hne (he.trans hd.symm)]
      exact (hother d fun hd => hne (he.trans hd.symm)).symm
    · rw [if_neg he]
      split
      · exact hother e he
      · exact h.current e d hne
  · rw [hcur]
    split
    · exact hqueue d
    · exact h.queue e d hne
  · rw [hcur, v.hand_commit, ← hx]
    by_cases hd : d = c
    · subst hd
      rw [Function.update_self, if_neg hne, List.mem_singleton]
      exact hother e hne
    · rw [Function.update_of_ne hd]
      split
      · exact hhands d hd
      · exact h.hand e d hne
  · rw [hcur] at he
    split at he
    · rename_i hec
      rw [hec]
      rcases hcase with hin | hidle
      · have hplace : v.idle d ∈ v.places (.inr c) := he ▸ hin
        exact absurd (hinv.idle_place d _ hplace).2 fun hrun =>
          hnotRun ((Sum.inr_injective (hinv.idle_place d _ hplace).1) ▸ hrun)
      · exact hinv.idle_inj c d (hidle.symm.trans he)
    · exact h.idle e d he

/-- **What each step keeps** that steals no current task. -/
theorem step (h : v.Own) (hinv : ViewInv v) {op : MachineOp n} {w : SchedView n}
    (hstep : ViewStep v op w)
    (hfree : ∀ cpu victim rest task l, op = .resume cpu → v.phase cpu = .steal (victim :: rest) →
      victim ≠ cpu → v.queue victim = task :: l → v.current victim ≠ task) : w.Own := by
  -- the queue of a new task is its first place; what is taken was in a queue and is running nowhere
  cases hstep with
  | @create _ target task _ hfresh =>
    have hbuilt : (v.build task).Own := ⟨h.current, h.queue, h.hand, h.idle⟩
    refine hbuilt.enqueue fun d _ he => ?_
    have hlive : task ∈ v.live := he ▸ hinv.current d
    rcases hfresh with rfl | ⟨-, hnot⟩
    · exact hinv.null hlive
    · exact hnot hlive
  | exit => exact ⟨h.current, h.queue, h.hand, h.idle⟩
  | tick => exact h
  | enter => exact h.leave _
  | @take cpu source task l hphase hq =>
    refine h.take hq fun d hd he => ?_
    have hmem : v.current d ∈ v.queue source := by
      rw [hq, he]
      exact List.mem_cons_self
    -- its own queue, or a victim's, where nothing that is running is queued
    rcases hphase with ⟨-, rfl⟩ | ⟨⟨rest, hphase⟩, hne⟩
    · exact h.queue d source hd hmem
    · by_cases hds : d = source
      · exact hfree cpu source rest task l rfl hphase hne hq (hds ▸ he)
      · exact h.queue d source hds hmem
  | @pass cpu phase hpass =>
    refine h.mono rfl rfl (fun d p hp => hp) fun d p hp => ?_
    have hplace : p ∈ (v.setPhase cpu phase).places (.inr d) := hp
    rw [hinv.places_pass hpass] at hplace
    exact hplace
  | commit hphase => exact h.commit hinv hphase
  | stay => exact h

end SchedView.Own

section Steps

variable {m m' : Machine n} {q : Fin n → List TaskPtr}

/-- A step that steals no current task keeps each to its CPU. -/
theorem Simulated.own_step (h : Simulated m q) (hown : (m.view q).Own) {op : MachineOp n}
    (hstep : machineStep m op m') (hnot : ¬ op.Overtakes m) :
    ∃ q', Simulated m' q' ∧ (m'.view q').Own := by
  obtain ⟨q', hsim, hview⟩ := h.step hstep
  refine ⟨q', hsim, hown.step h.inv hview fun cpu victim rest task l hop hphase hne hq he => ?_⟩
  subst hop
  refine hnot ⟨victim, rest, hphase, hne, ?_⟩
  have hqueue := h.queues.isQueue victim
  rw [show q victim = task :: l from hq] at hqueue
  exact hqueue.linked.1.trans he.symm

/-- A thief goes on to switch to what it stole, while its victim still runs it. -/
theorem Simulated.overtakes (h : Simulated m q) {op : MachineOp n} (hover : op.Overtakes m) :
    ∃ ms m', Run machineStep m (op :: ms) m' ∧ ¬ m'.Exclusive := by
  cases op with
  | create => exact hover.elim
  | fork => exact hover.elim
  | sysExit => exact hover.elim
  | terminate => exact hover.elim
  | tick => exact hover.elim
  | enter => exact hover.elim
  | resume cpu =>
    obtain ⟨victim, rest, hphase, hne, hhead⟩ := hover
    obtain ⟨task, htask⟩ : ∃ task, task = m.sched.current victim := ⟨_, rfl⟩
    have hnull : task ≠ 0 := fun he => h.inv.null (he ▸ htask ▸ h.inv.current victim)
    obtain ⟨l, hq⟩ : ∃ l, q victim = task :: l := by
      have hlinked := (h.queues.isQueue victim).linked
      rw [hhead, ← htask] at hlinked
      generalize hl : q victim = tasks at hlinked
      cases tasks with
      | nil => exact absurd hlinked hnull
      | cons p l =>
        obtain rfl := hlinked.1
        exact ⟨l, rfl⟩
    obtain ⟨hdeq, -, -⟩ := h.queues.dequeue hq
    -- the steal, then the look at its state, then the switch
    obtain ⟨t, ht⟩ : ∃ t, t = (dequeueTask victim m.sched).2.updateTask task fun x =>
        { x with cpuId := ((dequeueTask victim m.sched).2.cpus cpu).id.toNat } := ⟨_, rfl⟩
    have hsteal : resume cpu m.sched (m.phase cpu) = (t, .check task) := by
      rw [hphase, resume, if_neg hne, ht]
      simp only [hdeq]
      rw [if_pos hnull]
    have hready : (t.tasks task).state = .ready := by
      rw [ht, Sched.updateTask_field _ _ _ (·.state) rfl, dequeueTask_tasks]
      refine h.inv.queued victim task ?_
      show task ∈ q victim
      rw [hq]
      exact List.mem_cons_self
    have hcheck : resume cpu t (.check task) = (t, .commit task) := by
      rw [resume, hready]
    have hfirst : machineStep m (.resume cpu) (m.move cpu (t, .check task)) := by
      refine ⟨trivial, ?_⟩
      rw [Apply, MachineOp.run, hsteal]
    have hthief : Resumes cpu (m.move cpu (t, .check task))
        (m.move cpu (resume cpu t (.commit task))) := by
      have hlook := m.resumes cpu t (.check task)
      rw [hcheck] at hlook
      exact hlook.trans (m.resumes cpu t (.commit task))
    obtain ⟨ms, hrun, -⟩ := hthief
    refine ⟨ms, _, Run.cons hfirst hrun, fun hexcl => ?_⟩
    have hcur : ∀ d, (switchTo cpu task t).current d = if d = cpu then task else t.current d := by
      intro d
      have hview := congrArg SchedView.current (switchTo_view t m.phase q cpu task)
      have hd := congrFun hview d
      rw [show ((t.view m.phase q).commit cpu task).current d = Function.update t.current cpu
        (if task = 0 then (t.cpus cpu).idleTask else task) d from rfl, if_neg hnull,
        Function.update_apply] at hd
      exact hd
    refine hexcl victim cpu hne ?_
    show (switchTo cpu task t).current victim = (switchTo cpu task t).current cpu
    rw [hcur, hcur, if_neg hne, if_pos rfl, ht]
    exact (dequeueTask_current victim m.sched victim).trans htask.symm

end Steps

/-- At boot each CPU runs its own idle task. -/
theorem Sched.Booted.own {s : Sched n} (h : s.Booted) : (s.idleMachine.view fun _ => []).Own := by
  have hcur : ∀ c, s.current c = (s.cpus c).idleTask := h.current
  have hne : ∀ c d, c ≠ d → s.current c ≠ s.current d := by
    intro c d hne he
    rw [hcur, hcur] at he
    exact hne (h.idle_inj c d he)
  refine ⟨hne, fun c d _ hmem => ?_, fun c d hcd hmem => ?_, fun c d he => ?_⟩
  · cases hmem
  · exact hne c d hcd (List.mem_singleton.mp hmem)
  · exact h.idle_inj c d ((hcur c).symm.trans he)

/-- **No task is on two CPUs**, in any interleaving in which no CPU steals the task its victim is
switching away from. Where one is about to, the thief's next steps put the task on both. -/
theorem machineRun_exclusive {s : Sched n} (h : s.Booted) {m : Machine n}
    {ops : List (MachineOp n)}
    (hrun : Run (Restrict (fun m op => ¬ op.Overtakes m) machineStep) s.idleMachine ops m) :
    m.Exclusive ∧
      ∀ op, op.Overtakes m → ∃ ms m', Run machineStep m (op :: ms) m' ∧ ¬ m'.Exclusive := by
  obtain ⟨q, hsim, hown⟩ : ∃ q, Simulated m q ∧ (m.view q).Own := by
    induction hrun with
    | nil => exact ⟨_, h.simulated, h.own⟩
    | snoc _ hstep ih =>
      obtain ⟨q, hsim, hown⟩ := ih
      exact hsim.own_step hown hstep.2 hstep.1
  exact ⟨hown.current, fun op hover => hsim.overtakes hover⟩

/-! ## Two CPUs at boot -/

/-- Two CPUs run their idle tasks. -/
def bootSched2 : Sched 2 where
  tasks _ := ⟨0, 0, 0, 0, 0, 0x100000, .running, 0, 0, 0, 0⟩
  cpus c :=
    ⟨BitVec.ofNat 8 c.val, 0x1000018 + 0x70 * c.val, 0x1000018 + 0x70 * c.val, false, 0, 0, 0, 0,
      0x100000, ⟨0, 0, 0⟩⟩
  nextId := 1
  live := {0x1000018, 0x1000088}
  reaped := []

theorem bootSched2_booted : bootSched2.Booted where
  queue _ := rfl
  current _ := rfl
  idle _ := ⟨rfl, rfl⟩
  idle_inj c d he := by
    have hval : 0x1000018 + 0x70 * c.val = 0x1000018 + 0x70 * d.val := he
    exact Fin.ext (by omega)
  live p := by
    simp only [bootSched2, Finset.mem_insert, Finset.mem_singleton]
    constructor
    · rintro (rfl | rfl)
      · exact ⟨0, rfl⟩
      · exact ⟨1, rfl⟩
    · rintro ⟨c, rfl⟩
      fin_cases c
      · exact Or.inl rfl
      · exact Or.inr rfl
  heap p hp := by
    rcases Finset.mem_insert.mp hp with rfl | hp
    · decide
    · obtain rfl := Finset.mem_singleton.mp hp
      decide
  nextId := rfl

/-- A task is created on the first CPU, which switches to it. -/
def startOnFirst : List (MachineOp 2) :=
  [.create 0 0x10000F8 0x100000 0x1001000 0, .enter 0 0x9000, .resume 0, .resume 0, .resume 0]

/-- The first CPU requeues the task; before it goes on, the second one takes it. -/
def stealOutgoing : List (MachineOp 2) :=
  [.enter 0 0x1004F00, .enter 1 0xA000, .resume 1, .resume 1, .resume 1, .resume 1]

/-- A second task waits for the first CPU, which runs the first one. The other CPU takes the waiting task
and runs it, and the first CPU goes on with its own. -/
def stealWaiting : List (MachineOp 2) :=
  [.create 0 0x1000168 0x100000 0x1006000 0, .enter 1 0xA000, .resume 1, .resume 1, .resume 1, .resume 1,
    .enter 0 0x1004F00, .resume 0, .resume 0, .resume 0]

/-- Each CPU runs a task, one of them a stolen one. -/
theorem machineRun_exclusive_steal :
    (bootSched2.idleMachine.runAll (startOnFirst ++ stealWaiting)).Exclusive ∧
      (bootSched2.idleMachine.runAll (startOnFirst ++ stealWaiting)).sched.current 0 = 0x10000F8 ∧
      (bootSched2.idleMachine.runAll (startOnFirst ++ stealWaiting)).sched.current 1 = 0x1000168 := by
  have hallowed : TransitionSystem.Allowed (fun m op => ¬ MachineOp.Overtakes m op ∧ op.Valid m)
      MachineOp.run bootSched2.idleMachine (startOnFirst ++ stealWaiting) := by decide +kernel
  have hrun : Run (Restrict (fun m op => ¬ MachineOp.Overtakes m op) machineStep)
      bootSched2.idleMachine (startOnFirst ++ stealWaiting) _ :=
    hallowed.run_restrict
  refine ⟨?_, by decide +kernel, by decide +kernel⟩
  exact (machineRun_exclusive bootSched2_booted hrun).1

/-- The task the first CPU switches away from is stolen and run by the second one. -/
theorem taskSteal_overtakes : Run machineStep bootSched2.idleMachine (startOnFirst ++ stealOutgoing)
    (bootSched2.idleMachine.runAll (startOnFirst ++ stealOutgoing)) ∧
      ¬ (bootSched2.idleMachine.runAll (startOnFirst ++ stealOutgoing)).Exclusive := by
  refine ⟨Machine.Allowed.run (by decide +kernel), fun hexcl => ?_⟩
  apply hexcl 0 1 (by decide)
  decide +kernel

end ZohoOs
