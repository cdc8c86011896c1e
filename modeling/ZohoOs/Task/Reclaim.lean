import ZohoOs.Task.Conservation

/-!
# Exited tasks

`task_reap` is called for exited tasks that come out of a runqueue, and `task_schedule` puts no
exited task into one. A CPU that switches away from an exited task leaves it behind.

## Main definitions

* `Machine.Reclaimable`: each exited task is on a CPU, or in a runqueue
* `MachineOp.Abandons`: a CPU switches away from an exited task

## Main results

* `machineRun_reclaimable_iff`: exited tasks stay reclaimable just if no step abandons one
-/

namespace ZohoOs

open TransitionSystem LinkedQueue Placement

variable {n : Nat}

/-- **Exited tasks can be reclaimed**: a task that has exited, and that `task_reap` has not freed, is
the current task of a CPU, or `task_schedule` will take it from a runqueue. -/
def Machine.Reclaimable (m : Machine n) : Prop :=
  ∀ p ∈ m.sched.live, (m.sched.tasks p).state = .exited →
    (∃ c, m.sched.current c = p) ∨ ∃ c l, Linked m.sched.next 0 (m.sched.rq c).head l ∧ p ∈ l

/-- A CPU at the end of `task_schedule` that switches from an exited task to another one, where no
other CPU has the exited task. -/
def MachineOp.Abandons (m : Machine n) : MachineOp n → Prop
  | .resume cpu =>
    ∃ next, m.phase cpu = .commit next ∧
      (m.sched.tasks (m.sched.current cpu)).state = .exited ∧
      (if next = 0 then (m.sched.cpus cpu).idleTask else next) ≠ m.sched.current cpu ∧
      ∀ d, d ≠ cpu → m.sched.current d ≠ m.sched.current cpu
  | _ => False

/-- The task the CPU is about to switch to. -/
def Phase.target : Phase n → Option TaskPtr
  | .commit next => some next
  | _ => none

theorem Phase.mem_target {phase : Phase n} {next : TaskPtr} :
    next ∈ phase.target ↔ phase = .commit next := by
  cases phase <;> simp [Phase.target, eq_comm]

theorem MachineOp.abandons_resume {m : Machine n} {cpu : Fin n} :
    (∃ next ∈ (m.phase cpu).target, (m.sched.tasks (m.sched.current cpu)).state = .exited ∧
      (if next = 0 then (m.sched.cpus cpu).idleTask else next) ≠ m.sched.current cpu ∧
      ∀ d, d ≠ cpu → m.sched.current d ≠ m.sched.current cpu) ↔
      (MachineOp.resume cpu).Abandons m := by
  simp only [Phase.mem_target, Abandons]

instance MachineOp.decidableAbandons (m : Machine n) : ∀ op : MachineOp n, Decidable (op.Abandons m)
  | .resume _ => decidable_of_iff _ abandons_resume
  | .create .. | .fork .. | .sysExit .. | .terminate .. | .tick .. | .enter .. => isFalse id

/-- Each exited task is on a CPU. -/
def SchedView.ExitedHeld (v : SchedView n) : Prop :=
  ∀ p ∈ v.live, v.state p = .exited → ∃ c, v.current c = p

section Steps

variable {m m' : Machine n} {q : Fin n → List TaskPtr}

/-- No exited task is in a runqueue. -/
theorem Simulated.reclaimable_iff (h : Simulated m q) :
    m.Reclaimable ↔ (m.view q).ExitedHeld := by
  constructor
  · intro hrec p hp hexited
    rcases hrec p hp hexited with hcur | ⟨c, l, hlinked, hmem⟩
    · exact hcur
    · have heq : l = q c := hlinked.unique (h.queues.isQueue c).linked
      rw [heq] at hmem
      have hready := h.inv.queued c p hmem
      rw [show (m.view q).state p = .exited from hexited] at hready
      cases hready
  · exact fun hheld p hp hexited => Or.inl (hheld p hp hexited)

/-- What a step that abandons no task keeps. -/
theorem SchedView.ExitedHeld.step {v w : SchedView n} (h : v.ExitedHeld) {op : MachineOp n}
    (hstep : ViewStep v op w)
    (hkeep : ∀ cpu next, op = .resume cpu → v.phase cpu = .commit next →
      v.state (v.current cpu) = .exited →
      (if next = 0 then v.idle cpu else next) ≠ v.current cpu →
      ∃ d, d ≠ cpu ∧ v.current d = v.current cpu) : w.ExitedHeld := by
  cases hstep with
  | @create _ target task _ _ =>
    -- the new task is ready, and the others are as they were
    intro p hp hexited
    have hne : p ≠ task := by
      rintro rfl
      have hready : Function.update v.state p .ready p = .exited := hexited
      rw [Function.update_self] at hready
      cases hready
    have hstate : Function.update v.state task .ready p = .exited := hexited
    rw [Function.update_of_ne hne] at hstate
    have hmem : p ∈ if task = 0 then v.live else insert task v.live := hp
    refine h p ?_ hstate
    split at hmem
    · exact hmem
    · exact (Finset.mem_insert.mp hmem).resolve_left hne
  | @exit _ cpu _ _ =>
    intro p hp hexited
    by_cases hne : p = v.current cpu
    · exact ⟨cpu, hne.symm⟩
    · have hstate : Function.update v.state (v.current cpu) .exited p = .exited := hexited
      rw [Function.update_of_ne hne] at hstate
      exact h p hp hstate
  | tick => exact h
  | @enter cpu _ _ =>
    -- the outgoing task becomes ready, or nothing changes
    have hmono : ∀ p, (v.leave cpu).state p = .exited → v.state p = .exited := by
      intro p hp
      rw [SchedView.leave] at hp
      have hready : Function.update v.state (v.current cpu) .ready p = .exited →
          v.state p = .exited := by
        intro hp
        by_cases hne : p = v.current cpu
        · rw [hne, Function.update_self] at hp
          cases hp
        · rwa [Function.update_of_ne hne] at hp
      split at hp
      · split at hp
        · exact hready hp
        · exact hready hp
      · exact hp
    have hsame : (v.leave cpu).live = v.live ∧ (v.leave cpu).current = v.current := by
      rw [SchedView.leave]
      split
      · split <;> exact ⟨rfl, rfl⟩
      · exact ⟨rfl, rfl⟩
    intro p hp hexited
    rw [hsame.1] at hp
    rw [hsame.2]
    exact h p hp (hmono p hexited)
  | take => exact h
  | pass => exact h
  | @commit cpu next hphase =>
    intro p hp hexited
    have hne : p ≠ if next = 0 then v.idle cpu else next := by
      intro he
      have hrun : Function.update v.state (if next = 0 then v.idle cpu else next) .running p =
          .exited := hexited
      rw [he, Function.update_self] at hrun
      cases hrun
    have hold : v.state p = .exited := (Function.update_of_ne hne _ _).symm.trans hexited
    obtain ⟨c, hc⟩ := h p hp hold
    -- it was on another CPU, or this one would abandon it
    obtain ⟨d, hd, hdp⟩ : ∃ d, d ≠ cpu ∧ v.current d = p := by
      by_cases hcpu : c = cpu
      · subst hcpu
        obtain ⟨d, hd, hdc⟩ := hkeep c next rfl hphase (hc ▸ hold) fun he => hne (hc.symm.trans he.symm)
        exact ⟨d, hd, hdc.trans hc⟩
      · exact ⟨c, hcpu, hc⟩
    exact ⟨d, (Function.update_of_ne hd _ _).trans hdp⟩
  | stay => exact h

/-- A step that abandons no task keeps exited tasks reclaimable. -/
theorem Simulated.exitedHeld_step (h : Simulated m q) {op : MachineOp n}
    (hstep : machineStep m op m') (hnot : ¬ op.Abandons m) (hheld : (m.view q).ExitedHeld) :
    ∃ q', Simulated m' q' ∧ (m'.view q').ExitedHeld := by
  obtain ⟨q', hsim, hview⟩ := h.step hstep
  refine ⟨q', hsim, hheld.step hview fun cpu next hop hphase hexited hne => ?_⟩
  by_contra hall
  push Not at hall
  subst hop
  exact hnot ⟨next, hphase, hexited, hne, hall⟩

/-- A task that is abandoned is lost. -/
theorem Simulated.not_reclaimable (h : Simulated m q) {op : MachineOp n}
    (hstep : machineStep m op m') (habandons : op.Abandons m) : ¬ m'.Reclaimable := by
  obtain ⟨q', hsim, hview⟩ := h.step hstep
  rw [hsim.reclaimable_iff]
  cases op with
  | create => exact habandons.elim
  | fork => exact habandons.elim
  | sysExit => exact habandons.elim
  | terminate => exact habandons.elim
  | tick => exact habandons.elim
  | enter => exact habandons.elim
  | resume cpu =>
    obtain ⟨next, hphase, hexited, hne, halone⟩ := habandons
    -- The phase of `cpu` leaves one step over the lists: the switch.
    have hw : m'.view q' = (m.view q).commit cpu next := by
      have hphase' : (m.view q).phase cpu = .commit next := hphase
      generalize m'.view q' = w at hview
      cases hview with
      | create hspawns => cases hspawns
      | exit hexits => cases hexits
      | take hp =>
        rcases hp with ⟨hp, -⟩ | ⟨⟨rest, hp⟩, -⟩ <;> rw [hphase'] at hp <;> cases hp
      | pass hp =>
        rw [hphase'] at hp
        cases hp
      | commit hp =>
        rw [hphase'] at hp
        cases hp
        rfl
      | stay hp =>
        rw [hphase'] at hp
        cases hp
    rw [hw]
    intro hheld
    have hstate : ((m.view q).commit cpu next).state (m.sched.current cpu) = .exited :=
      (Function.update_of_ne (Ne.symm hne) _ _).trans hexited
    -- A CPU that still has the exited task would be `cpu` itself, or another one.
    obtain ⟨d, hd⟩ := hheld (m.sched.current cpu) (h.inv.current cpu) hstate
    by_cases hdc : d = cpu
    · subst hdc
      exact hne ((Function.update_self _ _ _).symm.trans hd)
    · exact halone d hdc ((Function.update_of_ne hdc _ _).symm.trans hd)

end Steps

/-- **Exited tasks stay reclaimable just if no step abandons one**, in every run, whatever the
interleaving. -/
theorem machineRun_reclaimable_iff {s : Sched n} (h : s.Booted) {m : Machine n}
    {ops : List (MachineOp n)} (hrun : Run machineStep s.idleMachine ops m) :
    (∀ pre u, pre <+: ops → Run machineStep s.idleMachine pre u → u.Reclaimable) ↔
      ∀ pre u op, pre ++ [op] <+: ops → Run machineStep s.idleMachine pre u → ¬ op.Abandons u := by
  apply Run.always_iff (J := fun u : Machine n => ∃ q, Simulated u q ∧ (u.view q).ExitedHeld)
  · exact fun u op t t' hstep hstep' => machineRun_unique (Run.single hstep) (Run.single hstep')
  · rintro u ⟨q, hsim, hq⟩
    exact hsim.reclaimable_iff.mpr hq
  · rintro u op t ⟨q, hsim, hq⟩ hstep hnone
    exact hsim.exitedHeld_step hstep hnone hq
  · rintro u op t ⟨q, hsim, -⟩ hstep habandons
    exact hsim.not_reclaimable hstep habandons
  · -- at boot the CPUs run all the tasks there are
    refine ⟨_, h.simulated, fun p hp hexited => ?_⟩
    obtain ⟨c, rfl⟩ := (h.live p).mp hp
    exact ⟨c, h.current c⟩
  · exact hrun

/-! ## One task on one CPU -/

/-- A task is created, and runs. -/
def startTask : List (MachineOp 1) :=
  [.create 0 0x1000088 0x100000 0x1001000 0, .enter 0 0x9000, .resume 0, .resume 0, .resume 0]

/-- The task exits, and its CPU goes back to the idle task. -/
def exitTask : List (MachineOp 1) :=
  [.sysExit 0, .enter 0 0x1004F00, .resume 0, .resume 0, .resume 0, .resume 0]

/-- A task that runs and is terminated can be reclaimed until its CPU switches. -/
theorem machineRun_reclaimable_iff_start :
    (bootSched.idleMachine.runAll (startTask ++ [.terminate 0])).sched.current 0 = 0x1000088 ∧
      ((bootSched.idleMachine.runAll (startTask ++ [.terminate 0])).sched.tasks 0x1000088).state = .exited ∧
      (bootSched.idleMachine.runAll (startTask ++ [.terminate 0])).Reclaimable := by
  have hrun : Run machineStep bootSched.idleMachine (startTask ++ [.terminate 0]) _ :=
    Machine.Allowed.run (by decide +kernel)
  have hnone : Allowed (fun u op => ¬ MachineOp.Abandons u op) MachineOp.run bootSched.idleMachine
      (startTask ++ [.terminate 0]) := by decide +kernel
  refine ⟨by decide +kernel, by decide +kernel, ?_⟩
  refine (machineRun_reclaimable_iff bootSched_booted hrun).mpr ?_ _ _ (List.prefix_refl _) hrun
  exact fun pre u op hpre hu => hnone.at_prefix (fun _ _ _ hstep => hstep.2) hpre hu

/-- `sys_exit` loses the task: when its CPU has switched, it is on no CPU and in no runqueue. -/
theorem sysExit_loses : Run machineStep bootSched.idleMachine (startTask ++ exitTask)
    (bootSched.idleMachine.runAll (startTask ++ exitTask)) ∧
      ¬ (bootSched.idleMachine.runAll (startTask ++ exitTask)).Reclaimable := by
  refine ⟨Machine.Allowed.run (by decide +kernel), fun hrec => ?_⟩
  have hexited := hrec 0x1000088 (by decide +kernel) (by decide +kernel)
  rcases hexited with ⟨c, hc⟩ | ⟨c, l, hlinked, hmem⟩
  · obtain rfl : c = 0 := Subsingleton.elim _ _
    revert hc
    decide +kernel
  · have hhead : ((bootSched.idleMachine.runAll (startTask ++ exitTask)).sched.rq c).head = 0 := by
      obtain rfl : c = 0 := Subsingleton.elim _ _
      decide +kernel
    rw [hhead] at hlinked
    have hnil : l = [] := by
      apply hlinked.unique
      rfl
    rw [hnil] at hmem
    cases hmem

end ZohoOs
