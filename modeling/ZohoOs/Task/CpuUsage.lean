import ZohoOs.Task.Exclusive

/-!
# The usage of the CPUs

`task_timer_tick` counts the ticks of a CPU and those that found it idle, one after the other, and
`sys_get_sys_info` reads the two counters of each CPU, one after the other. Other CPUs go on between the
two reads, so an entry can have more idle ticks than ticks.

## Main definitions

* `tickTotal`, `tickCurrent`: the two parts of `task_timer_tick`
* `UsageMachine`, `usageStep`: the CPUs, and one call of `sys_get_sys_info` after another
* `monitorUsage`: what the `monitor` command prints

## Main results

* `tickCurrent_tickTotal`: the two parts are the whole
* `MachineOp.run_ticks`: nothing else changes the counters
* `usageRun_percent`: the entries are percentages, just if no CPU is idle for too long between the reads
-/

namespace ZohoOs

open TransitionSystem

variable {n : Nat}

/-- The counters of a CPU, and an entry of `info->cpus`. -/
structure CpuTicks where
  totalTicks : BitVec 64
  idleTicks : BitVec 64
  deriving DecidableEq

def Cpu.ticks (c : Cpu) : CpuTicks := ⟨c.totalTicks, c.idleTicks⟩

/-- The usage that the `monitor` command prints for a CPU, in percent. -/
def monitorUsage (t : CpuTicks) : BitVec 64 :=
  if t.totalTicks > 0 then
    let busy := t.totalTicks - t.idleTicks
    (busy * 100) / t.totalTicks
  else 0

/-! ## A tick -/

/-- The CPU runs a task with the id of the idle tasks. -/
def Sched.Idles (s : Sched n) (cpu : Fin n) : Prop :=
  s.current cpu ≠ 0 ∧ (s.tasks (s.current cpu)).id = 0

instance (s : Sched n) (cpu : Fin n) : Decidable (s.Idles cpu) := inferInstanceAs (Decidable (_ ∧ _))

/-- `task_timer_tick` up to `cpu->total_ticks++`. -/
def tickTotal (cpu : Fin n) (s : Sched n) : Sched n :=
  s.updateCpu cpu fun c => { c with totalTicks := c.totalTicks + 1 }

/-- `task_timer_tick` from there on. -/
def tickCurrent (cpu : Fin n) (s : Sched n) : Sched n :=
  let current := s.current cpu
  if current = 0 then taskRequestReschedule cpu s
  else
    let s := s.updateTask current fun t => { t with totalTicks := t.totalTicks + 1 }
    let idle := (s.tasks current).id = 0
    let s := if idle then s.updateCpu cpu fun c => { c with idleTicks := c.idleTicks + 1 } else s
    -- a task that has exited is switched away from at the next chance
    if (s.tasks current).state ≠ .running then taskRequestReschedule cpu s
    else if idle then
      if (s.cpus cpu).runqueue.count ≠ 0 then taskRequestReschedule cpu s else s
    else
      let s := s.updateTask current fun t =>
        { t with timeslice := if t.timeslice = 0 then 0 else t.timeslice - 1 }
      if (s.tasks current).timeslice = 0 then taskRequestReschedule cpu s else s

/-- The two parts are the whole tick. -/
theorem tickCurrent_tickTotal (cpu : Fin n) (s : Sched n) :
    tickCurrent cpu (tickTotal cpu s) = taskTimerTick cpu s := by
  -- the first part leaves the current task
  have hcurrent : (tickTotal cpu s).current cpu = s.current cpu :=
    s.updateCpu_field cpu _ (·.currentTask) rfl cpu
  rw [tickCurrent, hcurrent]
  rfl

section Ticks

variable (s : Sched n) (cpu d : Fin n)

theorem tickTotal_ticks : ((tickTotal cpu s).cpus d).ticks =
    if d = cpu then ⟨(s.cpus cpu).totalTicks + 1, (s.cpus cpu).idleTicks⟩ else (s.cpus d).ticks := by
  rw [tickTotal, Sched.updateCpu_cpus]
  split <;> rfl

theorem taskRequestReschedule_ticks :
    ((taskRequestReschedule cpu s).cpus d).ticks = (s.cpus d).ticks :=
  s.updateCpu_field cpu _ Cpu.ticks rfl d

/-- The second part counts an idle tick where the CPU is idle. -/
theorem tickCurrent_ticks : ((tickCurrent cpu s).cpus d).ticks =
    if d = cpu ∧ s.Idles cpu then ⟨(s.cpus cpu).totalTicks, (s.cpus cpu).idleTicks + 1⟩
    else (s.cpus d).ticks := by
  have hcount : ((s.updateCpu cpu fun c => { c with idleTicks := c.idleTicks + 1 }).cpus d).ticks =
      if d = cpu then ⟨(s.cpus cpu).totalTicks, (s.cpus cpu).idleTicks + 1⟩
      else (s.cpus d).ticks := by
    rw [Sched.updateCpu_cpus]
    split <;> rfl
  have hid : ((s.updateTask (s.current cpu) fun t => { t with totalTicks := t.totalTicks + 1 }).tasks
      (s.current cpu)).id = (s.tasks (s.current cpu)).id := Sched.updateTask_field _ _ _ (·.id) rfl _
  rw [tickCurrent]
  by_cases hnull : s.current cpu = 0
  · rw [if_pos hnull, taskRequestReschedule_ticks, if_neg fun hc => hc.2.1 hnull]
  · rw [if_neg hnull]
    simp only [hid]
    by_cases hidle : (s.tasks (s.current cpu)).id = 0
    · have hidles : s.Idles cpu := ⟨hnull, hidle⟩
      simp only [if_pos hidle, hidles, and_true]
      rw [← hcount]
      split_ifs
      · rw [taskRequestReschedule_ticks]
        rfl
      · rw [taskRequestReschedule_ticks]
        rfl
      · rfl
    -- a task that is not idle: its timeslice changes, and no counter of the CPU
    · have hnot : ¬ (d = cpu ∧ s.Idles cpu) := fun hc => hidle hc.2.2
      rw [if_neg hnot]
      simp only [if_neg hidle]
      split_ifs
      · rw [taskRequestReschedule_ticks]
        rfl
      · rw [taskRequestReschedule_ticks]
        rfl
      · rfl

end Ticks

/-! ## Everything else -/

/-- The operation is a tick. -/
def MachineOp.IsTick : MachineOp n → Prop
  | .tick _ => True
  | _ => False

instance MachineOp.decidableIsTick : (op : MachineOp n) → Decidable op.IsTick
  | .tick _ => isTrue trivial
  | .create .. | .fork .. | .sysExit _ | .terminate _ | .enter .. | .resume _ => isFalse id

section Other

variable (s : Sched n) (d : Fin n)

theorem enqueueTask_ticks (c : Fin n) (task : TaskPtr) :
    ((enqueueTask c task s).cpus d).ticks = (s.cpus d).ticks :=
  enqueueTask_cpus c task s Cpu.ticks (fun _ _ => rfl) d

theorem dequeueTask_ticks (c : Fin n) : ((dequeueTask c s).2.cpus d).ticks = (s.cpus d).ticks :=
  dequeueTask_cpus c s Cpu.ticks (fun _ _ => rfl) d

theorem requeueCurrent_ticks (c : Fin n) (rsp : BitVec 64) :
    ((requeueCurrent c rsp s).cpus d).ticks = (s.cpus d).ticks := by
  have hreset : ((s.updateCpu c fun x => { x with needResched := false }).cpus d).ticks =
      (s.cpus d).ticks := s.updateCpu_field c _ Cpu.ticks rfl d
  unfold requeueCurrent
  simp only
  split
  · split
    · rw [enqueueTask_ticks]
      exact hreset
    · exact hreset
  · exact hreset

theorem resume_ticks (c : Fin n) (phase : Phase n) :
    ((resume c s phase).1.cpus d).ticks = (s.cpus d).ticks := by
  cases phase with
  | running => rfl
  | pull => exact dequeueTask_ticks s d c
  | steal victims =>
    cases victims with
    | nil => rfl
    | cons victim rest =>
      simp only [resume]
      split
      · rfl
      · split
        · exact dequeueTask_ticks s d victim
        · exact dequeueTask_ticks s d victim
  | check next =>
    simp only [resume]
    split <;> rfl
  | putBack next => exact enqueueTask_ticks s d c next
  | commit next => exact switchTo_cpus Cpu.ticks (fun _ _ _ _ _ => rfl) s c next d

/-- **Nothing but a tick changes the counters.** -/
theorem MachineOp.run_ticks (m : Machine n) {op : MachineOp n} (hop : ¬ op.IsTick) :
    ((op.run m).sched.cpus d).ticks = (m.sched.cpus d).ticks := by
  cases op with
  | create target task pml4 stack ustack => exact enqueueTask_ticks _ d target task
  | fork cpu task pml4 kstack ustack => exact enqueueTask_ticks _ d cpu task
  | sysExit cpu => exact taskRequestReschedule_ticks _ cpu d
  | terminate cpu =>
    simp only [MachineOp.run, ZohoOs.terminate]
    split <;> rfl
  | tick cpu => exact absurd trivial hop
  | enter cpu rsp =>
    simp only [MachineOp.run]
    split
    · rfl
    · exact requeueCurrent_ticks m.sched d cpu rsp
  | resume cpu => exact resume_ticks m.sched d cpu (m.phase cpu)

end Other

/-! ## The reads -/

/-- Between the two reads of an entry: the `total_ticks` that was stored, the ticks that the CPU had then
and that were not idle ones, and its idle ticks since then. -/
structure TicksRead where
  totalTicks : BitVec 64
  busy : Nat
  idleSince : Nat

/-- The entries of `info->cpus` that a call of `sys_get_sys_info` has filled in, and the one that it has
begun. -/
structure InfoCall where
  cpus : List CpuTicks
  begun : Option TicksRead

/-- The CPUs, those that are in the middle of a tick, and a call of `sys_get_sys_info`. -/
structure UsageMachine (n : Nat) where
  machine : Machine n
  ticking : Fin n → Bool
  info : InfoCall

/-- The steps. -/
inductive UsageOp (n : Nat)
  /-- Anything that a CPU does but a tick. -/
  | other (op : MachineOp n)
  | tickTotal (cpu : Fin n)
  | tickCurrent (cpu : Fin n)
  /-- `sys_get_sys_info` is called. -/
  | call
  /-- `info->cpus[i].total_ticks = cpu->total_ticks`. -/
  | readTotal
  /-- `info->cpus[i].idle_ticks = cpu->idle_ticks`. -/
  | readIdle

namespace UsageMachine

variable (m : UsageMachine n)

def cpu (c : Fin n) : Cpu := m.machine.sched.cpus c

/-- `i`. -/
def index : Nat := m.info.cpus.length

/-- The loop over the CPUs goes on. -/
def Reads : Prop := m.index < n ∧ m.index < 16

instance : Decidable m.Reads := inferInstanceAs (Decidable (_ ∧ _))

/-- An idle tick of the CPU whose entry has been begun is counted. -/
def countIdle (c : Fin n) : InfoCall :=
  if c.val = m.index ∧ m.machine.sched.Idles c then
    { m.info with begun := m.info.begun.map fun r => { r with idleSince := r.idleSince + 1 } }
  else m.info

/-- The entry of CPU `i` is begun, with its `total_ticks`. -/
def beginEntry (c : Fin n) : InfoCall :=
  let total := (m.cpu c).totalTicks
  { m.info with begun := some ⟨total, total.toNat - (m.cpu c).idleTicks.toNat, 0⟩ }

/-- The entry of CPU `i` gets its `idle_ticks`. -/
def endEntry (c : Fin n) : InfoCall :=
  match m.info.begun with
  | none => m.info
  | some r => ⟨m.info.cpus ++ [⟨r.totalTicks, (m.cpu c).idleTicks⟩], none⟩

end UsageMachine

def UsageOp.run : UsageOp n → UsageMachine n → UsageMachine n
  | .other op, m => { m with machine := op.run m.machine }
  | .tickTotal cpu, m => { m with
      machine := { m.machine with sched := ZohoOs.tickTotal cpu m.machine.sched }
      ticking := Function.update m.ticking cpu true }
  | .tickCurrent cpu, m => { m with
      machine := { m.machine with sched := ZohoOs.tickCurrent cpu m.machine.sched }
      ticking := Function.update m.ticking cpu false
      info := m.countIdle cpu }
  | .call, m => { m with info := ⟨[], none⟩ }
  | .readTotal, m => if h : m.index < n then { m with info := m.beginEntry ⟨m.index, h⟩ } else m
  | .readIdle, m => if h : m.index < n then { m with info := m.endEntry ⟨m.index, h⟩ } else m

/-- When a step can be taken. -/
def UsageOp.Valid (m : UsageMachine n) : UsageOp n → Prop
  | .other op => op.Valid m.machine ∧ ¬ op.IsTick
  | .tickTotal cpu => m.machine.phase cpu = .running ∧ m.ticking cpu = false
  | .tickCurrent cpu => m.ticking cpu = true
  | .call => m.info.begun = none ∧ ¬ m.Reads
  | .readTotal => m.info.begun = none ∧ m.Reads
  | .readIdle => m.info.begun.isSome = true

instance (m : UsageMachine n) (op : UsageOp n) : Decidable (op.Valid m) := by
  cases op <;> unfold UsageOp.Valid <;> infer_instance

/-- The counter of the ticks does not wrap around. -/
def UsageOp.Counts (m : UsageMachine n) : UsageOp n → Prop
  | .tickTotal cpu => (m.cpu cpu).totalTicks.toNat + 1 < 2 ^ 64
  | _ => True

instance (m : UsageMachine n) (op : UsageOp n) : Decidable (op.Counts m) := by
  cases op <;> unfold UsageOp.Counts <;> infer_instance

/-- The steps in which no counter wraps around. -/
abbrev usageStep : UsageMachine n → UsageOp n → UsageMachine n → Prop :=
  Restrict (fun m op => op.Valid m ∧ op.Counts m) (Apply UsageOp.run)

/-- Each entry that has been filled in has at most as many idle ticks as ticks, and the usage of the
monitor is a percentage. -/
def UsageMachine.Percent (m : UsageMachine n) : Prop :=
  ∀ t ∈ m.info.cpus, t.idleTicks ≤ t.totalTicks ∧ monitorUsage t ≤ 100

/-- The entry gets its `idle_ticks` after more idle ticks, since its `total_ticks` was read, than the CPU
had had busy ones. -/
def UsageMachine.IdleTooLong (m : UsageMachine n) (op : UsageOp n) : Prop :=
  op = .readIdle ∧ ∃ r ∈ m.info.begun, r.busy < r.idleSince

instance UsageMachine.decidableIdleTooLong (m : UsageMachine n) :
    (op : UsageOp n) → Decidable (m.IdleTooLong op)
  | .readIdle => decidable_of_iff (∃ r ∈ m.info.begun, r.busy < r.idleSince) (and_iff_right rfl).symm
  | .other _ | .tickTotal _ | .tickCurrent _ | .call | .readTotal => isFalse fun h => nomatch h.1

/-- The machine at boot, before any tick. -/
structure UsageMachine.Start (m : UsageMachine n) : Prop where
  ticks : ∀ c, (m.cpu c).ticks = ⟨0, 0⟩
  ticking : ∀ c, m.ticking c = false
  info : m.info = ⟨[], none⟩

/-! ## The counters of a run -/

/-- Where no more ticks were idle than there were, the usage is a percentage. -/
theorem monitorUsage_le {t : CpuTicks} (h : t.idleTicks ≤ t.totalTicks) : monitorUsage t ≤ 100 := by
  unfold monitorUsage
  split
  · rename_i hpos
    -- the product may wrap around, which only makes it smaller
    have hbusy : (t.totalTicks - t.idleTicks).toNat ≤ t.totalTicks.toNat := by
      rw [BitVec.toNat_sub_of_le h]
      exact Nat.sub_le _ _
    rw [BitVec.le_def, BitVec.toNat_udiv, BitVec.toNat_mul]
    refine Nat.div_le_of_le_mul ((Nat.mod_le _ _).trans ?_)
    exact Nat.mul_le_mul_right _ hbusy
  · exact BitVec.le_def.mpr (Nat.zero_le _)

namespace UsageMachine

variable {m m' : UsageMachine n}

/-- **What the steps keep**: a CPU has at most as many idle ticks as ticks, one less in the middle of a
tick, and the entry that has been begun counts them. -/
structure Counted (m : UsageMachine n) : Prop where
  idle_le : ∀ c, (m.cpu c).idleTicks.toNat + (if m.ticking c then 1 else 0) ≤
    (m.cpu c).totalTicks.toNat
  begun : ∀ r ∈ m.info.begun, ∃ h : m.index < n,
    (m.cpu ⟨m.index, h⟩).idleTicks.toNat + r.busy = r.totalTicks.toNat + r.idleSince
  percent : m.Percent

theorem Start.counted (h : m.Start) : m.Counted where
  idle_le c := by
    have hidle : (m.cpu c).idleTicks = 0 := congrArg CpuTicks.idleTicks (h.ticks c)
    rw [hidle, h.ticking c]
    exact Nat.zero_le _
  begun r hr := by
    rw [h.info] at hr
    cases hr
  percent t ht := by
    rw [h.info] at ht
    cases ht

/-- Where the counters are kept, so is what they count. -/
theorem Counted.congr (h : m.Counted) (hticks : ∀ c, (m'.cpu c).ticks = (m.cpu c).ticks)
    (hticking : m'.ticking = m.ticking) (hinfo : m'.info = m.info) : m'.Counted where
  idle_le c := by
    have hidle : (m'.cpu c).idleTicks = (m.cpu c).idleTicks := congrArg CpuTicks.idleTicks (hticks c)
    have htotal : (m'.cpu c).totalTicks = (m.cpu c).totalTicks :=
      congrArg CpuTicks.totalTicks (hticks c)
    rw [hidle, htotal, hticking]
    exact h.idle_le c
  begun r hr := by
    have hindex : m'.index = m.index := by rw [index, hinfo, index]
    rw [hinfo] at hr
    obtain ⟨hlt, hcount⟩ := h.begun r hr
    refine ⟨hindex ▸ hlt, ?_⟩
    have hidle : (m'.cpu ⟨m.index, hlt⟩).idleTicks = (m.cpu ⟨m.index, hlt⟩).idleTicks :=
      congrArg CpuTicks.idleTicks (hticks _)
    simp only [hindex]
    rw [hidle]
    exact hcount
  percent := by
    rw [Percent, hinfo]
    exact h.percent

/-- The counters after the first part of a tick. -/
theorem tickTotal_cpu (m : UsageMachine n) (cpu c : Fin n) :
    (((UsageOp.tickTotal cpu).run m).cpu c).idleTicks = (m.cpu c).idleTicks ∧
      (((UsageOp.tickTotal cpu).run m).cpu c).totalTicks =
        if c = cpu then (m.cpu c).totalTicks + 1 else (m.cpu c).totalTicks := by
  have hticks : (((UsageOp.tickTotal cpu).run m).cpu c).ticks =
      if c = cpu then ⟨(m.cpu cpu).totalTicks + 1, (m.cpu cpu).idleTicks⟩ else (m.cpu c).ticks :=
    tickTotal_ticks m.machine.sched cpu c
  have hidle := congrArg CpuTicks.idleTicks hticks
  have htotal := congrArg CpuTicks.totalTicks hticks
  by_cases hc : c = cpu
  · subst hc
    rw [if_pos rfl] at hidle htotal ⊢
    exact ⟨hidle, htotal⟩
  · rw [if_neg hc] at hidle htotal ⊢
    exact ⟨hidle, htotal⟩

/-- The counters after the second part. -/
theorem tickCurrent_cpu (m : UsageMachine n) (cpu c : Fin n) :
    (((UsageOp.tickCurrent cpu).run m).cpu c).totalTicks = (m.cpu c).totalTicks ∧
      (((UsageOp.tickCurrent cpu).run m).cpu c).idleTicks =
        if c = cpu ∧ m.machine.sched.Idles c then (m.cpu c).idleTicks + 1
        else (m.cpu c).idleTicks := by
  have hticks : (((UsageOp.tickCurrent cpu).run m).cpu c).ticks =
      if c = cpu ∧ m.machine.sched.Idles cpu then
        ⟨(m.cpu cpu).totalTicks, (m.cpu cpu).idleTicks + 1⟩
      else (m.cpu c).ticks := tickCurrent_ticks m.machine.sched cpu c
  have hidle := congrArg CpuTicks.idleTicks hticks
  have htotal := congrArg CpuTicks.totalTicks hticks
  by_cases hc : c = cpu ∧ m.machine.sched.Idles cpu
  · obtain ⟨rfl, hidles⟩ := hc
    rw [if_pos ⟨rfl, hidles⟩] at hidle htotal
    rw [if_pos ⟨rfl, hidles⟩]
    exact ⟨htotal, hidle⟩
  · have hnot : ¬ (c = cpu ∧ m.machine.sched.Idles c) := fun hc' => hc ⟨hc'.1, hc'.1 ▸ hc'.2⟩
    rw [if_neg hc] at hidle htotal
    rw [if_neg hnot]
    exact ⟨htotal, hidle⟩

theorem Counted.tickTotal (h : m.Counted) {cpu : Fin n}
    (hcounts : (UsageOp.tickTotal cpu).Counts m) (hticking : m.ticking cpu = false) :
    ((UsageOp.tickTotal cpu).run m).Counted := by
  -- the idle ticks stay, so what is counted since the read does too
  refine ⟨fun c => ?_, fun r hr => ?_, h.percent⟩
  · obtain ⟨hidle, htotal⟩ := tickTotal_cpu m cpu c
    have hle := h.idle_le c
    rw [hidle, htotal]
    by_cases hc : c = cpu
    · subst hc
      have hsucc : ((m.cpu c).totalTicks + 1).toNat = (m.cpu c).totalTicks.toNat + 1 := by
        rw [BitVec.toNat_add]
        exact Nat.mod_eq_of_lt hcounts
      have hnow : ((UsageOp.tickTotal c).run m).ticking c = true := Function.update_self _ _ _
      rw [hticking, if_neg Bool.false_ne_true] at hle
      rw [if_pos rfl, hsucc, hnow, if_pos rfl]
      omega
    · have hsame : ((UsageOp.tickTotal cpu).run m).ticking c = m.ticking c :=
        Function.update_of_ne hc _ _
      rw [if_neg hc, hsame]
      exact hle
  · obtain ⟨hlt, hcount⟩ := h.begun r hr
    refine ⟨hlt, ?_⟩
    rw [← hcount]
    exact congrArg (fun t => t.toNat + r.busy) (tickTotal_cpu m cpu _).1

theorem Counted.tickCurrent (h : m.Counted) {cpu : Fin n} (hticking : m.ticking cpu = true) :
    ((UsageOp.tickCurrent cpu).run m).Counted := by
  -- the tick is counted before, so there is room for an idle one
  have hroom : (m.cpu cpu).idleTicks.toNat + 1 ≤ (m.cpu cpu).totalTicks.toNat := by
    have hle := h.idle_le cpu
    rwa [hticking, if_pos rfl] at hle
  have hsucc : ((m.cpu cpu).idleTicks + 1).toNat = (m.cpu cpu).idleTicks.toNat + 1 := by
    have hlt := (m.cpu cpu).totalTicks.isLt
    rw [BitVec.toNat_add]
    exact Nat.mod_eq_of_lt (by simp; omega)
  have hlength : (m.countIdle cpu).cpus = m.info.cpus := by
    rw [countIdle]
    split <;> rfl
  refine ⟨fun c => ?_, fun r hr => ?_, ?_⟩
  · obtain ⟨htotal, hidle⟩ := tickCurrent_cpu m cpu c
    rw [hidle, htotal]
    by_cases hc : c = cpu
    · subst hc
      have hnow : ((UsageOp.tickCurrent c).run m).ticking c = false := Function.update_self _ _ _
      rw [hnow, if_neg Bool.false_ne_true]
      split
      · rw [hsucc]
        exact hroom
      · omega
    · have hsame : ((UsageOp.tickCurrent cpu).run m).ticking c = m.ticking c :=
        Function.update_of_ne hc _ _
      rw [if_neg fun hc' => hc hc'.1, hsame]
      exact h.idle_le c
  · have hindex : ((UsageOp.tickCurrent cpu).run m).index = m.index := congrArg List.length hlength
    have hinfo : ((UsageOp.tickCurrent cpu).run m).info = m.countIdle cpu := rfl
    rw [hinfo, countIdle] at hr
    simp only [hindex]
    split at hr
    · -- an idle tick of the CPU whose entry has been begun
      rename_i hcpu
      obtain ⟨r₀, hr₀, rfl⟩ := Option.mem_map.mp hr
      obtain ⟨hlt, hcount⟩ := h.begun r₀ hr₀
      have hc : (⟨m.index, hlt⟩ : Fin n) = cpu := Fin.ext hcpu.1.symm
      refine ⟨hlt, ?_⟩
      rw [(tickCurrent_cpu m cpu _).2, hc, if_pos ⟨rfl, hcpu.2⟩, hsucc]
      rw [hc] at hcount
      simp only
      omega
    · rename_i hcpu
      obtain ⟨hlt, hcount⟩ := h.begun r hr
      refine ⟨hlt, ?_⟩
      rw [(tickCurrent_cpu m cpu _).2, if_neg]
      · exact hcount
      · rintro ⟨hc, hidles⟩
        exact hcpu ⟨(congrArg Fin.val hc).symm, hc ▸ hidles⟩
  · intro t ht
    exact h.percent t (hlength ▸ ht)

theorem Counted.readTotal (h : m.Counted) (hlt : m.index < n) :
    (UsageOp.readTotal.run m).Counted := by
  have hrun : UsageOp.readTotal.run m = { m with info := m.beginEntry ⟨m.index, hlt⟩ } := dif_pos hlt
  rw [hrun]
  refine ⟨h.idle_le, fun r hr => ⟨hlt, ?_⟩, h.percent⟩
  obtain rfl := Option.some.inj hr
  have hle := h.idle_le ⟨m.index, hlt⟩
  show (m.cpu ⟨m.index, hlt⟩).idleTicks.toNat +
    ((m.cpu ⟨m.index, hlt⟩).totalTicks.toNat - (m.cpu ⟨m.index, hlt⟩).idleTicks.toNat) =
    (m.cpu ⟨m.index, hlt⟩).totalTicks.toNat + 0
  omega

/-- The entry that has been begun gets its `idle_ticks`. -/
theorem readIdle_run {r : TicksRead} (hr : m.info.begun = some r) (hlt : m.index < n) :
    UsageOp.readIdle.run m = { m with info :=
      ⟨m.info.cpus ++ [⟨r.totalTicks, (m.cpu ⟨m.index, hlt⟩).idleTicks⟩], none⟩ } := by
  have hrun : UsageOp.readIdle.run m = { m with info := m.endEntry ⟨m.index, hlt⟩ } := dif_pos hlt
  rw [hrun, endEntry, hr]

theorem Counted.readIdle (h : m.Counted) (hvalid : UsageOp.readIdle.Valid m)
    (hidle : ¬ m.IdleTooLong .readIdle) : (UsageOp.readIdle.run m).Counted := by
  obtain ⟨r, hr⟩ := Option.isSome_iff_exists.mp hvalid
  obtain ⟨hlt, hcount⟩ := h.begun r hr
  rw [readIdle_run hr hlt]
  refine ⟨h.idle_le, fun r hr => (by cases hr), fun t ht => ?_⟩
  rcases List.mem_append.mp ht with ht | ht
  · exact h.percent t ht
  · obtain rfl := List.mem_singleton.mp ht
    have hlate : ¬ r.busy < r.idleSince := fun hlt => hidle ⟨rfl, r, hr, hlt⟩
    have hle : (m.cpu ⟨m.index, hlt⟩).idleTicks ≤ r.totalTicks := by
      rw [BitVec.le_def]
      omega
    exact ⟨hle, monitorUsage_le hle⟩

/-- **A step keeps the counters**, where no entry is filled in too late. -/
theorem Counted.step (h : m.Counted) {op : UsageOp n} (hstep : usageStep m op m')
    (hidle : ¬ m.IdleTooLong op) : m'.Counted := by
  obtain ⟨⟨hvalid, hcounts⟩, rfl⟩ := hstep
  cases op with
  | other op => exact h.congr (fun c => op.run_ticks c m.machine hvalid.2) rfl rfl
  | tickTotal cpu => exact h.tickTotal hcounts hvalid.2
  | tickCurrent cpu => exact h.tickCurrent hvalid
  | call => exact ⟨h.idle_le, fun r hr => (by cases hr), fun t ht => (by cases ht)⟩
  | readTotal => exact h.readTotal hvalid.2.1
  | readIdle => exact h.readIdle hvalid hidle

/-- An entry that is filled in too late has more idle ticks than ticks. -/
theorem Counted.idleTooLong (h : m.Counted) {op : UsageOp n} (hstep : usageStep m op m')
    (hidle : m.IdleTooLong op) : ¬ m'.Percent := by
  obtain ⟨-, rfl⟩ := hstep
  obtain ⟨rfl, r, hr, hlate⟩ := hidle
  obtain ⟨hlt, hcount⟩ := h.begun r hr
  intro hpercent
  have hentry : (⟨r.totalTicks, (m.cpu ⟨m.index, hlt⟩).idleTicks⟩ : CpuTicks) ∈
      (UsageOp.readIdle.run m).info.cpus := by
    rw [readIdle_run hr hlt]
    exact List.mem_append_right _ (List.mem_singleton_self _)
  have hle := (hpercent _ hentry).1
  rw [BitVec.le_def] at hle
  simp only at hle
  omega

end UsageMachine

/-- **The usage is a percentage all along a run**, just if no entry gets its `idle_ticks` after more idle
ticks, since its `total_ticks` was read, than the CPU had had busy ones. -/
theorem usageRun_percent {m₀ u : UsageMachine n} (h : m₀.Start) {ops : List (UsageOp n)}
    (hrun : Run usageStep m₀ ops u) :
    (∀ pre v, pre <+: ops → Run usageStep m₀ pre v → v.Percent) ↔
      ∀ pre v op, pre ++ [op] <+: ops → Run usageStep m₀ pre v → ¬ v.IdleTooLong op := by
  refine Run.always_iff (J := UsageMachine.Counted) ?_ ?_ ?_ ?_ h.counted hrun
  · exact fun _ _ _ _ hs hs' => hs.2.trans hs'.2.symm
  · exact fun _ hv => hv.percent
  · exact fun _ _ _ hv hstep hidle => hv.step hstep hidle
  · exact fun _ _ _ hv hstep hidle => hv.idleTooLong hstep hidle

/-! ## Two idle CPUs -/

/-- Two idle CPUs at boot, and a call of `sys_get_sys_info`. -/
def idleUsage : UsageMachine 2 := ⟨bootSched2.idleMachine, fun _ => false, ⟨[], none⟩⟩

theorem idleUsage_start : idleUsage.Start := ⟨fun _ => rfl, fun _ => rfl, rfl⟩

/-- An idle CPU ticks, and the counters of both are read. -/
def usageBetweenTicks : List (UsageOp 2) :=
  [.tickTotal 1, .tickCurrent 1, .readTotal, .readIdle, .readTotal, .readIdle]

theorem usageRun_percent_between : ∃ u, Run usageStep idleUsage usageBetweenTicks u ∧
    ∀ pre v, pre <+: usageBetweenTicks → Run usageStep idleUsage pre v → v.Percent := by
  have hrun : Run usageStep idleUsage usageBetweenTicks _ := Allowed.run (by decide +kernel)
  have hidle : Allowed (fun v op => ¬ UsageMachine.IdleTooLong v op) UsageOp.run idleUsage
      usageBetweenTicks := by decide +kernel
  refine ⟨_, hrun, (usageRun_percent idleUsage_start hrun).mpr fun pre v op hpre hv => ?_⟩
  exact hidle.at_prefix (fun _ _ _ hstep => hstep.2) hpre hv

/-- The idle CPU ticks again between the reads of its counters. -/
def usageAroundTick : List (UsageOp 2) :=
  [.tickTotal 1, .tickCurrent 1, .readTotal, .readIdle, .readTotal, .tickTotal 1, .tickCurrent 1,
    .readIdle]

/-- **An entry with more idle ticks than ticks**, and the usage that the monitor computes from it. -/
theorem usage_not_percent : ∃ u, Run usageStep idleUsage usageAroundTick u ∧ ¬ u.Percent ∧
    u.info.cpus.map monitorUsage = [0, 18446744073709551516] := by
  have hrun : Run usageStep idleUsage usageAroundTick _ := Allowed.run (by decide +kernel)
  refine ⟨_, hrun, fun hpercent => ?_, by decide +kernel⟩
  have hle := (hpercent ⟨1, 2⟩ (by decide +kernel)).1
  exact absurd hle (by decide)

end ZohoOs
