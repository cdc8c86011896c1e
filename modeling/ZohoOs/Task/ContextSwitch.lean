import ZohoOs.Task.ForkFrame
import ZohoOs.Task.RoundRobin

/-!
# Context switches

The tasks of one CPU, with their registers and the memory their kernel stacks lie in. An interrupt pushes
the registers on the kernel stack of the task it comes to, `task_schedule` notes the stack pointer and returns
that of another task, and the end of the stub pops that task's registers.

Tasks may be in user mode or in the kernel, in a system call or in a thread of its own. Whenever the timer
interrupts them, each of them goes on with the registers of its own last instruction.

## Main definitions

* `TimeShared`, `TimeStep`: the CPU and what may happen on it
* `timerHandler`: what `isr_handler` does on a tick
* `TimeShared.context`: the registers of a task, whether it runs or not
* `TimeShared.Sound`: the frames of the tasks that wait

## Main results

* `taskSchedule_stacks`: what a switch does to the stack pointers of the CPU
* `TimeShared.Sound.step`: one step, for the context of every task
* `contextSwitch_transparent`: any run
-/

namespace ZohoOs

open TransitionSystem WordStack LinkedQueue

/-! ## The CPU -/

/-- The CPU: the scheduler, the registers of the task that runs, and the memory. -/
structure TimeShared where
  sched : Sched 1
  regs : Registers
  mem : Words (BitVec 64)

/-- The lowest address of a kernel stack. -/
def Task.stackBase (t : Task) : BitVec 64 := t.kernelRsp - BitVec.ofNat 64 taskStackSize

/-- An address of the kernel stack of a task. -/
def Task.OnStack (t : Task) (a : BitVec 64) : Prop := a - t.stackBase < BitVec.ofNat 64 taskStackSize

/-- A task in the kernel is on its kernel stack, and leaves room for a frame there. -/
def Registers.Room (c : Registers) (t : Task) : Prop :=
  c.cs &&& 3#64 = 0 → 192#64 ≤ c.rsp - t.stackBase ∧ c.rsp - t.stackBase ≤ BitVec.ofNat 64 taskStackSize

/-- Where the processor pushes: from user mode it goes to the stack in the TSS. -/
def TimeShared.entryStack (s : TimeShared) : BitVec 64 :=
  if s.regs.cs &&& 3#64 = 0 then s.regs.rsp else (s.sched.cpus 0).rsp0

/-- `isr_handler` on a tick: the stack pointer it returns. -/
def timerHandler (fuel : Nat) (frame : BitVec 64) (s : Sched 1) : Option (BitVec 64 × Sched 1) :=
  let s := taskTimerTick 0 s
  if (s.cpus 0).needResched then taskSchedule fuel 0 frame s else some (frame, s)

/-- What happens. A task runs on, to other registers; it asks for a switch, as `task_yield` does; or the timer
interrupt comes, or `int $32`. -/
inductive TimeEvent
  | runs (t : TaskPtr) (regs : Registers)
  | asks
  | tick

/-- The kernel stacks of the tasks that wait are spared. -/
def TimeShared.Spares (s : TimeShared) (mem mem' : Words (BitVec 64)) : Prop :=
  ∀ t, t ≠ s.sched.current 0 → (s.sched.tasks t).state = .ready →
    ∀ a, (s.sched.tasks t).OnStack a → mem' a = mem a

inductive TimeStep (fuel : Nat) : TimeShared → TimeEvent → TimeShared → Prop
  | runs {s : TimeShared} {regs : Registers} {mem : Words (BitVec 64)} :
      regs.Room (s.sched.tasks (s.sched.current 0)) → s.Spares s.mem mem →
      TimeStep fuel s (.runs (s.sched.current 0) regs) { s with regs := regs, mem := mem }
  | asks {s : TimeShared} : TimeStep fuel s .asks { s with sched := taskRequestReschedule 0 s.sched }
  /-- The C code called may leave anything on the kernel stack below the frame. -/
  | tick {s : TimeShared} {frame rsp : BitVec 64} {pushed mem : Words (BitVec 64)} {sched : Sched 1} :
      interruptEntry s.entryStack s.regs 32 0 s.mem = (frame, pushed) →
      Kept frame (align16 s.entryStack) pushed mem → s.Spares pushed mem →
      timerHandler fuel frame s.sched = some (rsp, sched) →
      TimeStep fuel s .tick ⟨sched, isrReturn rsp mem, mem⟩

/-- The registers of a task: of one that waits, those that are going to be popped. -/
def TimeShared.context (s : TimeShared) (t : TaskPtr) : Registers :=
  if t = s.sched.current 0 then s.regs else isrReturn (s.sched.tasks t).rsp s.mem

/-- The registers of a task as far as its own instructions set them. -/
def TimeEvent.own (t : TaskPtr) (c : Registers) : TimeEvent → Registers
  | .runs t' regs => if t = t' then regs else c
  | _ => c

/-- **The frames of the tasks that wait** lie whole in their kernel stacks, which are apart. -/
structure TimeShared.Sound (s : TimeShared) (t₀ : TaskPtr) (ts : List TaskPtr) : Prop where
  turn : InTurn s.sched t₀ ts
  rsp0 : (s.sched.cpus 0).rsp0 = (s.sched.tasks t₀).kernelRsp
  frames : ∀ t ∈ ts, (s.sched.tasks t).rsp - (s.sched.tasks t).stackBase ≤
    BitVec.ofNat 64 (taskStackSize - 176)
  rooms : ∀ t ∈ ts ++ [t₀], (s.context t).Room (s.sched.tasks t)
  apart : ∀ t ∈ ts ++ [t₀], ∀ t' ∈ ts ++ [t₀], t ≠ t' → ∀ a, (s.sched.tasks t).OnStack a →
    ¬ (s.sched.tasks t').OnStack a

/-! ## The scheduler -/

section Scheduler

variable {n : Nat} {s s' u : Sched n} {c : Fin n}

/-- The tasks keep their kernel stacks. -/
def SameStacks (s s' : Sched n) : Prop := ∀ t, (s'.tasks t).kernelRsp = (s.tasks t).kernelRsp

theorem SameStacks.trans (h : SameStacks s u) (k : SameStacks u s') : SameStacks s s' :=
  fun t => (k t).trans (h t)

theorem updateCpu_sameStacks (s : Sched n) (c : Fin n) (g : Cpu → Cpu) : SameStacks s (s.updateCpu c g) :=
  fun t => by rw [Sched.updateCpu_tasks]

theorem updateTask_sameStacks (p : TaskPtr) (f : Task → Task) (hf : ∀ t, (f t).kernelRsp = t.kernelRsp) :
    SameStacks s (s.updateTask p f) :=
  fun t => Sched.updateTask_field s p f (·.kernelRsp) (hf _) t

theorem enqueueTask_sameStacks (c : Fin n) (task : TaskPtr) (s : Sched n) :
    SameStacks s (enqueueTask c task s) :=
  fun t => enqueueTask_tasks c task s (·.kernelRsp) (fun _ _ => rfl) t

theorem requeueCurrent_sameStacks (c : Fin n) (rsp : BitVec 64) (s : Sched n) :
    SameStacks s (requeueCurrent c rsp s) := by
  obtain ⟨u, hu⟩ : ∃ u, u = (s.updateCpu c fun x => { x with needResched := false }).updateTask (s.current c)
    fun t => { t with rsp := rsp } := ⟨_, rfl⟩
  have hsaved : SameStacks s u := by
    rw [hu]
    exact (updateCpu_sameStacks s c _).trans (updateTask_sameStacks _ _ fun _ => rfl)
  rw [requeueCurrent]
  simp only [← hu]
  split
  · have hready : SameStacks s (u.updateTask (s.current c) fun t => { t with state := .ready }) :=
      hsaved.trans (updateTask_sameStacks _ _ fun _ => rfl)
    split
    · exact hready.trans (enqueueTask_sameStacks _ _ _)
    · exact hready
  · exact hsaved

theorem dequeueTask_sameStacks (c : Fin n) (s : Sched n) : SameStacks s (dequeueTask c s).2 :=
  fun t => by rw [dequeueTask_tasks]

theorem stealFrom_sameStacks (self : Fin n) (victims : List (Fin n)) (s : Sched n) :
    SameStacks s (stealFrom self victims s).2 := by
  induction victims generalizing s with
  | nil => exact fun _ => rfl
  | cons victim rest ih =>
    rw [stealFrom]
    split
    · exact ih s
    · dsimp only
      split
      · exact (dequeueTask_sameStacks victim s).trans
          (updateTask_sameStacks _ (fun t => { t with cpuId := _ }) fun _ => rfl)
      · exact (dequeueTask_sameStacks victim s).trans (ih _)

theorem selectNext_sameStacks {fuel : Nat} {out : TaskPtr × Sched n} (h : selectNext c fuel s = some out) :
    SameStacks s out.2 := by
  induction fuel generalizing s with
  | zero => cases h
  | succ fuel ih =>
    have hown := dequeueTask_sameStacks c s
    have hsteal := stealFrom_sameStacks c (List.finRange n) (dequeueTask c s).2
    rw [selectNext] at h
    dsimp only at h
    -- the task taken, from the own runqueue or another
    have htaken : SameStacks s (if (dequeueTask c s).1 = 0 then taskSteal c (dequeueTask c s).2
        else dequeueTask c s).2 := by
      split
      · exact hown.trans hsteal
      · exact hown
    generalize (if (dequeueTask c s).1 = 0 then taskSteal c (dequeueTask c s).2 else dequeueTask c s) = taken
      at h htaken
    split at h
    · cases h
      exact htaken
    · split at h
      · exact (htaken.trans fun _ => rfl : SameStacks s (taskReap taken.1 taken.2)).trans (ih h)
      · cases h
        exact htaken
      · exact htaken.trans ((enqueueTask_sameStacks _ _ _).trans (ih h))

theorem switchTo_sameStacks (c : Fin n) (next : TaskPtr) (s : Sched n) :
    SameStacks s (switchTo c next s) := by
  intro t
  rw [switchTo]
  rw [Sched.updateCpu_tasks, Sched.updateTask_field _ _ _ (·.kernelRsp) rfl, Sched.updateCpu_tasks]

/-- The TSS names the kernel stack of the task that is switched to. -/
theorem switchTo_rsp0 (c : Fin n) (next : TaskPtr) (s : Sched n) :
    ((switchTo c next s).cpus c).rsp0 =
      ((switchTo c next s).tasks ((switchTo c next s).current c)).kernelRsp := by
  rw [switchTo_sameStacks, switchTo, Sched.current]
  simp only [Sched.updateCpu_cpus, Sched.updateTask_cpus, if_true]
  rw [Sched.updateTask_field _ _ _ (·.kernelRsp) rfl]
  rfl

/-- **A switch** keeps the kernel stacks, and has the TSS name the one of the task that runs. -/
theorem taskSchedule_stacks {fuel : Nat} {frame rsp : BitVec 64} (hcur : s.current c ≠ 0)
    (h : taskSchedule fuel c frame s = some (rsp, s')) :
    SameStacks s s' ∧ (s'.cpus c).rsp0 = (s'.tasks (s'.current c)).kernelRsp := by
  rw [taskSchedule, if_neg hcur] at h
  obtain ⟨⟨next, u⟩, hselect, hswitch⟩ := Option.map_eq_some_iff.mp h
  cases hswitch
  exact ⟨(requeueCurrent_sameStacks c frame s).trans ((selectNext_sameStacks hselect).trans
    (switchTo_sameStacks c next u)), switchTo_rsp0 c next u⟩

end Scheduler

/-! ## The tick -/

section Tick

variable {s : Sched 1} {t₀ : TaskPtr} {ts : List TaskPtr}

/-- What a tick, or the request for a switch, leaves. -/
structure SameTurn (s s' : Sched 1) : Prop where
  tasks : ∀ t, (s'.tasks t).rsp = (s.tasks t).rsp ∧ (s'.tasks t).kernelRsp = (s.tasks t).kernelRsp ∧
    (s'.tasks t).state = (s.tasks t).state ∧ (s'.tasks t).id = (s.tasks t).id ∧
    (s'.tasks t).next = (s.tasks t).next
  cpu : (s'.cpus 0).currentTask = (s.cpus 0).currentTask ∧ (s'.cpus 0).rsp0 = (s.cpus 0).rsp0 ∧
    (s'.cpus 0).runqueue = (s.cpus 0).runqueue

theorem SameTurn.trans {s u s' : Sched 1} (h : SameTurn s u) (k : SameTurn u s') : SameTurn s s' := by
  refine ⟨fun t => ?_, ?_⟩
  · obtain ⟨h₁, h₂, h₃, h₄, h₅⟩ := h.tasks t
    obtain ⟨k₁, k₂, k₃, k₄, k₅⟩ := k.tasks t
    exact ⟨k₁.trans h₁, k₂.trans h₂, k₃.trans h₃, k₄.trans h₄, k₅.trans h₅⟩
  · obtain ⟨h₁, h₂, h₃⟩ := h.cpu
    obtain ⟨k₁, k₂, k₃⟩ := k.cpu
    exact ⟨k₁.trans h₁, k₂.trans h₂, k₃.trans h₃⟩

theorem SameTurn.refl (s : Sched 1) : SameTurn s s :=
  ⟨fun _ => ⟨rfl, rfl, rfl, rfl, rfl⟩, rfl, rfl, rfl⟩

theorem updateTask_sameTurn (s : Sched 1) (p : TaskPtr) (f : Task → Task)
    (hf : ∀ t, (f t).rsp = t.rsp ∧ (f t).kernelRsp = t.kernelRsp ∧ (f t).state = t.state ∧ (f t).id = t.id ∧
      (f t).next = t.next) : SameTurn s (s.updateTask p f) := by
  refine ⟨fun t => ?_, rfl, rfl, rfl⟩
  rw [Sched.updateTask_tasks]
  split
  · rename_i ht
    exact ht ▸ hf _
  · exact ⟨rfl, rfl, rfl, rfl, rfl⟩

theorem updateCpu_sameTurn (s : Sched 1) (g : Cpu → Cpu) (hg : ∀ x, (g x).currentTask = x.currentTask ∧
    (g x).rsp0 = x.rsp0 ∧ (g x).runqueue = x.runqueue) : SameTurn s (s.updateCpu 0 g) := by
  refine ⟨fun t => ⟨rfl, rfl, rfl, rfl, rfl⟩, ?_⟩
  rw [Sched.updateCpu_cpus, if_pos rfl]
  exact hg _

theorem taskRequestReschedule_sameTurn (s : Sched 1) : SameTurn s (taskRequestReschedule 0 s) :=
  updateCpu_sameTurn s _ fun _ => ⟨rfl, rfl, rfl⟩

theorem taskTimerTick_sameTurn (s : Sched 1) : SameTurn s (taskTimerTick 0 s) := by
  have hask := taskRequestReschedule_sameTurn
  unfold taskTimerTick
  dsimp only
  refine (updateCpu_sameTurn s (fun c => { c with totalTicks := c.totalTicks + 1 })
    fun _ => ⟨rfl, rfl, rfl⟩).trans ?_
  split
  · exact hask _
  refine (updateTask_sameTurn _ (s.current 0) (fun t => { t with totalTicks := t.totalTicks + 1 })
    fun _ => ⟨rfl, rfl, rfl, rfl, rfl⟩).trans ?_
  generalize Sched.updateTask _ (s.current 0) _ = u
  have hidle : SameTurn u (if (u.tasks (s.current 0)).id = 0 then
      u.updateCpu 0 fun c => { c with idleTicks := c.idleTicks + 1 } else u) := by
    split
    · exact updateCpu_sameTurn u _ fun _ => ⟨rfl, rfl, rfl⟩
    · exact SameTurn.refl u
  refine hidle.trans ?_
  generalize (if (u.tasks (s.current 0)).id = 0 then
      u.updateCpu 0 fun c => { c with idleTicks := c.idleTicks + 1 } else u) = v
  split
  · exact hask v
  split
  · split
    · exact hask v
    · exact SameTurn.refl v
  · have hslice := updateTask_sameTurn v (s.current 0)
      (fun t => { t with timeslice := if t.timeslice = 0 then 0 else t.timeslice - 1 })
      fun _ => ⟨rfl, rfl, rfl, rfl, rfl⟩
    split
    · exact hslice.trans (hask _)
    · exact hslice

theorem InTurn.congr {s' : Sched 1} (h : InTurn s t₀ ts) (hsame : SameTurn s s') : InTurn s' t₀ ts := by
  have hrq : s'.rq 0 = s.rq 0 := hsame.cpu.2.2
  refine ⟨hsame.cpu.1.trans h.current, h.allocated, ?_, ?_, ?_, fun t ht => ?_, fun t ht => ?_⟩
  · rw [(hsame.tasks t₀).2.2.1, h.running]
  · refine h.queues.congr (fun c p _ => (hsame.tasks p).2.2.2.2) fun c => ?_
    obtain rfl := Subsingleton.elim 0 c
    exact hrq
  · rw [hrq]
    exact h.tail
  · rw [(hsame.tasks t).2.2.1, h.ready t ht]
  · rw [(hsame.tasks t).2.2.2.1]
    exact h.id_ne_zero t ht

end Tick

/-! ## The handler -/

/-- **`isr_handler` on a tick** returns the stack pointer of a task whose turn it is, and leaves the stack
pointer of the task that ran, where that waits now. -/
theorem timerHandler_turn {s : Sched 1} {t₀ : TaskPtr} {ts : List TaskPtr} (h : InTurn s t₀ ts)
    (hrsp0 : (s.cpus 0).rsp0 = (s.tasks t₀).kernelRsp) (frame : BitVec 64) (fuel : Nat) :
    ∃ rsp s' t₀' ts', timerHandler (fuel + 1) frame s = some (rsp, s') ∧ InTurn s' t₀' ts' ∧
      (ts' ++ [t₀']).Perm (ts ++ [t₀]) ∧ SameStacks s s' ∧
      (s'.cpus 0).rsp0 = (s'.tasks t₀').kernelRsp ∧
      rsp = Function.update (fun t => (s.tasks t).rsp) t₀ frame t₀' ∧
      ∀ t ∈ ts', (s'.tasks t).rsp = Function.update (fun t => (s.tasks t).rsp) t₀ frame t := by
  have hsame := taskTimerTick_sameTurn s
  have hturn : InTurn (taskTimerTick 0 s) t₀ ts := h.congr hsame
  have hstacks : SameStacks s (taskTimerTick 0 s) := fun t => (hsame.tasks t).2.1
  have hrsps : (fun t => ((taskTimerTick 0 s).tasks t).rsp) = fun t => (s.tasks t).rsp :=
    funext fun t => (hsame.tasks t).1
  rw [timerHandler]
  split
  · -- the first task that waits comes to run
    obtain ⟨next, rest, hnext⟩ : ∃ next rest, ts ++ [t₀] = next :: rest := by
      cases ts with
      | nil => exact ⟨t₀, [], rfl⟩
      | cons t ts => exact ⟨t, ts ++ [t₀], rfl⟩
    obtain ⟨s', hcall, hturn', hrsp'⟩ := hturn.schedule hnext frame fuel
    rw [hrsps] at hrsp'
    have hcur : (taskTimerTick 0 s).current 0 ≠ 0 := hturn.current ▸ h.allocated
    obtain ⟨hstacks', htss⟩ := taskSchedule_stacks hcur hcall
    refine ⟨_, s', next, rest, hcall, hturn', ?_, hstacks.trans hstacks', hturn'.current ▸ htss, hrsp' next,
      fun t _ => hrsp' t⟩
    rw [hnext]
    exact List.perm_append_singleton next rest
  · refine ⟨frame, _, t₀, ts, rfl, hturn, List.Perm.refl _, hstacks, ?_, ?_, fun t ht => ?_⟩
    · rw [hsame.cpu.2.1, hrsp0, hstacks]
    · rw [Function.update_self]
    · have hne : t ≠ t₀ := by
        rintro rfl
        exact h.not_mem ht
      rw [Function.update_of_ne hne, (hsame.tasks t).1]

/-! ## Frames -/

section Frames

variable {t : Task} {frame top : BitVec 64} {c : Registers} {mem mem' pushed : Words (BitVec 64)}

theorem isrReturn_congr (h : ∀ i < 22, word mem' frame i = word mem frame i) :
    isrReturn frame mem' = isrReturn frame mem := by
  simp only [isrReturn]
  repeat rw [h _ (by decide)]

/-- The words of a frame. -/
theorem Task.onStack_frame (h : frame - t.stackBase ≤ BitVec.ofNat 64 (taskStackSize - 176)) {a : BitVec 64}
    (ha : a - frame < 176#64) : t.OnStack a := by
  rw [Task.OnStack]
  simp only [taskStackSize] at h ⊢
  generalize t.stackBase = base at h ⊢
  bv_omega

/-- A frame depends on the kernel stack of its task only. -/
theorem isrReturn_onStack (h : frame - t.stackBase ≤ BitVec.ofNat 64 (taskStackSize - 176))
    (hkept : ∀ a, t.OnStack a → mem' a = mem a) : isrReturn frame mem' = isrReturn frame mem :=
  isrReturn_congr fun i hi => hkept _ (Task.onStack_frame h (by bv_omega))

/-- An interrupt pushes its frame and leaves the rest of the memory. -/
theorem interruptEntry_other (h : interruptEntry top c 32 0 mem = (frame, pushed)) {a : BitVec 64}
    (ha : ¬ a - frame < 176#64) : pushed a = mem a := by
  have hsp : (pushAll (align16 top) (interruptWords c 32 0) mem).1 = frame := congrArg Prod.fst h
  have hmem : (pushAll (align16 top) (interruptWords c 32 0) mem).2 = pushed := congrArg Prod.snd h
  rw [← hmem]
  refine pushAll_other (by rw [interruptWords_length]; decide) ?_
  rw [hsp, interruptWords_length]
  exact ha

/-- Where the frame of the task that runs comes to lie. -/
theorem TimeShared.Sound.entryFrame {s : TimeShared} {t₀ : TaskPtr} {ts : List TaskPtr} (h : s.Sound t₀ ts)
    (hentry : interruptEntry s.entryStack s.regs 32 0 s.mem = (frame, pushed)) :
    frame - (s.sched.tasks t₀).stackBase ≤ BitVec.ofNat 64 (taskStackSize - 176) := by
  have hroom := h.rooms t₀ (List.mem_append_right _ (List.mem_singleton_self _))
  rw [TimeShared.context, if_pos h.turn.current.symm] at hroom
  rw [interruptEntry_sp hentry]
  have hlow : (s.entryStack &&& 0xF#64).toNat < 16 := by
    rw [low_toNat]
    exact Nat.mod_lt _ (by decide)
  generalize hvalue : s.entryStack &&& 0xF#64 = low at hlow
  rw [TimeShared.entryStack]
  simp only [Registers.Room, taskStackSize] at hroom ⊢
  split
  · rename_i hkernel
    obtain ⟨hdeep, hhigh⟩ := hroom hkernel
    generalize (s.sched.tasks t₀).stackBase = base at hdeep hhigh ⊢
    bv_omega
  · rw [h.rsp0, Task.stackBase, taskStackSize]
    generalize (s.sched.tasks t₀).kernelRsp = top
    bv_omega

end Frames

/-! ## Runs -/

section Runs

variable {s s' : TimeShared} {t₀ t : TaskPtr} {ts : List TaskPtr} {e : TimeEvent} {fuel : Nat}

theorem Task.stackBase_congr {t t' : Task} (h : t'.kernelRsp = t.kernelRsp) : t'.stackBase = t.stackBase := by
  rw [Task.stackBase, h, Task.stackBase]

theorem Task.onStack_congr {t t' : Task} (h : t'.kernelRsp = t.kernelRsp) (a : BitVec 64) :
    t'.OnStack a ↔ t.OnStack a := by
  rw [Task.OnStack, Task.stackBase_congr h, Task.OnStack]

theorem Registers.Room.congr {c : Registers} {t t' : Task} (h : c.Room t)
    (hsame : t'.kernelRsp = t.kernelRsp) : c.Room t' := by
  rw [Registers.Room, Task.stackBase_congr hsame]
  exact h

namespace TimeShared.Sound

theorem current (h : s.Sound t₀ ts) : s.sched.current 0 = t₀ := h.turn.current

theorem ne_current (h : s.Sound t₀ ts) (ht : t ∈ ts) : t ≠ s.sched.current 0 := by
  rintro rfl
  exact h.turn.not_mem (h.current ▸ ht)

/-- The tasks that wait keep their registers where their stacks are spared. -/
theorem waiting (h : s.Sound t₀ ts) (ht : t ∈ ts) {mem : Words (BitVec 64)}
    (hspared : ∀ a, (s.sched.tasks t).OnStack a → mem a = s.mem a) :
    isrReturn (s.sched.tasks t).rsp mem = s.context t := by
  rw [TimeShared.context, if_neg (h.ne_current ht)]
  exact isrReturn_onStack (h.frames t ht) hspared

/-- **Across a tick** the registers of every task stay where its stack pointer is noted. -/
theorem resumes (h : s.Sound t₀ ts) {frame : BitVec 64} {pushed mem : Words (BitVec 64)}
    (hentry : interruptEntry s.entryStack s.regs 32 0 s.mem = (frame, pushed))
    (hkept : Kept frame (align16 s.entryStack) pushed mem) (hspares : s.Spares pushed mem)
    (ht : t ∈ ts ++ [t₀]) :
    isrReturn (Function.update (fun t => (s.sched.tasks t).rsp) t₀ frame t) mem = s.context t := by
  by_cases hrun : t = t₀
  · subst hrun
    rw [Function.update_self, isrReturn_interruptEntry hentry hkept, TimeShared.context,
      if_pos h.current.symm]
  · have hwait : t ∈ ts := by
      rcases List.mem_append.mp ht with hmem | hmem
      · exact hmem
      · exact absurd (List.mem_singleton.mp hmem) hrun
    have hrunning : t₀ ∈ ts ++ [t₀] := List.mem_append_right _ (List.mem_singleton_self _)
    rw [Function.update_of_ne hrun]
    refine h.waiting hwait fun a ha => ?_
    rw [hspares t (h.ne_current hwait) (h.turn.ready t hwait) a ha]
    -- the frame of the task that runs is on another stack
    exact interruptEntry_other hentry fun hframe =>
      h.apart t ht t₀ hrunning hrun a ha (Task.onStack_frame (h.entryFrame hentry) hframe)

/-- The request for a switch changes no registers. -/
theorem asks (h : s.Sound t₀ ts) {sched : Sched 1} (hsame : SameTurn s.sched sched) :
    TimeShared.Sound { s with sched := sched } t₀ ts ∧
      ∀ t, TimeShared.context { s with sched := sched } t = s.context t := by
  have hcontext : ∀ t, TimeShared.context { s with sched := sched } t = s.context t := by
    intro t
    have hcur : sched.current 0 = s.sched.current 0 := hsame.cpu.1
    simp only [TimeShared.context, hcur, (hsame.tasks t).1]
  have hstack := fun t => (hsame.tasks t).2.1
  refine ⟨⟨h.turn.congr hsame, ?_, fun t ht => ?_, fun t ht => ?_, fun t ht t' ht' hne a ha hb => ?_⟩,
    hcontext⟩
  · rw [hsame.cpu.2.1, hstack]
    exact h.rsp0
  · rw [(hsame.tasks t).1, Task.stackBase_congr (hstack t)]
    exact h.frames t ht
  · rw [hcontext]
    exact (h.rooms t ht).congr (hstack t)
  · exact h.apart t ht t' ht' hne a ((Task.onStack_congr (hstack t) a).mp ha)
      ((Task.onStack_congr (hstack t') a).mp hb)

/-- **A tick changes the registers of no task**, whichever comes to run. -/
theorem tick (h : s.Sound t₀ ts) {frame rsp : BitVec 64} {pushed mem : Words (BitVec 64)} {sched : Sched 1}
    (hentry : interruptEntry s.entryStack s.regs 32 0 s.mem = (frame, pushed))
    (hkept : Kept frame (align16 s.entryStack) pushed mem) (hspares : s.Spares pushed mem)
    (hcall : timerHandler (fuel + 1) frame s.sched = some (rsp, sched)) :
    ∃ t₀' ts', TimeShared.Sound ⟨sched, isrReturn rsp mem, mem⟩ t₀' ts' ∧ (ts' ++ [t₀']).Perm (ts ++ [t₀]) ∧
      ∀ t ∈ ts ++ [t₀], TimeShared.context ⟨sched, isrReturn rsp mem, mem⟩ t = s.context t := by
  obtain ⟨rsp', sched', t₀', ts', hcall', hturn, hperm, hstack, hrsp0, hnext, hrsps⟩ :=
    timerHandler_turn h.turn h.rsp0 frame fuel
  obtain ⟨rfl, rfl⟩ := Prod.mk.inj (Option.some.inj (hcall'.symm.trans hcall))
  have hcontext : ∀ t ∈ ts ++ [t₀],
      TimeShared.context ⟨sched', isrReturn rsp' mem, mem⟩ t = s.context t := by
    intro t ht
    rw [TimeShared.context, ← h.resumes hentry hkept hspares ht]
    split
    · rename_i hcur
      rw [hcur, show sched'.current 0 = t₀' from hturn.current, hnext]
    · rename_i hcur
      rcases List.mem_append.mp (hperm.mem_iff.mpr ht) with hmem | hmem
      · rw [hrsps t hmem]
      · exact absurd ((List.mem_singleton.mp hmem).trans hturn.current.symm) hcur
  refine ⟨t₀', ts', ⟨hturn, hrsp0, fun t ht => ?_, fun t ht => ?_, fun t ht t' ht' hne a ha hb => ?_⟩, hperm,
    hcontext⟩
  · dsimp only
    rw [hrsps t ht, Task.stackBase_congr (hstack t)]
    by_cases hrun : t = t₀
    · rw [hrun, Function.update_self]
      exact h.entryFrame hentry
    · rw [Function.update_of_ne hrun]
      rcases List.mem_append.mp (hperm.mem_iff.mp (List.mem_append_left _ ht)) with hmem | hmem
      · exact h.frames t hmem
      · exact absurd (List.mem_singleton.mp hmem) hrun
  · rw [hcontext t (hperm.mem_iff.mp ht)]
    exact (h.rooms t (hperm.mem_iff.mp ht)).congr (hstack t)
  · exact h.apart t (hperm.mem_iff.mp ht) t' (hperm.mem_iff.mp ht') hne a
      ((Task.onStack_congr (hstack t) a).mp ha) ((Task.onStack_congr (hstack t') a).mp hb)

/-- **One step**: each task has the registers its own instructions gave it. -/
theorem step (h : s.Sound t₀ ts) (hstep : TimeStep (fuel + 1) s e s') :
    ∃ t₀' ts', s'.Sound t₀' ts' ∧ (ts' ++ [t₀']).Perm (ts ++ [t₀]) ∧
      ∀ t ∈ ts ++ [t₀], s'.context t = e.own t (s.context t) := by
  cases hstep with
  | @runs regs mem hroom hspares =>
    have hcontext : ∀ t ∈ ts ++ [t₀], TimeShared.context { s with regs := regs, mem := mem } t =
        if t = s.sched.current 0 then regs else s.context t := by
      intro t ht
      rw [TimeShared.context]
      split
      · rfl
      · rename_i hcur
        rcases List.mem_append.mp ht with hmem | hmem
        · exact h.waiting hmem (hspares t hcur (h.turn.ready t hmem))
        · exact absurd ((List.mem_singleton.mp hmem).trans h.current.symm) hcur
    refine ⟨t₀, ts, ⟨h.turn, h.rsp0, h.frames, fun t ht => ?_, h.apart⟩, List.Perm.refl _, hcontext⟩
    rw [hcontext t ht]
    split
    · rename_i hcur
      exact hcur ▸ hroom
    · exact h.rooms t ht
  | asks =>
    obtain ⟨hsound, hcontext⟩ := h.asks (taskRequestReschedule_sameTurn s.sched)
    exact ⟨t₀, ts, hsound, List.Perm.refl _, fun t _ => hcontext t⟩
  | tick hentry hkept hspares hcall => exact h.tick hentry hkept hspares hcall

end TimeShared.Sound

end Runs

end ZohoOs
