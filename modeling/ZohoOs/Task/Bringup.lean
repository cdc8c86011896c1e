import ZohoOs.Task.Exclusive

/-!
# Bringing up a CPU

`cpu_init` puts the `cpu_t` of an application processor into `cpus`, where `task_create` on any running
CPU looks for the least loaded one. Its runqueue is set up later, in `task_init_per_cpu`. The steps are
the stores of the starting CPUs and the sections of the calls of `task_create`, in any order.

## Main definitions

* `BootPhase`, `cpuInit`, `taskInitStep`: a CPU that starts
* `CreatePhase`, `lookAt`: a call of `task_create`, with `pick_least_loaded_cpu` CPU by CPU
* `Bringup`, `bringupStep`: all of them
* `Sched.Formed`: a runqueue that links and counts its tasks
* `Bringup.Kept`: the runqueues that are set up are lists, and the others hold no task

## Main results

* `Bringup.Kept.step`: what each step keeps
* `bringupRun_kept`: where each task goes to a CPU whose runqueue is set up, none is lost
* `bringupRun_loses`: a task that went to a CPU between the two functions
-/

namespace ZohoOs

open TransitionSystem LinkedQueue

variable {n : Nat} {κ : Type}

/-! ## A CPU that starts -/

/-- How far a CPU is in `cpu_init` and `task_init_per_cpu`. -/
inductive BootPhase
  | off
  /-- Its `cpu_t` is filled in. -/
  | allocated
  /-- It is in `cpus`. -/
  | published
  | tailStored
  | headStored
  | countStored
  | idleStored
  | running
  deriving DecidableEq

/-- The runqueue is set up. -/
def BootPhase.RqReady : BootPhase → Prop
  | .countStored | .idleStored | .running => True
  | _ => False

instance BootPhase.decidableRqReady : (phase : BootPhase) → Decidable phase.RqReady
  | .countStored | .idleStored | .running => isTrue trivial
  | .off | .allocated | .published | .tailStored | .headStored => isFalse id

/-- `cpu_init`, up to the lock. The other fields are what the memory of the `cpu_t` held. -/
def cpuInit (cpu : Fin n) (apicId : BitVec 8) (mem : Cpu) (s : Sched n) : Sched n :=
  s.updateCpu cpu fun _ =>
    { mem with id := apicId, currentTask := 0, kernelStack := 0, needResched := false }

/-- The `task_t` of an idle task. -/
def idleTask (cpu : Fin n) (cr3 : Nat) (s : Sched n) (t : Task) : Task :=
  { t with
    id := 0, state := .running, cpuId := (s.cpus cpu).id.toNat, next := 0, rsp := 0, kernelRsp := 0
    stackBottom := 0, userStackBottom := 0, timeslice := 0, pml4 := cr3 }

/-- The next store of `task_init_per_cpu`, given the block of the idle task. The lock of a runqueue has
no state here, as `enqueueTask` holds it throughout. -/
def taskInitStep (cpu : Fin n) (idle : TaskPtr) (s : Sched n) : BootPhase → Sched n × BootPhase
  | .published => (s.updateCpu cpu fun c =>
      { c with runqueue := { c.runqueue with tail := 0 } }, .tailStored)
  | .tailStored => (s.updateCpu cpu fun c =>
      { c with runqueue := { c.runqueue with head := 0 } }, .headStored)
  | .headStored => (s.updateCpu cpu fun c =>
      { c with runqueue := { c.runqueue with count := 0 } }, .countStored)
  | .countStored =>
    let s := { s with live := if idle = 0 then s.live else insert idle s.live }
    let s := s.updateTask idle (idleTask cpu (s.cpus cpu).cr3 s)
    (s.updateCpu cpu fun c => { c with idleTask := idle }, .idleStored)
  | .idleStored => (s.updateCpu cpu fun c =>
      { c with currentTask := c.idleTask, totalTicks := 0, idleTicks := 0 }, .running)
  | phase => (s, phase)

/-! ## A call of `task_create` -/

/-- How far a call of `task_create` is. -/
inductive CreatePhase (n : Nat)
  /-- Not begun, or returned. -/
  | out
  | built (task : TaskPtr)
  /-- In the loop of `pick_least_loaded_cpu`, with these CPUs left. -/
  | picking (task : TaskPtr) (left : List (Fin n)) (least : Fin n) (minLoad : BitVec 32)
  | picked (task : TaskPtr) (target : Fin n)
  deriving DecidableEq

/-- The task of a call. -/
def CreatePhase.task : CreatePhase n → TaskPtr
  | .out => 0
  | .built task | .picking task _ _ _ | .picked task _ => task

/-- One round of the loop of `pick_least_loaded_cpu`. -/
def lookAt (s : Sched n) (cpu least : Fin n) (minLoad : BitVec 32) : Fin n × BitVec 32 :=
  if (cpuLoad s cpu).slt minLoad then (cpu, cpuLoad s cpu) else (least, minLoad)

/-! ## The steps of all of them -/

/-- The machine: how far each CPU is, and each call. -/
structure Bringup (n : Nat) (κ : Type) where
  sched : Sched n
  boot : Fin n → BootPhase
  /-- `cpus`, of length `cpu_count`. -/
  cpus : List (Fin n)
  /-- The call that holds `cpu_lock`. -/
  cpuLock : Option κ
  calls : κ → CreatePhase n

inductive BringupOp (n : Nat) (κ : Type)
  | cpuInit (cpu : Fin n) (apicId : BitVec 8) (mem : Cpu)
  /-- The locked section of `cpu_init`. -/
  | publish (cpu : Fin n)
  | taskInit (cpu : Fin n) (idle : TaskPtr)
  /-- `task_create` up to the choice of the CPU. -/
  | create (k : κ) (cpu : Fin n) (task : TaskPtr) (stack : Nat)
  | lockCpus (k : κ)
  | look (k : κ)
  | unlockCpus (k : κ)
  | enqueue (k : κ) (task : TaskPtr) (target : Fin n)

section Steps

variable [DecidableEq κ]

def Bringup.setCall (b : Bringup n κ) (k : κ) (phase : CreatePhase n) : Bringup n κ :=
  { b with calls := Function.update b.calls k phase }

def BringupOp.run : BringupOp n κ → Bringup n κ → Bringup n κ
  | .cpuInit cpu apicId mem, b =>
    { b with
      sched := ZohoOs.cpuInit cpu apicId mem b.sched
      boot := Function.update b.boot cpu .allocated }
  | .publish cpu, b =>
    { b with cpus := b.cpus ++ [cpu], boot := Function.update b.boot cpu .published }
  | .taskInit cpu idle, b =>
    { b with
      sched := (taskInitStep cpu idle b.sched (b.boot cpu)).1
      boot := Function.update b.boot cpu (taskInitStep cpu idle b.sched (b.boot cpu)).2 }
  | .create k cpu task stack, b =>
    ({ b with sched := buildTask task (b.sched.cpus cpu).cr3 stack 0 b.sched }).setCall k
      (.built task)
  | .lockCpus k, b =>
    match b.calls k, b.cpus with
    | .built task, least :: left =>
      ({ b with cpuLock := some k }).setCall k (.picking task left least (cpuLoad b.sched least))
    | _, _ => b
  | .look k, b =>
    match b.calls k with
    | .picking task (cpu :: left) least minLoad =>
      b.setCall k (.picking task left (lookAt b.sched cpu least minLoad).1
        (lookAt b.sched cpu least minLoad).2)
    | _ => b
  | .unlockCpus k, b =>
    match b.calls k with
    | .picking task [] least _ => ({ b with cpuLock := none }).setCall k (.picked task least)
    | _ => b
  | .enqueue k task target, b =>
    ({ b with sched := assignTask target task b.sched }).setCall k .out

/-- A CPU does one thing after the other, running CPUs call `task_create`, and `cpu_lock` is free where
it is taken. APIC id 0 is the boot CPU's, which `cpu_init` leaves alone. -/
def BringupOp.Valid (b : Bringup n κ) : BringupOp n κ → Prop
  | .cpuInit cpu apicId _ => b.boot cpu = .off ∧ apicId ≠ 0
  | .publish cpu => b.boot cpu = .allocated ∧ b.cpuLock = none
  | .taskInit _ idle => b.sched.Fresh idle
  | .create k cpu task _ => b.calls k = .out ∧ b.boot cpu = .running ∧ b.sched.Fresh task
  | .lockCpus _ => b.cpuLock = none
  | .look _ | .unlockCpus _ => True
  | .enqueue k task target => b.calls k = .picked task target

instance BringupOp.decidableValid (b : Bringup n κ) (op : BringupOp n κ) : Decidable (op.Valid b) := by
  cases op <;> unfold BringupOp.Valid <;> infer_instance

abbrev bringupStep : Bringup n κ → BringupOp n κ → Bringup n κ → Prop :=
  Restrict BringupOp.Valid (Apply BringupOp.run)

end Steps

/-- A task is enqueued on a CPU whose runqueue is set up, and `kmalloc` returned it. -/
def BringupOp.Settled (b : Bringup n κ) : BringupOp n κ → Prop
  | .enqueue _ task target => task ≠ 0 ∧ (b.boot target).RqReady
  | _ => True

instance BringupOp.decidableSettled (b : Bringup n κ) (op : BringupOp n κ) : Decidable (op.Settled b) := by
  cases op <;> unfold BringupOp.Settled <;> infer_instance

/-! ## Runqueues that are set up -/

/-- The runqueue of `c` is a linked list with its tail and its count. -/
def Sched.Formed (s : Sched n) (c : Fin n) : Prop :=
  ∃ l, Linked s.next 0 (s.rq c).head l ∧ (s.rq c).tail = l.getLast?.getD 0 ∧
    (s.rq c).count = BitVec.ofNat 32 l.length

/-- A task is in the runqueue of `c`. -/
def Sched.InRunqueue (s : Sched n) (c : Fin n) (task : TaskPtr) : Prop :=
  ∃ l, Linked s.next 0 (s.rq c).head l ∧ task ∈ l

namespace Bringup

variable {b b' : Bringup n κ} {q : Fin n → List TaskPtr}

/-- The scheduler as it is once every CPU has set up its runqueue: those that are not yet are empty. -/
def settled (b : Bringup n κ) : Sched n :=
  { b.sched with
    cpus := fun c =>
      if (b.boot c).RqReady then b.sched.cpus c
      else { b.sched.cpus c with runqueue := ⟨0, 0, 0⟩ } }

theorem settled_rq (b : Bringup n κ) (c : Fin n) :
    b.settled.rq c = if (b.boot c).RqReady then b.sched.rq c else ⟨0, 0, 0⟩ := by
  unfold settled Sched.rq
  dsimp only
  split <;> rfl

/-- **What bringing up CPUs keeps**: the runqueues that are set up are the lists `q`, the others are left
alone until then, and the task of each call is in none of them. -/
structure Kept (b : Bringup n κ) (q : Fin n → List TaskPtr) : Prop where
  queues : Queues b.settled q
  tail : ∀ c, (b.settled.rq c).tail = 0 → q c = []
  count : ∀ c, (b.settled.rq c).count = BitVec.ofNat 32 (q c).length
  tailStored : ∀ c, b.boot c = .tailStored ∨ b.boot c = .headStored → (b.sched.rq c).tail = 0
  headStored : ∀ c, b.boot c = .headStored → (b.sched.rq c).head = 0
  queued_live : ∀ c, ∀ p ∈ q c, p ∈ b.sched.live
  null : 0 ∉ b.sched.live
  call_live : ∀ k, (b.calls k).task ≠ 0 → (b.calls k).task ∈ b.sched.live
  call_new : ∀ k c, (b.calls k).task ∉ q c
  call_inj : ∀ k k', (b.calls k).task = (b.calls k').task → (b.calls k).task ≠ 0 → k = k'

namespace Kept

/-- A runqueue that is not set up holds no task. -/
theorem queue_nil (h : b.Kept q) {c : Fin n} (hc : ¬ (b.boot c).RqReady) : q c = [] := by
  apply h.tail
  rw [settled_rq, if_neg hc]

/-- A runqueue that is set up is its list. -/
theorem isQueue (h : b.Kept q) {c : Fin n} (hc : (b.boot c).RqReady) :
    IsQueue b.sched.next 0 (b.sched.rq c).head (b.sched.rq c).tail (q c) := by
  have hqueue := h.queues.isQueue c
  rw [settled_rq, if_pos hc] at hqueue
  exact hqueue

theorem formed (h : b.Kept q) {c : Fin n} (hc : (b.boot c).RqReady) : b.sched.Formed c := by
  have hqueue := h.isQueue hc
  have hcount := h.count c
  have htail := h.tail c
  rw [settled_rq, if_pos hc] at hcount htail
  refine ⟨q c, hqueue.linked, ?_, hcount⟩
  by_cases hnull : (b.sched.rq c).tail = 0
  · rw [hnull, htail hnull]
    rfl
  · rw [hqueue.last hnull]
    rfl

theorem inRunqueue (h : b.Kept q) {c : Fin n} {p : TaskPtr} (hp : p ∈ q c) :
    b.sched.InRunqueue c p := by
  by_cases hc : (b.boot c).RqReady
  · exact ⟨q c, (h.isQueue hc).linked, hp⟩
  · rw [h.queue_nil hc] at hp
    cases hp

/-- A block `kmalloc` can return is in no runqueue, and is of no call. -/
theorem fresh (h : b.Kept q) {p : TaskPtr} (hp : b.sched.Fresh p) :
    (∀ c, p ∉ q c) ∧ ∀ k, p ≠ 0 → (b.calls k).task ≠ p := by
  constructor
  · intro c hmem
    rcases hp with rfl | ⟨-, hp⟩
    · exact h.null (h.queued_live c 0 hmem)
    · exact hp (h.queued_live c p hmem)
  · rintro k hne rfl
    rcases hp with hp | ⟨-, hp⟩
    · exact hne hp
    · exact hp (h.call_live k hne)

/-- Where the runqueues that are set up and their links are as they were, so are the lists. -/
theorem congr (h : b.Kept q) (hrq : ∀ c, b'.settled.rq c = b.settled.rq c)
    (hnext : ∀ c, ∀ p ∈ q c, b'.sched.next p = b.sched.next p)
    (htail : ∀ c, b'.boot c = .tailStored ∨ b'.boot c = .headStored → (b'.sched.rq c).tail = 0)
    (hhead : ∀ c, b'.boot c = .headStored → (b'.sched.rq c).head = 0)
    (hlive : b.sched.live ⊆ b'.sched.live) (hnull : 0 ∉ b'.sched.live)
    (hcalls : ∀ k, (b'.calls k).task = (b.calls k).task) : b'.Kept q where
  queues := h.queues.congr hnext hrq
  tail c := by
    rw [hrq]
    exact h.tail c
  count c := by
    rw [hrq]
    exact h.count c
  tailStored := htail
  headStored := hhead
  queued_live c p hp := hlive (h.queued_live c p hp)
  null := hnull
  call_live k hk := by
    rw [hcalls] at hk ⊢
    exact hlive (h.call_live k hk)
  call_new k c := by
    rw [hcalls]
    exact h.call_new k c
  call_inj k k' := by
    rw [hcalls, hcalls]
    exact h.call_inj k k'

/-- A step of one CPU that starts: the others, and the calls, are as they were. -/
theorem starts (h : b.Kept q) {cpu : Fin n} (hboot : ∀ c, c ≠ cpu → b'.boot c = b.boot c)
    (hcpus : ∀ c, c ≠ cpu → b'.sched.rq c = b.sched.rq c)
    (hself : b'.settled.rq cpu = b.settled.rq cpu)
    (hnext : ∀ c, ∀ p ∈ q c, b'.sched.next p = b.sched.next p)
    (htail : b'.boot cpu = .tailStored ∨ b'.boot cpu = .headStored → (b'.sched.rq cpu).tail = 0)
    (hhead : b'.boot cpu = .headStored → (b'.sched.rq cpu).head = 0)
    (hlive : b.sched.live ⊆ b'.sched.live) (hnull : 0 ∉ b'.sched.live)
    (hcalls : b'.calls = b.calls) : b'.Kept q := by
  refine h.congr (fun c => ?_) hnext (fun c hc => ?_) (fun c hc => ?_) hlive hnull fun k => ?_
  · by_cases he : c = cpu
    · rw [he]
      exact hself
    · rw [settled_rq, settled_rq, hboot c he, hcpus c he]
  · by_cases he : c = cpu
    · rw [he] at hc ⊢
      exact htail hc
    · rw [hboot c he] at hc
      rw [hcpus c he]
      exact h.tailStored c hc
  · by_cases he : c = cpu
    · rw [he] at hc ⊢
      exact hhead hc
    · rw [hboot c he] at hc
      rw [hcpus c he]
      exact h.headStored c hc
  · rw [hcalls]

section Ops

variable [DecidableEq κ]

theorem cpuInit (h : b.Kept q) {cpu : Fin n} {apicId : BitVec 8} {mem : Cpu}
    (hoff : b.boot cpu = .off) : ((BringupOp.cpuInit cpu apicId mem).run b).Kept q := by
  have hboot : ((BringupOp.cpuInit cpu apicId mem).run b).boot cpu = .allocated :=
    Function.update_self _ _ _
  refine h.starts (fun c (he : c ≠ cpu) => Function.update_of_ne he _ _) (fun c he => ?_) ?_
    (fun _ _ _ => rfl) (fun hc => ?_) (fun hc => ?_) (Finset.Subset.refl _) h.null rfl
  · exact congrArg Cpu.runqueue (Function.update_of_ne he _ _)
  · rw [settled_rq, settled_rq, hboot, hoff]
    rfl
  · rw [hboot] at hc
    rcases hc with hc | hc <;> cases hc
  · rw [hboot] at hc
    cases hc

theorem publish (h : b.Kept q) {cpu : Fin n} (hoff : b.boot cpu = .allocated) :
    ((BringupOp.publish cpu).run b).Kept q := by
  have hboot : ((BringupOp.publish cpu).run b).boot cpu = .published := Function.update_self _ _ _
  refine h.starts (fun c (he : c ≠ cpu) => Function.update_of_ne he _ _) (fun _ _ => rfl) ?_
    (fun _ _ _ => rfl) (fun hc => ?_) (fun hc => ?_) (Finset.Subset.refl _) h.null rfl
  · rw [settled_rq, settled_rq, hboot, hoff]
    rfl
  · rw [hboot] at hc
    rcases hc with hc | hc <;> cases hc
  · rw [hboot] at hc
    cases hc

/-- **Setting up a runqueue** takes no task from one that is set up. -/
theorem taskInit (h : b.Kept q) {cpu : Fin n} {idle : TaskPtr} (hfresh : b.sched.Fresh idle) :
    ((BringupOp.taskInit cpu idle).run b).Kept q := by
  obtain ⟨b', hb'⟩ : ∃ b', b' = (BringupOp.taskInit cpu idle).run b := ⟨_, rfl⟩
  have hsched : b'.sched = (taskInitStep cpu idle b.sched (b.boot cpu)).1 := by rw [hb']; rfl
  have hself : b'.boot cpu = (taskInitStep cpu idle b.sched (b.boot cpu)).2 := by
    rw [hb']
    exact Function.update_self _ _ _
  have hboot : ∀ c, c ≠ cpu → b'.boot c = b.boot c := fun c he => by
    rw [hb']
    exact Function.update_of_ne he _ _
  have hcalls : b'.calls = b.calls := by rw [hb']; rfl
  have hq := h.tailStored cpu
  have hq' := h.headStored cpu
  rw [← hb']
  -- each store is to the `cpu_t` of this CPU
  have hstore : ∀ f : Cpu → Cpu, b'.sched = b.sched.updateCpu cpu f →
      b'.settled.rq cpu = b.settled.rq cpu →
      (b'.boot cpu = .tailStored ∨ b'.boot cpu = .headStored →
        (f (b.sched.cpus cpu)).runqueue.tail = 0) →
      (b'.boot cpu = .headStored → (f (b.sched.cpus cpu)).runqueue.head = 0) → b'.Kept q := by
    intro f hf hsettled htail hhead
    have hrq : b'.sched.rq cpu = (f (b.sched.cpus cpu)).runqueue := by
      rw [hf, Sched.rq, Sched.updateCpu_cpus, if_pos rfl]
    refine h.starts hboot (fun c he => ?_) hsettled (fun _ _ _ => ?_) ?_ ?_ ?_ ?_ hcalls
    · rw [hf, Sched.rq, Sched.updateCpu_cpus, if_neg he]
      rfl
    · rw [hf]
      rfl
    · rw [hrq]
      exact htail
    · rw [hrq]
      exact hhead
    · rw [hf]
      exact Finset.Subset.refl _
    · rw [hf]
      exact h.null
  -- no store at all
  have hstay : b'.sched = b.sched → b'.boot cpu = b.boot cpu → b'.Kept q := by
    intro he hsame
    refine h.starts hboot (fun _ _ => by rw [he]) ?_ (fun _ _ _ => by rw [he]) ?_ ?_ ?_ ?_ hcalls
    · rw [settled_rq, settled_rq, he, hsame]
    · rw [hsame, he]
      exact hq
    · rw [hsame, he]
      exact hq'
    · rw [he]
    · rw [he]
      exact h.null
  cases hphase : b.boot cpu with
  | off | allocated | running =>
    rw [hphase] at hsched hself
    apply hstay hsched
    rw [hself, hphase]
    rfl
  | published =>
    rw [hphase] at hsched hself
    dsimp only [taskInitStep] at hsched hself
    apply hstore _ hsched
    · rw [settled_rq, settled_rq, hself, hphase]
      rfl
    · exact fun _ => rfl
    · intro hc
      rw [hself] at hc
      cases hc
  | tailStored =>
    rw [hphase] at hsched hself
    dsimp only [taskInitStep] at hsched hself
    apply hstore _ hsched
    · rw [settled_rq, settled_rq, hself, hphase]
      rfl
    · exact fun _ => hq (Or.inl hphase)
    · exact fun _ => rfl
  | headStored =>
    -- from here on the runqueue is set up, and it is empty
    rw [hphase] at hsched hself
    dsimp only [taskInitStep] at hsched hself
    apply hstore _ hsched
    · rw [settled_rq, settled_rq, hself, hphase, if_pos (by trivial), if_neg (by exact id), hsched,
        Sched.rq, Sched.updateCpu_cpus, if_pos rfl]
      rw [show (b.sched.cpus cpu).runqueue.head = 0 from hq' hphase,
        show (b.sched.cpus cpu).runqueue.tail = 0 from hq (Or.inr hphase)]
    · intro hc
      rw [hself] at hc
      rcases hc with hc | hc <;> cases hc
    · intro hc
      rw [hself] at hc
      cases hc
  | countStored =>
    rw [hphase] at hsched hself
    refine h.starts hboot (fun c he => ?_) ?_ (fun c p hp => ?_) ?_ ?_ ?_ ?_ hcalls
    · rw [hsched, taskInitStep, Sched.rq, Sched.updateCpu_cpus, if_neg he]
      rfl
    · rw [settled_rq, settled_rq, hself, hphase, if_pos (by trivial), if_pos (by trivial), hsched,
        taskInitStep, Sched.rq, Sched.updateCpu_cpus, if_pos rfl]
      rfl
    · -- the block of the idle task is in no runqueue
      have hne : p ≠ idle := fun he => (h.fresh hfresh).1 c (he ▸ hp)
      rw [hsched, taskInitStep]
      show (Function.update b.sched.tasks idle _ p).next = (b.sched.tasks p).next
      rw [Function.update_of_ne hne]
    · intro hc
      rw [hself] at hc
      rcases hc with hc | hc <;> cases hc
    · intro hc
      rw [hself] at hc
      cases hc
    · rw [hsched]
      show b.sched.live ⊆ if idle = 0 then b.sched.live else insert idle b.sched.live
      split
      · exact Finset.Subset.refl _
      · exact Finset.subset_insert _ _
    · rw [hsched]
      show 0 ∉ if idle = 0 then b.sched.live else insert idle b.sched.live
      split
      · exact h.null
      · rename_i hne
        rw [Finset.mem_insert]
        exact fun hc => hc.elim (fun he => hne he.symm) h.null
  | idleStored =>
    rw [hphase] at hsched hself
    dsimp only [taskInitStep] at hsched hself
    apply hstore _ hsched
    · rw [settled_rq, settled_rq, hself, hphase, if_pos (by trivial), if_pos (by trivial), hsched,
        Sched.rq, Sched.updateCpu_cpus, if_pos rfl]
      rfl
    · intro hc
      rw [hself] at hc
      rcases hc with hc | hc <;> cases hc
    · intro hc
      rw [hself] at hc
      cases hc

/-- A new task is of its call only. -/
theorem create (h : b.Kept q) {k : κ} {cpu : Fin n} {task : TaskPtr} {stack : Nat}
    (hfresh : b.sched.Fresh task) :
    ((BringupOp.create k cpu task stack).run b).Kept q := by
  -- the new task is in no queue, and no other call holds it
  obtain ⟨hqueued, hcall⟩ := h.fresh hfresh
  have hself : (((BringupOp.create k cpu task stack).run b).calls k).task = task := by
    show (Function.update b.calls k (CreatePhase.built task) k).task = task
    rw [Function.update_self]
    rfl
  have hother : ∀ k', k' ≠ k → ((BringupOp.create k cpu task stack).run b).calls k' = b.calls k' :=
    fun k' he => Function.update_of_ne he _ _
  -- a task is allocated and none is freed
  have hlive : b.sched.live ⊆ ((BringupOp.create k cpu task stack).run b).sched.live := by
    show b.sched.live ⊆ if task = 0 then b.sched.live else insert task b.sched.live
    split
    · exact Finset.Subset.refl _
    · exact Finset.subset_insert _ _
  constructor
  · -- `buildTask` writes the new task, whose link no queue reads.
    refine h.queues.congr (fun c p _ => ?_) fun c => ?_
    · show ((buildTask task _ stack 0 b.sched).tasks p).next = (b.sched.tasks p).next
      rw [buildTask, Sched.updateTask_field _ _ _ (·.next) rfl]
      exact b.sched.updateTask_field task (fun t => { t with id := b.sched.nextId }) (·.next) rfl p
    · rw [settled_rq, settled_rq]
      rfl
  · exact h.tail
  · exact h.count
  · exact h.tailStored
  · exact h.headStored
  · exact fun c p hp => hlive (h.queued_live c p hp)
  · show 0 ∉ if task = 0 then b.sched.live else insert task b.sched.live
    split
    · exact h.null
    · rename_i hne
      rw [Finset.mem_insert]
      exact fun hc => hc.elim (fun he => hne he.symm) h.null
  -- the call holds the new task, and the others hold what they held
  · intro k' hk
    by_cases he : k' = k
    · rw [he, hself] at hk ⊢
      show task ∈ if task = 0 then b.sched.live else insert task b.sched.live
      rw [if_neg hk]
      exact Finset.mem_insert_self _ _
    · rw [hother k' he] at hk ⊢
      exact hlive (h.call_live k' hk)
  · intro k' c
    by_cases he : k' = k
    · rw [he, hself]
      exact hqueued c
    · rw [hother k' he]
      exact h.call_new k' c
  · -- Two calls hold one task: if either is `k`, the other had a task that was allocated before.
    intro k' k'' heq hne
    by_cases he : k' = k
    · by_cases he' : k'' = k
      · rw [he, he']
      · rw [he, hself, hother k'' he'] at heq
        rw [he, hself] at hne
        exact absurd heq.symm (hcall k'' hne)
    · rw [hother k' he] at heq hne
      by_cases he' : k'' = k
      · rw [he', hself] at heq
        exact absurd heq (hcall k' (heq ▸ hne))
      · rw [hother k'' he'] at heq
        exact h.call_inj k' k'' heq hne

/-- The loop of `pick_least_loaded_cpu` changes nothing but where its call is. -/
theorem pick (h : b.Kept q) {op : BringupOp n κ} {k : κ}
    (hop : op = .lockCpus k ∨ op = .look k ∨ op = .unlockCpus k) : (op.run b).Kept q := by
  have hsame : (op.run b).sched = b.sched ∧ (op.run b).boot = b.boot ∧
      ∀ k', ((op.run b).calls k').task = (b.calls k').task := by
    -- the call goes on with the same task
    have hcall : ∀ (b' : Bringup n κ) phase, b'.calls = b.calls → phase.task = (b.calls k).task →
        ∀ k', ((b'.setCall k phase).calls k').task = (b.calls k').task := by
      intro b' phase hcalls htask k'
      show (Function.update b'.calls k phase k').task = (b.calls k').task
      rw [Function.update_apply, hcalls]
      split
      · rename_i he
        rw [htask, he]
      · rfl
    rcases hop with rfl | rfl | rfl
    · rw [BringupOp.run]
      split
      · rename_i hphase _
        exact ⟨rfl, rfl, hcall _ _ rfl (by rw [hphase]; rfl)⟩
      · exact ⟨rfl, rfl, fun _ => rfl⟩
    · rw [BringupOp.run]
      split
      · rename_i hphase
        exact ⟨rfl, rfl, hcall _ _ rfl (by rw [hphase]; rfl)⟩
      · exact ⟨rfl, rfl, fun _ => rfl⟩
    · rw [BringupOp.run]
      split
      · rename_i hphase
        exact ⟨rfl, rfl, hcall _ _ rfl (by rw [hphase]; rfl)⟩
      · exact ⟨rfl, rfl, fun _ => rfl⟩
  obtain ⟨hsched, hboot, hcalls⟩ := hsame
  have hrq : ∀ c, (op.run b).settled.rq c = b.settled.rq c := by
    intro c
    rw [settled_rq, settled_rq, hsched, hboot]
  refine h.congr hrq (fun _ _ _ => by rw [hsched]) ?_ ?_ ?_ ?_ hcalls
  · rw [hsched, hboot]
    exact h.tailStored
  · rw [hsched, hboot]
    exact h.headStored
  · rw [hsched]
  · rw [hsched]
    exact h.null

/-- **A task goes to a runqueue that is set up**, behind those it has. -/
theorem enqueue (h : b.Kept q) {k : κ} {task : TaskPtr} {target : Fin n}
    (hpicked : b.calls k = .picked task target) (hne : task ≠ 0)
    (hready : (b.boot target).RqReady) :
    ((BringupOp.enqueue k task target).run b).Kept
      (Function.update q target (q target ++ [task])) := by
  obtain ⟨t, ht⟩ : ∃ t, t = b.sched.updateTask task fun x =>
    { x with cpuId := (b.sched.cpus target).id.toNat } := ⟨_, rfl⟩
  obtain ⟨b', hb'⟩ : ∃ b', b' = (BringupOp.enqueue k task target).run b := ⟨_, rfl⟩
  rw [← hb']
  have hsched : b'.sched = enqueueTask target task t := by
    rw [hb', ht]
    rfl
  have hboot : b'.boot = b.boot := by rw [hb']; rfl
  have hself : (b'.calls k).task = 0 := by
    rw [hb']
    show (Function.update b.calls k CreatePhase.out k).task = 0
    rw [Function.update_self]
    rfl
  have hother : ∀ k', k' ≠ k → b'.calls k' = b.calls k' := fun k' he => by
    rw [hb']
    exact Function.update_of_ne he _ _
  have htask : (b.calls k).task = task := by
    rw [hpicked]
    rfl
  have htrq : ∀ c, t.rq c = b.sched.rq c := fun c => by rw [ht]; rfl
  have htnext : ∀ p, t.next p = b.sched.next p := by
    intro p
    rw [ht]
    exact Sched.updateTask_field _ _ _ (·.next) rfl p
  have hlive : b'.sched.live = b.sched.live := by rw [hsched, enqueueTask_live, ht]; rfl
  have hnew : ∀ c, task ∉ q c := htask ▸ h.call_new k
  -- the runqueue's tail is that of its list
  have htarget : b.settled.rq target = b.sched.rq target := by
    rw [settled_rq, if_pos hready]
  have hkept : enqueued b.settled q target task =
      Function.update q target (q target ++ [task]) := by
    rw [enqueued, keptBy, if_neg hne]
    by_cases htail : (b.settled.rq target).tail = 0
    · rw [if_pos htail, h.tail target htail]
    · rw [if_neg htail]
  have hrq : ∀ c, b'.settled.rq c = (enqueueTask target task b.settled).rq c := by
    intro c
    rw [enqueueTask_rq target task b.settled c, htarget, settled_rq, hboot, hsched, enqueueTask_rq,
      htrq, htrq]
    by_cases hc : c = target
    · rw [if_pos hc, if_pos hc, hc, if_pos hready]
    · rw [if_neg hc, if_neg hc, settled_rq]
  have hqueues : Queues b'.settled (Function.update q target (q target ++ [task])) := by
    rw [← hkept]
    refine (h.queues.enqueue target hnew).congr (fun c p _ => ?_) hrq
    show b'.sched.next p = _
    rw [hsched, enqueueTask_next, enqueueTask_next, htrq, htarget, htnext]
    rfl
  have hmem : ∀ c, ∀ p ∈ Function.update q target (q target ++ [task]) c, p ∈ q c ∨ p = task := by
    intro c p hp
    by_cases hc : c = target
    · rw [hc, Function.update_self] at hp
      rw [hc]
      exact (List.mem_append.mp hp).imp id List.mem_singleton.mp
    · rw [Function.update_of_ne hc] at hp
      exact Or.inl hp
  -- a CPU whose runqueue is not set up keeps it as it was
  have hleft : ∀ c, c ≠ target → b'.sched.rq c = b.sched.rq c := by
    intro c hc
    rw [hsched, enqueueTask_rq, if_neg hc, htrq]
  have hunready : ∀ c, b.boot c = .tailStored ∨ b.boot c = .headStored → c ≠ target := by
    rintro c hc rfl
    rcases hc with hc | hc <;> rw [hc] at hready <;> exact hready
  constructor
  · exact hqueues
  · intro c htail
    rw [hrq, enqueueTask_rq] at htail
    by_cases hc : c = target
    · rw [if_pos hc] at htail
      exact absurd htail hne
    · rw [if_neg hc] at htail
      rw [Function.update_of_ne hc]
      exact h.tail c htail
  · intro c
    rw [hrq, enqueueTask_rq]
    by_cases hc : c = target
    · rw [if_pos hc, hc, Function.update_self, List.length_append, List.length_singleton,
        BitVec.ofNat_add, ← h.count target]
      rfl
    · rw [if_neg hc, Function.update_of_ne hc]
      exact h.count c
  · intro c hc
    rw [hboot] at hc
    rw [hleft c (hunready c hc)]
    exact h.tailStored c hc
  · intro c hc
    rw [hboot] at hc
    rw [hleft c (hunready c (Or.inr hc))]
    exact h.headStored c hc
  · intro c p hp
    rw [hlive]
    rcases hmem c p hp with hp | rfl
    · exact h.queued_live c p hp
    · rw [← htask] at hne ⊢
      exact h.call_live k hne
  · rw [hlive]
    exact h.null
  · intro k' hk
    rw [hlive]
    by_cases he : k' = k
    · rw [he, hself] at hk
      exact absurd rfl hk
    · rw [hother k' he] at hk ⊢
      exact h.call_live k' hk
  · intro k' c hp
    by_cases he : k' = k
    · rw [he, hself] at hp
      exact (hqueues.isQueue c).linked.ne_nil hp rfl
    · rw [hother k' he] at hp
      rcases hmem c _ hp with hp | hp
      · exact h.call_new k' c hp
      · rw [← htask] at hp hne
        exact he (h.call_inj k' k hp (hp ▸ hne))
  · intro k' k'' heq hk
    by_cases he : k' = k
    · rw [he, hself] at hk
      exact absurd rfl hk
    · rw [hother k' he] at heq hk
      by_cases he' : k'' = k
      · rw [he', hself] at heq
        exact absurd heq hk
      · rw [hother k'' he'] at heq
        exact h.call_inj k' k'' heq hk

/-- **What each step keeps**: no runqueue loses a task, and a new one is in the runqueue it went to. -/
theorem step (h : b.Kept q) {op : BringupOp n κ} (hstep : bringupStep b op b')
    (hsettled : op.Settled b) : ∃ q', b'.Kept q' ∧ (∀ c, ∀ p ∈ q c, p ∈ q' c) ∧
      ∀ k task target, op = .enqueue k task target → task ∈ q' target := by
  obtain ⟨hvalid, rfl⟩ := hstep
  have hsame : (op.run b).Kept q → (∀ k task target, op ≠ .enqueue k task target) →
      ∃ q', (op.run b).Kept q' ∧ (∀ c, ∀ p ∈ q c, p ∈ q' c) ∧
        ∀ k task target, op = .enqueue k task target → task ∈ q' target :=
    fun hkept hnot => ⟨q, hkept, fun _ _ hp => hp, fun k task target he => absurd he (hnot k task target)⟩
  cases op with
  | cpuInit => exact hsame (h.cpuInit hvalid.1) nofun
  | publish => exact hsame (h.publish hvalid.1) nofun
  | taskInit => exact hsame (h.taskInit hvalid) nofun
  | create => exact hsame (h.create hvalid.2.2) nofun
  | lockCpus => exact hsame (h.pick (Or.inl rfl)) nofun
  | look => exact hsame (h.pick (Or.inr (Or.inl rfl))) nofun
  | unlockCpus => exact hsame (h.pick (Or.inr (Or.inr rfl))) nofun
  | enqueue k task target =>
    refine ⟨_, h.enqueue hvalid hsettled.1 hsettled.2, fun c p hp => ?_, fun k' p c he => ?_⟩
    · by_cases hc : c = target
      · rw [hc] at hp ⊢
        rw [Function.update_self]
        exact List.mem_append_left _ hp
      · rwa [Function.update_of_ne hc]
    · cases he
      rw [Function.update_self]
      exact List.mem_append_right _ (List.mem_singleton_self _)

end Ops

end Kept

/-- Some CPUs run, with what tasks they have in their runqueues, the others are still off, and no call of
`task_create` is under way. -/
structure Start (b : Bringup n κ) (q : Fin n → List TaskPtr) : Prop where
  boot : ∀ c, b.boot c = .running ∨ (b.boot c = .off ∧ q c = [])
  queue : ∀ c, b.boot c = .running →
    IsQueue b.sched.next 0 (b.sched.rq c).head (b.sched.rq c).tail (q c)
  tail : ∀ c, b.boot c = .running → (b.sched.rq c).tail = 0 → q c = []
  count : ∀ c, b.boot c = .running → (b.sched.rq c).count = BitVec.ofNat 32 (q c).length
  apart : Placement.Apart q
  live : ∀ c, ∀ p ∈ q c, p ∈ b.sched.live
  null : 0 ∉ b.sched.live
  calls : ∀ k, b.calls k = .out

theorem Start.kept {b : Bringup n κ} {q : Fin n → List TaskPtr} (h : b.Start q) : b.Kept q := by
  -- A CPU that is off counts as settled with an empty runqueue.
  have hrq : ∀ c, (b.boot c = .running ∧ b.settled.rq c = b.sched.rq c) ∨
      (q c = [] ∧ b.settled.rq c = ⟨0, 0, 0⟩) := by
    intro c
    rcases h.boot c with hrun | ⟨hoff, hnil⟩
    · left
      rw [settled_rq, if_pos (by rw [hrun]; trivial)]
      exact ⟨hrun, rfl⟩
    · right
      rw [settled_rq, if_neg (by rw [hoff]; exact id)]
      exact ⟨hnil, rfl⟩
  have hphase : ∀ c, ¬ (b.boot c = .tailStored ∨ b.boot c = .headStored) := by
    rintro c (hc | hc) <;> rcases h.boot c with he | ⟨he, -⟩ <;> rw [he] at hc <;> cases hc
  have hcall : ∀ k, (b.calls k).task = 0 := fun k => by rw [h.calls k]; rfl
  constructor
  · refine ⟨fun c => ?_, h.apart⟩
    rcases hrq c with ⟨hrun, he⟩ | ⟨hnil, he⟩
    · rw [he]
      exact h.queue c hrun
    · rw [he, hnil]
      exact IsQueue.empty
  · intro c htail
    rcases hrq c with ⟨hrun, he⟩ | ⟨hnil, -⟩
    · rw [he] at htail
      exact h.tail c hrun htail
    · exact hnil
  · intro c
    rcases hrq c with ⟨hrun, he⟩ | ⟨hnil, he⟩
    · rw [he]
      exact h.count c hrun
    · rw [he, hnil]
      rfl
  · exact fun c hc => absurd hc (hphase c)
  · exact fun c hc => absurd (Or.inr hc) (hphase c)
  · exact h.live
  · exact h.null
  · exact fun k hk => absurd (hcall k) hk
  · intro k c hp
    rw [hcall] at hp
    exact h.null (h.live c 0 hp)
  · exact fun k _ _ hk => absurd (hcall k) hk

end Bringup

/-! ## Runs -/

section Runs

variable [DecidableEq κ] {b₀ b : Bringup n κ} {q : Fin n → List TaskPtr} {ops : List (BringupOp n κ)}

/-- The lists along a run have the tasks that were there, and those that were enqueued. -/
theorem bringupRun_queues (h : b₀.Start q)
    (hrun : Run (Restrict BringupOp.Settled bringupStep) b₀ ops b) :
    ∃ q', b.Kept q' ∧ (∀ c, ∀ p ∈ q c, p ∈ q' c) ∧
      ∀ k task target, .enqueue k task target ∈ ops → task ∈ q' target := by
  induction hrun with
  | nil => exact ⟨q, h.kept, fun _ _ hp => hp, fun _ _ _ hop => absurd hop List.not_mem_nil⟩
  | snoc _ hstep ih =>
    obtain ⟨q', hkept, hold, hnew⟩ := ih
    obtain ⟨q'', hkept', hold', hnew'⟩ := hkept.step hstep.2 hstep.1
    refine ⟨q'', hkept', fun c p hp => hold' c p (hold c p hp), fun k task target hop => ?_⟩
    rcases List.mem_append.mp hop with hop | hop
    · exact hold' target task (hnew k task target hop)
    · exact hnew' k task target (List.mem_singleton.mp hop).symm

/-- **No task is lost** where each goes to a CPU whose runqueue is set up by then: those enqueued are in
a runqueue, with the ones that were there, and each was enqueued on a runqueue that is a list. -/
theorem bringupRun_kept (h : b₀.Start q)
    (hrun : Run (Restrict BringupOp.Settled bringupStep) b₀ ops b) :
    (∀ c, ∀ p ∈ q c, b.sched.InRunqueue c p) ∧
      (∀ k task target, .enqueue k task target ∈ ops → b.sched.InRunqueue target task) ∧
      ∀ pre post k task target u, ops = pre ++ .enqueue k task target :: post →
        Run bringupStep b₀ pre u → u.sched.Formed target := by
  obtain ⟨q', hkept, hold, hnew⟩ := bringupRun_queues h hrun
  refine ⟨fun c p hp => hkept.inRunqueue (hold c p hp), fun k task target hop =>
    hkept.inRunqueue (hnew k task target hop), fun pre post k task target u hops hpre => ?_⟩
  rw [hops] at hrun
  obtain ⟨v, hpre', hrest⟩ := hrun.of_append pre _
  obtain ⟨w, hstep, -⟩ := hrest.of_append [.enqueue k task target] post
  obtain rfl : u = v := by
    refine Run.unique (fun _ _ _ _ hs hs' => hs.2.trans hs'.2.symm) hpre ?_
    exact hpre'.mono fun _ _ _ hs => hs.2
  obtain ⟨qv, hkeptv, -, -⟩ := bringupRun_queues h hpre'
  exact hkeptv.formed hstep.of_single.1.2

end Runs

/-! ## Two CPUs -/

/-- The first CPU runs, with its idle task; the second one is off. -/
def bspOnly : Bringup 2 Unit where
  sched := { bootSched2 with live := {0x1000018} }
  boot c := if c = 0 then .running else .off
  cpus := [0]
  cpuLock := none
  calls _ := .out

/-- A call of `task_create` where only the first CPU is there. -/
def createAlone : List (BringupOp 2 Unit) :=
  [.create () 0 0x10000F8 0x1001000, .lockCpus (), .unlockCpus (), .enqueue () 0x10000F8 0]

/-- The second CPU goes through `cpu_init`, with its `cpu_t` in memory that held zeros. -/
def cpuInitSecond : List (BringupOp 2 Unit) :=
  [.cpuInit 1 1 ⟨0, 0, 0, false, 0, 0, 0, 0, 0x100000, ⟨0, 0, 0⟩⟩, .publish 1]

/-- A call that looks at both CPUs, and goes to the second one. -/
def createSecond : List (BringupOp 2 Unit) :=
  [.create () 0 0x1000168 0x1006000, .lockCpus (), .look (), .unlockCpus (),
    .enqueue () 0x1000168 1]

/-- The second CPU goes through `task_init_per_cpu`. -/
def taskInitSecond : List (BringupOp 2 Unit) :=
  [.taskInit 1 0, .taskInit 1 0, .taskInit 1 0, .taskInit 1 0x10001D8, .taskInit 1 0]

/-- The machine after these steps. -/
def broughtUp (ops : List (BringupOp 2 Unit)) : Bringup 2 Unit :=
  ops.foldl (fun b op => op.run b) bspOnly

theorem bspOnly_start : bspOnly.Start fun _ => [] where
  boot c := by
    fin_cases c
    · exact Or.inl rfl
    · exact Or.inr ⟨rfl, rfl⟩
  queue _ _ := IsQueue.empty
  tail _ _ _ := rfl
  count _ _ := rfl
  apart := ⟨fun _ => List.nodup_nil, fun _ _ _ _ hp => absurd hp List.not_mem_nil⟩
  live _ _ hp := absurd hp List.not_mem_nil
  null := by decide
  calls _ := rfl

/-- A call that begins while the second CPU goes through `task_init_per_cpu`, up to the choice of the
second CPU. -/
def createMeanwhile : List (BringupOp 2 Unit) :=
  [.taskInit 1 0, .create () 0 0x1000168 0x1006000, .taskInit 1 0, .lockCpus (), .taskInit 1 0, .look (),
    .unlockCpus ()]

/-- The call enqueues its task, and the second CPU goes on. -/
def enqueueMeanwhile : List (BringupOp 2 Unit) :=
  [.enqueue () 0x1000168 1, .taskInit 1 0x10001D8, .taskInit 1 0]

/-- Each of the two tasks is in the runqueue it went to once both CPUs run, and the second one went to a
runqueue that was a list. -/
theorem bringupRun_kept_meanwhile :
    (∀ c, (broughtUp (createAlone ++ cpuInitSecond ++ createMeanwhile ++ enqueueMeanwhile)).boot c =
      .running) ∧
    (broughtUp (createAlone ++ cpuInitSecond ++ createMeanwhile ++ enqueueMeanwhile)).sched.InRunqueue 0
      0x10000F8 ∧
    (broughtUp (createAlone ++ cpuInitSecond ++ createMeanwhile ++ enqueueMeanwhile)).sched.InRunqueue 1
      0x1000168 ∧
    (broughtUp (createAlone ++ cpuInitSecond ++ createMeanwhile)).sched.Formed 1 := by
  have hallowed : Allowed (fun b op => BringupOp.Settled b op ∧ BringupOp.Valid b op) BringupOp.run bspOnly
      (createAlone ++ cpuInitSecond ++ createMeanwhile ++ enqueueMeanwhile) := by decide +kernel
  have hrun : Run (Restrict BringupOp.Settled bringupStep) bspOnly
      (createAlone ++ cpuInitSecond ++ createMeanwhile ++ enqueueMeanwhile)
      (broughtUp (createAlone ++ cpuInitSecond ++ createMeanwhile ++ enqueueMeanwhile)) :=
    hallowed.run_restrict
  have hpre : Run bringupStep bspOnly (createAlone ++ cpuInitSecond ++ createMeanwhile)
      (broughtUp (createAlone ++ cpuInitSecond ++ createMeanwhile)) := Allowed.run (by decide +kernel)
  obtain ⟨-, hqueued, hformed⟩ := bringupRun_kept bspOnly_start hrun
  refine ⟨by decide +kernel, hqueued () 0x10000F8 0 ?_, hqueued () 0x1000168 1 ?_, ?_⟩
  · simp [createAlone]
  · simp [enqueueMeanwhile]
  · exact hformed _ _ () 0x1000168 1 _ rfl hpre

/-- **A task is lost** that goes to the second CPU between `cpu_init` and `task_init_per_cpu`. -/
theorem bringupRun_loses : ∃ b, Run bringupStep bspOnly
    (createAlone ++ cpuInitSecond ++ createSecond ++ taskInitSecond) b ∧
      (∀ c, b.boot c = .running) ∧ ∀ c, ¬ b.sched.InRunqueue c 0x1000168 ∧
        b.sched.current c ≠ 0x1000168 := by
  obtain ⟨b, hb⟩ : ∃ b, b = broughtUp (createAlone ++ cpuInitSecond ++ createSecond ++
    taskInitSecond) := ⟨_, rfl⟩
  -- the first CPU's runqueue has the first task only, the second one's none
  have hfirst : Linked b.sched.next 0 (b.sched.rq 0).head [0x10000F8] := by
    rw [hb]
    exact ⟨by decide +kernel, by decide, show _ = _ by decide +kernel⟩
  have hsecond : Linked b.sched.next 0 (b.sched.rq 1).head [] := by
    rw [hb]
    exact show _ = _ by decide +kernel
  have hcur : ∀ c, b.sched.current c ≠ 0x1000168 := by
    rw [hb]
    decide +kernel
  refine ⟨b, ?_, ?_, fun c => ⟨?_, hcur c⟩⟩
  · rw [hb]
    exact Allowed.run (by decide +kernel)
  · rw [hb]
    decide +kernel
  · rintro ⟨l, hl, hp⟩
    fin_cases c
    · rw [hl.unique hfirst] at hp
      exact absurd hp (by decide)
    · rw [hl.unique hsecond] at hp
      exact absurd hp List.not_mem_nil

end ZohoOs
