import ZohoOs.Lib.TransitionSystem
import Mathlib.Logic.Function.Basic
import Mathlib.Data.List.Basic

/-!
# Interruptible code with spinlocks

One CPU runs code that takes spinlocks and turns its interrupts off and on. Between any two of its
instructions a timer interrupt may come while interrupts are on, and its handler may go on with
the code of another task. Code is a tree: it branches on the data it reads and on inputs that the
data does not determine.

A discipline keeps the CPU from spinning on a lock it holds: each lock is taken at most once and
with interrupts off. Only *plain* locks are taken with interrupts on, and no interrupt that
switches tasks may come while one is held.

## Main definitions

* `Code`: the code, a monad; `withLock` is a critical section
* `State`, `State.exec`: a CPU with the code it runs and the code of suspended tasks
* `Guard`, `Code.wlp`: the locks held, and what code has to respect
* `Code.Keeps`: code that respects the discipline and leaves the locks as they were
* `State.SelfDeadlock`: the next instruction takes a lock the CPU holds

## Main results

* `run_not_selfDeadlock`: disciplined code never takes a lock the CPU holds
-/

namespace Interruptible

open TransitionSystem

/-- Code over data `D`, with locks `L` and tasks `T`. Each constructor but `done` is an instruction
and the code after it. -/
inductive Code (D L T : Type) (α : Type) : Type
  | done (a : α)
  /-- Branch on the data. -/
  | read (next : D → Code D L T α)
  | write (f : D → D) (next : Code D L T α)
  /-- Branch on a value the data does not determine. -/
  | input (next : Nat → Code D L T α)
  /-- Save the interrupt flag, and clear it. -/
  | cli (next : Code D L T α)
  /-- Take the interrupt flag that was saved last. -/
  | popf (next : Code D L T α)
  | lock (l : L) (next : Code D L T α)
  | unlock (l : L) (next : Code D L T α)
  /-- A task that starts with interrupts on. -/
  | spawn (t : T) (next : Code D L T α)
  /-- Suspend the code as that of `src`, and go on with the code of `dst`. -/
  | switch (src dst : T) (next : Code D L T α)
  /-- The code goes no further. -/
  | hang

namespace Code

variable {D L T α β : Type}

def bind : Code D L T α → (α → Code D L T β) → Code D L T β
  | .done a, f => f a
  | .read next, f => .read fun d => (next d).bind f
  | .write g next, f => .write g (next.bind f)
  | .input next, f => .input fun i => (next i).bind f
  | .cli next, f => .cli (next.bind f)
  | .popf next, f => .popf (next.bind f)
  | .lock l next, f => .lock l (next.bind f)
  | .unlock l next, f => .unlock l (next.bind f)
  | .spawn t next, f => .spawn t (next.bind f)
  | .switch src dst next, f => .switch src dst (next.bind f)
  | .hang, _ => .hang

instance instMonad : Monad (Code D L T) where
  pure := .done
  bind := bind

/-! ## Instructions -/

def get : Code D L T D := .read .done

def modify (f : D → D) : Code D L T Unit := .write f (.done ())

/-- The value of a function on the data, which leaves new data. -/
def modifyGet (f : D → α × D) : Code D L T α :=
  .read fun d => .write (fun d => (f d).2) (.done (f d).1)

def any : Code D L T Nat := .input .done

def start (t : T) : Code D L T Unit := .spawn t (.done ())

def switchTask (src dst : T) : Code D L T Unit := .switch src dst (.done ())

/-- Code between taking a lock and giving it back. -/
def holding (l : L) (body : Code D L T α) : Code D L T α :=
  .lock l (body.bind fun a => .unlock l (.done a))

/-- Code with interrupts off. -/
def masked (body : Code D L T α) : Code D L T α :=
  .cli (body.bind fun a => .popf (.done a))

/-- A critical section. -/
def withLock (l : L) (body : Code D L T α) : Code D L T α := masked (holding l body)

def times (body : Code D L T Unit) : Nat → Code D L T Unit
  | 0 => .done ()
  | k + 1 => body.bind fun _ => body.times k

/-- A loop whose number of rounds is an input. -/
def loop (body : Code D L T Unit) : Code D L T Unit := .input body.times

/-- The lock the next instruction takes. -/
def wants : Code D L T α → Option L
  | .lock l _ => some l
  | _ => none

/-- There is no next instruction. -/
def isDone : Code D L T α → Bool
  | .done _ => true
  | _ => false

end Code

/-! ## The CPU -/

/-- Code, with the interrupt flags it has saved. -/
structure Context (D L T : Type) where
  code : Code D L T Unit
  saved : List Bool

/-- The frame a new task starts from: it has nothing to run, and interrupts are on. -/
def Context.fresh {D L T : Type} : Context D L T := ⟨.popf (.done ()), [true]⟩

/-- A CPU. -/
structure State (D L T : Type) where
  data : D
  interrupts : Bool
  /-- The locks it holds. -/
  held : List L
  /-- What it runs. -/
  context : Context D L T
  /-- Where it left the tasks it does not run. -/
  suspended : T → Context D L T

/-- What a CPU can run: the handler of the timer interrupt, which starts from the data it finds, and
the calls. -/
structure Kernel (D L T K : Type) where
  interrupt : D → Code D L T Unit
  call : K → Code D L T Unit

/-- What a CPU does next. A new call starts where the one before it has returned. -/
inductive Op (K : Type)
  | exec (input : Nat)
  | interrupt
  | call (c : K)

section Run

variable {D L T K : Type} [DecidableEq L] [DecidableEq T]

/-- A CPU that runs nothing. -/
def State.idle (d : D) (interrupts : Bool) : State D L T where
  data := d
  interrupts := interrupts
  held := []
  context := ⟨.done (), []⟩
  suspended _ := Context.fresh

def State.goOn (s : State D L T) (code : Code D L T Unit) : State D L T :=
  { s with context := ⟨code, s.context.saved⟩ }

/-- The next instruction. A lock that is held is spun on. -/
def State.exec (i : Nat) (s : State D L T) : State D L T :=
  match s.context.code with
  | .done _ | .hang => s
  | .read next => s.goOn (next s.data)
  | .write f next => { s with data := f s.data, context := ⟨next, s.context.saved⟩ }
  | .input next => s.goOn (next i)
  | .cli next =>
    { s with interrupts := false, context := ⟨next, s.interrupts :: s.context.saved⟩ }
  | .popf next =>
    match s.context.saved with
    | [] => s
    | flag :: saved => { s with interrupts := flag, context := ⟨next, saved⟩ }
  | .lock l next =>
    if l ∈ s.held then s else { s with held := l :: s.held, context := ⟨next, s.context.saved⟩ }
  | .unlock l next => { s with held := s.held.erase l, context := ⟨next, s.context.saved⟩ }
  | .spawn t next =>
    { s with
      suspended := Function.update s.suspended t Context.fresh
      context := ⟨next, s.context.saved⟩ }
  | .switch src dst next =>
    let suspended := Function.update s.suspended src ⟨next, s.context.saved⟩
    { s with context := suspended dst, suspended := suspended }

/-- The interrupt: its frame keeps the interrupt flag, and its handler runs with interrupts off. -/
def State.deliver (k : Kernel D L T K) (s : State D L T) : State D L T :=
  { s with
    interrupts := false
    context :=
      ⟨(k.interrupt s.data).bind fun _ => .popf s.context.code, s.interrupts :: s.context.saved⟩ }

def Op.run (k : Kernel D L T K) : Op K → State D L T → State D L T
  | .exec i, s => s.exec i
  | .interrupt, s => s.deliver k
  | .call c, s => s.goOn (k.call c)

def Op.Valid (s : State D L T) : Op K → Prop
  | .exec _ => True
  | .interrupt => s.interrupts
  | .call _ => s.context.code.isDone

instance Op.decidableValid (s : State D L T) (op : Op K) : Decidable (op.Valid s) := by
  cases op <;> unfold Op.Valid <;> infer_instance

/-- The steps of a CPU. -/
abbrev step (k : Kernel D L T K) : State D L T → Op K → State D L T → Prop :=
  Restrict (fun s op => op.Valid s) (Apply (Op.run k))

/-- The CPU is about to take a lock it holds. -/
def State.SelfDeadlock (s : State D L T) : Prop := ∃ l ∈ s.held, s.context.code.wants = some l

/-- The interrupt comes while a lock is held, and its handler may switch tasks. -/
def Op.Preempts (switches : D → Prop) (s : State D L T) : Op K → Prop
  | .interrupt => s.held ≠ [] ∧ switches s.data
  | _ => False

instance State.decidableSelfDeadlock (s : State D L T) : Decidable s.SelfDeadlock :=
  inferInstanceAs (Decidable (∃ l ∈ s.held, s.context.code.wants = some l))

instance Op.decidablePreempts (switches : D → Prop) [DecidablePred switches] (s : State D L T)
    (op : Op K) : Decidable (op.Preempts switches s) := by
  cases op <;> unfold Op.Preempts <;> infer_instance

end Run

/-! ## The discipline -/

/-- How many interrupt flags the running code has saved, and the locks that are held. -/
structure Guard (L : Type) where
  off : Nat
  held : List L

section Guards

variable {L : Type}

/-- Where interrupts may be on, only plain locks are held. -/
def Guard.Safe (plain : L → Prop) (g : Guard L) : Prop := g.off = 0 → ∀ l ∈ g.held, plain l

/-- No lock of a list is held, and interrupts are off where any lock is. -/
def Guard.Free (locks : List L) (g : Guard L) : Prop :=
  (g.off = 0 → g.held = []) ∧ ∀ l ∈ locks, l ∉ g.held

/-- No lock is held. -/
def Guard.Unlocked (g : Guard L) : Prop := g.held = []

/-- No lock is held, and interrupts are off. -/
def Guard.Masked (g : Guard L) : Prop := 0 < g.off ∧ g.held = []

theorem Guard.Unlocked.free {g : Guard L} (h : g.Unlocked) (locks : List L) : g.Free locks := by
  refine ⟨fun _ => h, fun l _ => ?_⟩
  rw [h]
  exact List.not_mem_nil

theorem Guard.Masked.unlocked {g : Guard L} (h : g.Masked) : g.Unlocked := h.2

theorem Guard.Free.mono {locks locks' : List L} {g : Guard L} (h : g.Free locks)
    (hsub : ∀ l ∈ locks', l ∈ locks) : g.Free locks' := ⟨h.1, fun l hl => h.2 l (hsub l hl)⟩

end Guards

section Discipline

variable {D L T K α β : Type} [DecidableEq L] {plain : L → Prop}

/-- The code respects the discipline from a guard, and ends with `post`. -/
def Code.wlp (plain : L → Prop) : Code D L T α → (α → Guard L → Prop) → Guard L → Prop
  | .done a, post, g => post a g
  | .read next, post, g => ∀ d, (next d).wlp plain post g
  | .write _ next, post, g => next.wlp plain post g
  | .input next, post, g => ∀ i, (next i).wlp plain post g
  | .cli next, post, g => next.wlp plain post ⟨g.off + 1, g.held⟩
  | .popf next, post, g =>
    0 < g.off ∧ Guard.Safe plain ⟨g.off - 1, g.held⟩ ∧ next.wlp plain post ⟨g.off - 1, g.held⟩
  | .lock l next, post, g =>
    l ∉ g.held ∧ Guard.Safe plain ⟨g.off, l :: g.held⟩ ∧ next.wlp plain post ⟨g.off, l :: g.held⟩
  | .unlock l next, post, g => next.wlp plain post ⟨g.off, g.held.erase l⟩
  | .spawn _ next, post, g => next.wlp plain post g
  | .switch _ _ next, post, g => 0 < g.off ∧ g.held = [] ∧ next.wlp plain post g
  | .hang, _, _ => True

theorem Code.wlp_mono {c : Code D L T α} {post post' : α → Guard L → Prop}
    (h : ∀ a g, post a g → post' a g) {g : Guard L} (hc : c.wlp plain post g) :
    c.wlp plain post' g := by
  induction c generalizing g with
  | done a => exact h a g hc
  | read next ih => exact fun d => ih d (hc d)
  | input next ih => exact fun i => ih i (hc i)
  | write f next ih | cli next ih | unlock l next ih | spawn t next ih => exact ih hc
  | popf next ih | lock l next ih | switch src dst next ih => exact ⟨hc.1, hc.2.1, ih hc.2.2⟩
  | hang => trivial

/-- **The rule of sequencing.** -/
theorem Code.wlp_bind {c : Code D L T α} {f : α → Code D L T β} {post : β → Guard L → Prop}
    {g : Guard L} (h : c.wlp plain (fun a g => (f a).wlp plain post g) g) :
    (c.bind f).wlp plain post g := by
  induction c generalizing g with
  | done a => exact h
  | read next ih => exact fun d => ih d (h d)
  | input next ih => exact fun i => ih i (h i)
  | write f next ih | cli next ih | unlock l next ih | spawn t next ih => exact ih h
  | popf next ih | lock l next ih | switch src dst next ih => exact ⟨h.1, h.2.1, ih h.2.2⟩
  | hang => trivial

/-- Code that respects the discipline from the guards that meet `ok`, and returns at the guard it
started from. -/
def Code.Keeps (plain : L → Prop) (ok : Guard L → Prop) (c : Code D L T α) : Prop :=
  ∀ g, ok g → c.wlp plain (fun _ g' => g' = g) g

namespace Code.Keeps

variable {ok ok' : Guard L → Prop}

theorem mono {c : Code D L T α} (h : c.Keeps plain ok) (hok : ∀ g, ok' g → ok g) :
    c.Keeps plain ok' := fun g hg => h g (hok g hg)

theorem pure (a : α) : (Pure.pure a : Code D L T α).Keeps plain ok := fun _ _ => rfl

theorem bind {c : Code D L T α} {f : α → Code D L T β} (hc : c.Keeps plain ok)
    (hf : ∀ a, (f a).Keeps plain ok) : (c >>= f).Keeps plain ok := by
  intro g hg
  refine wlp_bind (wlp_mono ?_ (hc g hg))
  rintro a _ rfl
  exact hf a _ hg

theorem get : (Code.get : Code D L T D).Keeps plain ok := fun _ _ _ => rfl

theorem modify (f : D → D) : (Code.modify f : Code D L T Unit).Keeps plain ok := fun _ _ => rfl

theorem modifyGet (f : D → α × D) : (Code.modifyGet f : Code D L T α).Keeps plain ok :=
  fun _ _ _ => rfl

theorem any : (Code.any : Code D L T Nat).Keeps plain ok := fun _ _ _ => rfl

theorem start (t : T) : (Code.start t : Code D L T Unit).Keeps plain ok := fun _ _ => rfl

theorem hang : (Code.hang : Code D L T α).Keeps plain ok := fun _ _ => trivial

theorem switchTask (src dst : T) :
    (Code.switchTask src dst : Code D L T Unit).Keeps plain Guard.Masked :=
  fun _ hg => ⟨hg.1, hg.2, rfl⟩

/-- A critical section with interrupts off, inside sections of other locks. -/
theorem withLock {l : L} {locks : List L} {body : Code D L T α} (hl : l ∉ locks)
    (h : body.Keeps plain (Guard.Free locks)) :
    (Code.withLock l body).Keeps plain (Guard.Free (l :: locks)) := by
  intro g hg
  have hnot : l ∉ g.held := hg.2 l List.mem_cons_self
  refine ⟨hnot, fun h => absurd h (Nat.succ_ne_zero _), ?_⟩
  refine wlp_bind (wlp_bind (wlp_mono ?_ (h ⟨g.off + 1, l :: g.held⟩ ⟨?_, ?_⟩)))
  · rintro a _ rfl
    have herase : (l :: g.held).erase l = g.held := List.erase_cons_head l g.held
    refine ⟨Nat.succ_pos _, ?_, ?_⟩
    · intro hoff
      simp only [Nat.add_sub_cancel] at hoff
      simp [hg.1 hoff]
    · simp [wlp, herase]
  · exact fun h => absurd h (Nat.succ_ne_zero _)
  · intro m hm hmem
    rcases List.mem_cons.mp hmem with rfl | hmem
    · exact hl hm
    · exact hg.2 m (List.mem_cons_of_mem _ hm) hmem

/-- A section of a plain lock, with interrupts as they were. -/
theorem holding {l : L} {body : Code D L T α} (hl : plain l)
    (h : body.Keeps plain fun g => g.held = [l]) :
    (Code.holding l body).Keeps plain Guard.Unlocked := by
  intro g hg
  have hheld : g.held = [] := hg
  refine ⟨by simp [hheld], ?_, ?_⟩
  · intro _ m hm
    rw [hheld] at hm
    obtain rfl := List.mem_singleton.mp hm
    exact hl
  · refine wlp_bind (wlp_mono ?_ (h ⟨g.off, l :: g.held⟩ (by simp [hheld])))
    rintro a _ rfl
    simp [wlp]

theorem masked {body : Code D L T α} (h : body.Keeps plain Guard.Masked) :
    (Code.masked body).Keeps plain Guard.Unlocked := by
  intro g hg
  have hheld : g.held = [] := hg
  refine wlp_bind (wlp_mono ?_ (h ⟨g.off + 1, g.held⟩ ⟨Nat.succ_pos _, hheld⟩))
  rintro a _ rfl
  refine ⟨Nat.succ_pos _, fun _ m hm => ?_, rfl⟩
  rw [hheld] at hm
  exact absurd hm List.not_mem_nil

theorem times {body : Code D L T Unit} (h : body.Keeps plain ok) (k : Nat) :
    (body.times k).Keeps plain ok := by
  induction k with
  | zero => exact pure ()
  | succ k ih => exact bind h fun _ => ih

theorem loop {body : Code D L T Unit} (h : body.Keeps plain ok) : body.loop.Keeps plain ok :=
  fun g hg k => times h k g hg

end Code.Keeps

end Discipline

/-! ## Runs -/

section Soundness

variable {D L T K : Type} [DecidableEq L] {plain : L → Prop}

/-- The calls and the handler respect the discipline, and a handler that does not switch tasks
takes no lock. -/
structure Kernel.Disciplined (k : Kernel D L T K) (plain : L → Prop) (switches : D → Prop) :
    Prop where
  call : ∀ c, (k.call c).Keeps plain Guard.Unlocked
  interrupt : ∀ d, (k.interrupt d).Keeps plain Guard.Masked
  quiet : ∀ d, ¬ switches d → (k.interrupt d).Keeps plain fun _ => True

/-- Every flag but the first was saved with interrupts off. -/
def Nested (flags : List Bool) : Prop := ∀ b ∈ flags.dropLast, b = false

theorem Nested.tail {b : Bool} {flags : List Bool} (h : Nested (b :: flags)) : Nested flags := by
  cases flags with
  | nil => exact fun _ hb => absurd hb List.not_mem_nil
  | cons c flags => exact fun x hx => h x (List.mem_cons_of_mem _ hx)

theorem Nested.eq_false {b c : Bool} {flags : List Bool} (h : Nested (b :: c :: flags)) :
    b = false := h b List.mem_cons_self

theorem Nested.cli {b : Bool} {flags : List Bool} (h : Nested (b :: flags)) :
    Nested (false :: b :: flags) := by
  intro x hx
  rcases List.mem_cons.mp hx with rfl | hx
  · rfl
  · exact h x hx

/-- Code that goes on with interrupts off and no lock held, and ends with none saved or held. -/
structure Context.Ready (plain : L → Prop) (c : Context D L T) : Prop where
  code : c.code.wlp plain (fun _ g => g = ⟨0, []⟩) ⟨c.saved.length, []⟩
  nonempty : c.saved ≠ []
  nested : Nested c.saved

theorem Context.fresh_ready : (Context.fresh : Context D L T).Ready plain where
  code := ⟨Nat.one_pos, fun _ _ h => absurd h List.not_mem_nil, rfl⟩
  nonempty := List.cons_ne_nil _ _
  nested := fun _ h => absurd h List.not_mem_nil

/-- The CPU respects the discipline from here on. -/
structure State.Follows (plain : L → Prop) (s : State D L T) : Prop where
  code : s.context.code.wlp plain (fun _ g => g = ⟨0, []⟩) ⟨s.context.saved.length, s.held⟩
  safe : Guard.Safe plain ⟨s.context.saved.length, s.held⟩
  nested : Nested (s.interrupts :: s.context.saved)
  suspended : ∀ t, (s.suspended t).Ready plain

theorem State.idle_follows (d : D) (interrupts : Bool) :
    (State.idle d interrupts : State D L T).Follows plain where
  code := rfl
  safe := fun _ _ h => absurd h List.not_mem_nil
  nested := fun _ h => absurd h List.not_mem_nil
  suspended := fun _ => Context.fresh_ready

theorem State.Follows.not_selfDeadlock {s : State D L T} (h : s.Follows plain) :
    ¬ s.SelfDeadlock := by
  rintro ⟨l, hl, hwants⟩
  have hcode := h.code
  cases hc : s.context.code with
  | lock m next =>
    rw [hc] at hwants hcode
    obtain rfl := Option.some.inj hwants
    exact hcode.1 hl
  | _ => simp [hc, Code.wants] at hwants

/-- An interrupt that does not switch tasks while a lock is held keeps the discipline. -/
theorem State.Follows.deliver {k : Kernel D L T K} {switches : D → Prop} {s : State D L T}
    (hk : k.Disciplined plain switches) (h : s.Follows plain) (hon : s.interrupts = true)
    (hpre : s.held = [] ∨ ¬ switches s.data) : (s.deliver k).Follows plain := by
  obtain ⟨hcode, hsafe, hnested, hsusp⟩ := h
  have hsaved : s.context.saved = [] := by
    cases hs : s.context.saved with
    | nil => rfl
    | cons b saved =>
      rw [hs] at hnested
      exact absurd (hon.symm.trans hnested.eq_false) (by decide)
  rw [hsaved] at hcode hsafe hnested
  have hkeep : (k.interrupt s.data).wlp plain (fun _ g => g = ⟨1, s.held⟩) ⟨1, s.held⟩ := by
    rcases hpre with hheld | hquiet
    · exact hk.interrupt _ _ ⟨Nat.one_pos, hheld⟩
    · exact hk.quiet _ hquiet _ trivial
  refine ⟨?_, fun h => absurd h (Nat.succ_ne_zero _), ?_, hsusp⟩
  · simp only [State.deliver, hsaved]
    refine Code.wlp_bind (Code.wlp_mono ?_ hkeep)
    rintro _ _ rfl
    exact ⟨Nat.one_pos, hsafe, hcode⟩
  · simp only [State.deliver, hsaved]
    exact hnested.cli

theorem State.Follows.call {k : Kernel D L T K} {switches : D → Prop} {s : State D L T}
    (hk : k.Disciplined plain switches) (h : s.Follows plain) (c : K)
    (hdone : s.context.code.isDone) : (s.goOn (k.call c)).Follows plain := by
  obtain ⟨hcode, hsafe, hnested, hsusp⟩ := h
  have hguard : (⟨s.context.saved.length, s.held⟩ : Guard L) = ⟨0, []⟩ := by
    cases hc : s.context.code with
    | done a => rw [hc] at hcode; exact hcode
    | _ => simp [hc, Code.isDone] at hdone
  refine ⟨?_, hsafe, hnested, hsusp⟩
  show (k.call c).wlp plain _ ⟨s.context.saved.length, s.held⟩
  rw [hguard]
  exact hk.call c _ rfl

variable [DecidableEq T]

/-- The next instruction keeps the discipline. -/
theorem State.Follows.exec {s : State D L T} (h : s.Follows plain) (i : Nat) :
    (s.exec i).Follows plain := by
  obtain ⟨hcode, hsafe, hnested, hsusp⟩ := h
  unfold State.exec
  cases hc : s.context.code with
  | done a => exact ⟨hcode, hsafe, hnested, hsusp⟩
  | hang => exact ⟨hcode, hsafe, hnested, hsusp⟩
  | read next => rw [hc] at hcode; exact ⟨hcode s.data, hsafe, hnested, hsusp⟩
  | input next => rw [hc] at hcode; exact ⟨hcode i, hsafe, hnested, hsusp⟩
  | write f next => rw [hc] at hcode; exact ⟨hcode, hsafe, hnested, hsusp⟩
  | cli next =>
    rw [hc] at hcode
    exact ⟨hcode, fun h => absurd h (Nat.succ_ne_zero _), hnested.cli, hsusp⟩
  | popf next =>
    rw [hc] at hcode
    cases hs : s.context.saved with
    | nil => rw [hs] at hcode; exact absurd hcode.1 (Nat.lt_irrefl 0)
    | cons flag saved =>
      rw [hs] at hcode hnested
      exact ⟨hcode.2.2, hcode.2.1, hnested.tail, hsusp⟩
  | lock l next =>
    rw [hc] at hcode
    simp only [hcode.1, if_false]
    exact ⟨hcode.2.2, hcode.2.1, hnested, hsusp⟩
  | unlock l next =>
    rw [hc] at hcode
    exact ⟨hcode, fun h m hm => hsafe h m (List.mem_of_mem_erase hm), hnested, hsusp⟩
  | spawn t next =>
    rw [hc] at hcode
    refine ⟨hcode, hsafe, hnested, fun u => ?_⟩
    by_cases hu : u = t
    · subst hu
      simpa using Context.fresh_ready
    · simpa [Function.update_of_ne hu] using hsusp u
  | switch src dst next =>
    rw [hc] at hcode
    obtain ⟨hoff, hheld, hnext⟩ := hcode
    -- The outgoing task is suspended with no lock held and the interrupts off, as `dst` was.
    have hready : ∀ t, (Function.update s.suspended src ⟨next, s.context.saved⟩ t).Ready plain := by
      intro t
      by_cases ht : t = src
      · subst ht
        rw [Function.update_self]
        rw [show s.held = [] from hheld] at hnext
        exact ⟨hnext, List.length_pos_iff.mp hoff, hnested.tail⟩
      · rw [Function.update_of_ne ht]
        exact hsusp t
    have hflag : s.interrupts = false := by
      obtain ⟨b, saved, hs⟩ := List.exists_cons_of_ne_nil (List.length_pos_iff.mp hoff)
      rw [hs] at hnested
      exact hnested.eq_false
    have hdst := hready dst
    refine ⟨?_, fun h => absurd h (by simpa using hdst.nonempty), ?_, hready⟩
    · rw [show s.held = [] from hheld]
      exact hdst.code
    · intro b hb
      simp only [hflag, List.dropLast_cons_of_ne_nil hdst.nonempty] at hb
      rcases List.mem_cons.mp hb with rfl | hb
      · rfl
      · exact hdst.nested b hb

/-- One step that is no interrupt switching tasks while a lock is held. -/
theorem State.Follows.step {k : Kernel D L T K} {switches : D → Prop} {s t : State D L T}
    {op : Op K} (hk : k.Disciplined plain switches) (h : s.Follows plain) (hs : step k s op t)
    (hpre : ¬ op.Preempts switches s) : t.Follows plain := by
  obtain ⟨hvalid, rfl⟩ := hs
  cases op with
  | exec i => exact h.exec i
  | interrupt =>
    refine h.deliver hk hvalid ?_
    by_cases hheld : s.held = []
    · exact .inl hheld
    · exact .inr fun hsw => hpre ⟨hheld, hsw⟩
  | call c => exact h.call hk c hvalid

/-- **A disciplined CPU never takes a lock it holds**, in any run in which no interrupt switches
tasks while a lock is held. -/
theorem run_not_selfDeadlock {k : Kernel D L T K} {switches : D → Prop} {s t : State D L T}
    {ops : List (Op K)} (hk : k.Disciplined plain switches) (hs : s.Follows plain)
    (h : Run (Restrict (fun s op => ¬ op.Preempts switches s) (step k)) s ops t) :
    ¬ t.SelfDeadlock := by
  have hstep : ∀ (u : State D L T) (op : Op K) (v : State D L T), u.Follows plain →
      Restrict (fun s op => ¬ op.Preempts switches s) (step k) u op v → v.Follows plain :=
    fun _ _ _ hf hl => hf.step hk hl.2 hl.1
  exact (h.invariant hstep hs).not_selfDeadlock

end Soundness

end Interruptible
