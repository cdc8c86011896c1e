import ZohoOs.Lib.Program
import Mathlib.Algebra.BigOperators.Group.Finset.Basic
import Mathlib.Algebra.GroupWithZero.Nat

/-!
# Critical sections

Programs share data under one lock. A request that works on the data of the lock is carried out access by
access, in a critical section; any other request is carried out at once and leaves the data alone. A thread
that wants the lock tries again and again, as long as another one holds it, and counts its tries once it has
the lock.

Between its accesses the other threads go on in any order. What they can see is as if each critical section
were one step, at its release.

## Main definitions

* `Discipline`: how requests are carried out, and what is counted
* `Thread`, `LockMachine`, `Step`: the threads, and their steps
* `Discipline.serve`: the server that carries out a critical section in one step
* `Serialises`: a machine, and the pool of programs it stands for

## Main results

* `run_serialises`: every run is one of the programs, whose critical sections are single steps
* `run_exclusive`: one thread holds the lock, at most
* `answers_alone`: a thread carries out its critical section
* `run_counts`, `run_tries`: what was counted, and the tries it comes from
* `Serialises.progress`: some thread can go on
-/

namespace CriticalSections

open Program TransitionSystem

/-- How requests are carried out: `access` is one access to the data of the lock, and `other` serves the
requests that have no critical section. -/
structure Discipline (κ Req Acc : Type) (Ans : Req → Type) (Res : Acc → Type) (σ τ ℓ : Type) where
  access : Server Unit Acc Res σ
  body : (r : Req) → Option (Prog Acc Res (Ans r))
  other : Server κ Req Ans τ
  /-- What is counted after so many tries, one step after the other. -/
  book : Nat → List (ℓ → ℓ)

/-- A thread: between its requests, after some tries to get the lock, or with the lock. -/
inductive Thread (Req Acc : Type) (Ans : Req → Type) (Res : Acc → Type) (α ℓ : Type) : Type
  | waits (tries : Nat) (p : Prog Req Ans α)
  | holds (todo : List (ℓ → ℓ)) (r : Req) (body : Prog Acc Res (Ans r)) (next : Ans r → Prog Req Ans α)

/-- The threads, the lock with what was counted, its data, and the rest of the state. -/
structure LockMachine (ι Req Acc : Type) (Ans : Req → Type) (Res : Acc → Type) (α σ τ ℓ : Type) where
  threads : ι → Thread Req Acc Ans Res α ℓ
  locked : Bool
  counts : ℓ
  data : σ
  rest : τ

/-- Steps. The requests that are done with are recorded. -/
inductive Label (ι κ Req : Type) (Ans : Req → Type)
  | other (e : Event ι κ Req Ans)
  | fails (i : ι)
  | acquires (i : ι) (tries : Nat)
  | counts (i : ι)
  | accesses (i : ι)
  | releases (e : Event ι κ Req Ans)

section

variable {ι κ Req Acc α σ τ ℓ : Type} {Ans : Req → Type} {Res : Acc → Type}

/-- The request that a step is done with. -/
def Label.event : Label ι κ Req Ans → Option (Event ι κ Req Ans)
  | .other e => some e
  | .releases e => some e
  | _ => none

/-- The tries of a step that gets the lock. -/
def Label.got : Label ι κ Req Ans → Option Nat
  | .acquires _ tries => some tries
  | _ => none

/-- A thread holds the lock. -/
def Thread.Holds : Thread Req Acc Ans Res α ℓ → Prop
  | .waits .. => False
  | .holds .. => True

/-- What a thread has still to do, where a critical section is done with at its release. -/
def Thread.prog : Thread Req Acc Ans Res α ℓ → Prog Req Ans α
  | .waits _ p => p
  | .holds _ r _ next => .ask r next

/-- Programs that start, with the lock free. -/
def LockMachine.start (progs : ι → Prog Req Ans α) (counts : ℓ) (data : σ) (rest : τ) :
    LockMachine ι Req Acc Ans Res α σ τ ℓ :=
  ⟨fun i => .waits 0 (progs i), false, counts, data, rest⟩

variable [DecidableEq ι] (d : Discipline κ Req Acc Ans Res σ τ ℓ)

def LockMachine.setThread (m : LockMachine ι Req Acc Ans Res α σ τ ℓ) (i : ι)
    (t : Thread Req Acc Ans Res α ℓ) : LockMachine ι Req Acc Ans Res α σ τ ℓ :=
  { m with threads := Function.update m.threads i t }

/-- **A step of a thread.** -/
inductive Step : LockMachine ι Req Acc Ans Res α σ τ ℓ → Label ι κ Req Ans →
    LockMachine ι Req Acc Ans Res α σ τ ℓ → Prop
  | other {m : LockMachine ι Req Acc Ans Res α σ τ ℓ} {i : ι} {tries : Nat} {r : Req}
      {next : Ans r → Prog Req Ans α} (k : κ) :
      m.threads i = .waits tries (.ask r next) → d.body r = none →
      Step m (.other ⟨i, k, r, (d.other k r m.rest).1⟩)
        { m.setThread i (.waits 0 (next (d.other k r m.rest).1)) with rest := (d.other k r m.rest).2 }
  /-- Another thread has the lock. -/
  | fails {m : LockMachine ι Req Acc Ans Res α σ τ ℓ} {i : ι} {tries : Nat} {r : Req}
      {next : Ans r → Prog Req Ans α} {b : Prog Acc Res (Ans r)} :
      m.threads i = .waits tries (.ask r next) → d.body r = some b → m.locked = true →
      Step m (.fails i) (m.setThread i (.waits (tries + 1) (.ask r next)))
  | acquires {m : LockMachine ι Req Acc Ans Res α σ τ ℓ} {i : ι} {tries : Nat} {r : Req}
      {next : Ans r → Prog Req Ans α} {b : Prog Acc Res (Ans r)} :
      m.threads i = .waits tries (.ask r next) → d.body r = some b → m.locked = false →
      Step m (.acquires i tries) { m.setThread i (.holds (d.book tries) r b next) with locked := true }
  | counts {m : LockMachine ι Req Acc Ans Res α σ τ ℓ} {i : ι} {count : ℓ → ℓ} {todo : List (ℓ → ℓ)}
      {r : Req} {next : Ans r → Prog Req Ans α} {b : Prog Acc Res (Ans r)} :
      m.threads i = .holds (count :: todo) r b next →
      Step m (.counts i) { m.setThread i (.holds todo r b next) with counts := count m.counts }
  | accesses {m : LockMachine ι Req Acc Ans Res α σ τ ℓ} {i : ι} {r : Req} {next : Ans r → Prog Req Ans α}
      {a : Acc} {go : Res a → Prog Acc Res (Ans r)} :
      m.threads i = .holds [] r (.ask a go) next →
      Step m (.accesses i) { m.setThread i (.holds [] r (go (d.access () a m.data).1) next) with
        data := (d.access () a m.data).2 }
  | releases {m : LockMachine ι Req Acc Ans Res α σ τ ℓ} {i : ι} {r : Req} {next : Ans r → Prog Req Ans α}
      {x : Ans r} (k : κ) :
      m.threads i = .holds [] r (.done x) next →
      Step m (.releases ⟨i, k, r, x⟩) { m.setThread i (.waits 0 (next x)) with locked := false }

/-- A critical section in one step. -/
def Discipline.serve : Server κ Req Ans (σ × τ) := fun k r s =>
  match d.body r with
  | some b => ((b.run d.access () s.1).1, ((b.run d.access () s.1).2, s.2))
  | none => ((d.other k r s.2).1, (s.1, (d.other k r s.2).2))

/-! ## Steps -/

variable {d} {m m' : LockMachine ι Req Acc Ans Res α σ τ ℓ} {l : Label ι κ Req Ans} {i j : ι}
  {t : Thread Req Acc Ans Res α ℓ}

@[simp] theorem setThread_self : (m.setThread i t).threads i = t := Function.update_self ..

theorem setThread_of_ne (hj : j ≠ i) : (m.setThread i t).threads j = m.threads j :=
  Function.update_of_ne hj ..

theorem serve_body {r : Req} {b : Prog Acc Res (Ans r)} (hb : d.body r = some b) (k : κ) (s : σ × τ) :
    d.serve k r s = ((b.run d.access () s.1).1, ((b.run d.access () s.1).2, s.2)) := by
  rw [Discipline.serve, hb]

theorem serve_other {r : Req} (hb : d.body r = none) (k : κ) (s : σ × τ) :
    d.serve k r s = ((d.other k r s.2).1, (s.1, (d.other k r s.2).2)) := by
  rw [Discipline.serve, hb]

/-- The thread that holds the lock. Its section goes on from the data as it would have from those that the
section began with. -/
structure Holder (d : Discipline κ Req Acc Ans Res σ τ ℓ) (m : LockMachine ι Req Acc Ans Res α σ τ ℓ) (s : σ)
    (i : ι) (r : Req) (b : Prog Acc Res (Ans r)) : Prop where
  thread : ∃ todo next, m.threads i = .holds todo r b next
  section_run : ∃ b₀, d.body r = some b₀ ∧ b.run d.access () m.data = b₀.run d.access () s
  others : ∀ j, j ≠ i → ¬ (m.threads j).Holds

/-- **A machine stands for a pool of programs**: the data of the lock are those before the critical section
that has begun. -/
structure Serialises (d : Discipline κ Req Acc Ans Res σ τ ℓ) (m : LockMachine ι Req Acc Ans Res α σ τ ℓ)
    (p : Pool ι Req Ans α (σ × τ)) : Prop where
  threads : ∀ i, p.1 i = (m.threads i).prog
  rest : p.2.2 = m.rest
  free : m.locked = false → p.2.1 = m.data ∧ ∀ i, ¬ (m.threads i).Holds
  held : m.locked = true → ∃ i r b, Holder d m p.2.1 i r b

variable {p : Pool ι Req Ans α (σ × τ)} {s : σ} {r : Req} {b : Prog Acc Res (Ans r)}

/-- A thread that waits goes on, and waits again. -/
theorem Holder.waits (h : Holder d m s j r b) (hi : ¬ (m.threads i).Holds) (ht : ¬ t.Holds)
    (hthreads : m'.threads = Function.update m.threads i t) (hdata : m'.data = m.data) :
    Holder d m' s j r b := by
  obtain ⟨todo, next, hj⟩ := h.thread
  have hji : j ≠ i := by
    rintro rfl
    rw [hj] at hi
    exact hi trivial
  refine ⟨⟨todo, next, ?_⟩, ?_, fun k hk => ?_⟩
  · rw [hthreads, Function.update_of_ne hji, hj]
  · rw [hdata]
    exact h.section_run
  · rw [hthreads]
    by_cases hki : k = i
    · rwa [hki, Function.update_self]
    · rw [Function.update_of_ne hki]
      exact h.others k hk

/-- The thread that holds the lock is the only one. -/
theorem Serialises.holder (h : Serialises d m p) {todo : List (ℓ → ℓ)} {next : Ans r → Prog Req Ans α}
    (hi : m.threads i = .holds todo r b next) : m.locked = true ∧ Holder d m p.2.1 i r b := by
  have hlocked : m.locked = true := by
    by_contra hfree
    have hnone := (h.free (by simpa using hfree)).2 i
    rw [hi] at hnone
    exact hnone trivial
  obtain ⟨j, r', b', hholder⟩ := h.held hlocked
  obtain rfl : i = j := by
    by_contra hij
    have hnone := hholder.others i hij
    rw [hi] at hnone
    exact hnone trivial
  obtain ⟨todo', next', hi'⟩ := hholder.thread
  rw [hi] at hi'
  cases hi'
  exact ⟨hlocked, hholder⟩

/-- The section of a thread goes on. -/
theorem Holder.goes (h : Holder d m s i r b) {b' : Prog Acc Res (Ans r)} {todo : List (ℓ → ℓ)}
    {next : Ans r → Prog Req Ans α}
    (hthreads : m'.threads = Function.update m.threads i (.holds todo r b' next))
    (hrun : b'.run d.access () m'.data = b.run d.access () m.data) : Holder d m' s i r b' := by
  obtain ⟨b₀, hb₀, hsection⟩ := h.section_run
  refine ⟨⟨todo, next, ?_⟩, ⟨b₀, hb₀, hrun.trans hsection⟩, fun k hk => ?_⟩
  · rw [hthreads, Function.update_self]
  · rw [hthreads, Function.update_of_ne hk]
    exact h.others k hk

/-- What a thread has still to do does not change by a step within it. -/
theorem prog_update {p : Pool ι Req Ans α (σ × τ)} (h : ∀ i, p.1 i = (m.threads i).prog)
    (hi : (m.threads i).prog = t.prog) (hthreads : m'.threads = Function.update m.threads i t) :
    ∀ j, p.1 j = (m'.threads j).prog := by
  intro j
  rw [hthreads]
  by_cases hj : j = i
  · rw [hj, Function.update_self, ← hi, h i]
  · rw [Function.update_of_ne hj, h j]

/-- A request is done with. -/
theorem prog_serve {p p' : Pool ι Req Ans α (σ × τ)} (h : ∀ i, p.1 i = (m.threads i).prog)
    (hp' : p'.1 = Function.update p.1 i t.prog)
    (hthreads : m'.threads = Function.update m.threads i t) : ∀ j, p'.1 j = (m'.threads j).prog := by
  intro j
  rw [hthreads, hp']
  by_cases hj : j = i
  · rw [hj, Function.update_self, Function.update_self]
  · rw [Function.update_of_ne hj, Function.update_of_ne hj, h j]

theorem not_holds_update (h : ∀ i, ¬ (m.threads i).Holds) (ht : ¬ t.Holds)
    (hthreads : m'.threads = Function.update m.threads i t) : ∀ j, ¬ (m'.threads j).Holds := by
  intro j
  rw [hthreads]
  by_cases hj : j = i
  · rwa [hj, Function.update_self]
  · rw [Function.update_of_ne hj]
    exact h j

/-- **A step is one of the programs**, where it is done with a request, or else none of theirs. -/
theorem Serialises.step (h : Serialises d m p) (hstep : Step d m l m') :
    match l.event with
    | none => Serialises d m' p
    | some e => ∃ p', Pool.Step d.serve p e p' ∧ Serialises d m' p' := by
  cases hstep with
  | @other i tries r next k hi hr =>
    have hask : p.1 i = .ask r next := by rw [h.threads i, hi]; rfl
    have hserve := serve_other hr k p.2
    rw [h.rest] at hserve
    have hpool : Pool.Step d.serve (p.1, p.2) _ _ := Pool.Step.serve k hask
    rw [hserve] at hpool
    have hwaits : ¬ (m.threads i).Holds := by rw [hi]; exact id
    refine ⟨_, hpool, prog_serve h.threads rfl rfl, rfl, fun hfree => ?_, fun hheld => ?_⟩
    · exact ⟨(h.free hfree).1, not_holds_update (h.free hfree).2 id rfl⟩
    · obtain ⟨j, r', b', hholder⟩ := h.held hheld
      exact ⟨j, r', b', hholder.waits hwaits id rfl rfl⟩
  | @fails i tries r next b hi hb hlocked =>
    have hwaits : ¬ (m.threads i).Holds := by rw [hi]; exact id
    refine ⟨prog_update h.threads (by rw [hi]; rfl) rfl, h.rest, fun hfree => ?_, fun hheld => ?_⟩
    · exact absurd (hlocked.symm.trans hfree) (by decide)
    · obtain ⟨j, r', b', hholder⟩ := h.held hheld
      exact ⟨j, r', b', hholder.waits hwaits id rfl rfl⟩
  | @acquires i tries r next b hi hb hlocked =>
    obtain ⟨hdata, hnone⟩ := h.free hlocked
    refine ⟨prog_update h.threads (by rw [hi]; rfl) rfl, h.rest, fun hfree => ?_, fun _ => ?_⟩
    · exact Bool.noConfusion hfree
    · -- the section begins with the data as they are
      refine ⟨i, r, b, ⟨_, next, setThread_self⟩, ⟨b, hb, ?_⟩, fun j hj => ?_⟩
      · rw [hdata]
        rfl
      · exact (setThread_of_ne (m := m) hj).symm ▸ hnone j
  | @counts i count todo r next b hi =>
    obtain ⟨hlocked, hholder⟩ := h.holder hi
    refine ⟨prog_update h.threads (by rw [hi]; rfl) rfl, h.rest, fun hfree => ?_, fun _ => ?_⟩
    · exact absurd (hlocked.symm.trans hfree) (by decide)
    · exact ⟨i, r, b, hholder.goes rfl rfl⟩
  | @accesses i r next a go hi =>
    obtain ⟨hlocked, hholder⟩ := h.holder hi
    refine ⟨prog_update h.threads (by rw [hi]; rfl) rfl, h.rest, fun hfree => ?_, fun _ => ?_⟩
    · exact absurd (hlocked.symm.trans hfree) (by decide)
    · exact ⟨i, r, _, hholder.goes rfl rfl⟩
  | @releases i r next x k hi =>
    obtain ⟨hlocked, hholder⟩ := h.holder hi
    obtain ⟨b₀, hb₀, hsection⟩ := hholder.section_run
    have hask : p.1 i = .ask r next := by rw [h.threads i, hi]; rfl
    -- the section ends with its answer and the data as they are
    have hserve := serve_body hb₀ k p.2
    rw [← hsection] at hserve
    have hpool : Pool.Step d.serve (p.1, p.2) _ _ := Pool.Step.serve k hask
    rw [hserve] at hpool
    refine ⟨_, hpool, prog_serve h.threads rfl rfl, h.rest, fun _ => ⟨rfl, fun j => ?_⟩,
      fun hheld => Bool.noConfusion hheld⟩
    show ¬ ((m.setThread i (.waits 0 (next x))).threads j).Holds
    by_cases hj : j = i
    · rw [hj, setThread_self]
      exact id
    · rw [setThread_of_ne hj]
      exact hholder.others j hj

/-! ## Runs -/

variable {progs : ι → Prog Req Ans α} {c₀ : ℓ} {s₀ : σ} {t₀ : τ} {ls : List (Label ι κ Req Ans)}

omit [DecidableEq ι] in
theorem serialises_start : Serialises d (LockMachine.start progs c₀ s₀ t₀) (progs, (s₀, t₀)) :=
  ⟨fun _ => rfl, rfl, fun _ => ⟨rfl, fun _ => id⟩, fun hheld => Bool.noConfusion hheld⟩

/-- **Critical sections are single steps.** A run of the threads, access by access, is a run of the programs
in which each section is carried out in one step, in the order of the releases. -/
theorem run_serialises (h : Run (Step d) (LockMachine.start progs c₀ s₀ t₀) ls m) :
    ∃ p, Run (Pool.Step d.serve) (progs, (s₀, t₀)) (ls.filterMap Label.event) p ∧
      Serialises d m p := by
  induction h with
  | nil => exact ⟨_, Run.nil _, serialises_start⟩
  | @snoc m m' ls l _ hstep ih =>
    obtain ⟨p, hrun, hp⟩ := ih
    have hnext := hp.step hstep
    rw [List.filterMap_append]
    cases hl : l.event with
    | none =>
      rw [hl] at hnext
      exact ⟨p, by rwa [List.filterMap_cons_none hl, List.filterMap_nil, List.append_nil], hnext⟩
    | some e =>
      rw [hl] at hnext
      obtain ⟨p', hpool, hp'⟩ := hnext
      refine ⟨p', ?_, hp'⟩
      rw [List.filterMap_cons_some hl, List.filterMap_nil]
      exact Run.snoc hrun hpool

/-- **Mutual exclusion.** One thread holds the lock, at most, and none while it is free. -/
theorem run_exclusive (h : Run (Step d) (LockMachine.start progs c₀ s₀ t₀) ls m)
    (hi : (m.threads i).Holds) : m.locked = true ∧ ∀ j, (m.threads j).Holds → j = i := by
  obtain ⟨p, -, hp⟩ := run_serialises h
  cases hthread : m.threads i with
  | waits =>
    rw [hthread] at hi
    exact hi.elim
  | holds todo r b next =>
    obtain ⟨hlocked, hholder⟩ := hp.holder hthread
    exact ⟨hlocked, fun j hj => by_contra fun hne => hholder.others j hne hj⟩

/-- **No deadlock.** A thread that is not done with its program goes on, or the one that has the lock
does. -/
theorem Serialises.progress (h : Serialises d m p) (k : κ) (hi : ∀ n a, m.threads i ≠ .waits n (.done a)) :
    ∃ l m', Step d m l m' ∧ ∀ j, l ≠ .fails j := by
  have hholds : ∀ j todo r b next, m.threads j = .holds todo r b next →
      ∃ l m', Step d m l m' ∧ ∀ j, l ≠ .fails j := by
    intro j todo r b next hj
    cases todo with
    | cons count todo => exact ⟨_, _, .counts hj, nofun⟩
    | nil =>
      cases b with
      | ask a go => exact ⟨_, _, .accesses hj, nofun⟩
      | done x => exact ⟨_, _, .releases k hj, nofun⟩
  cases hthread : m.threads i with
  | holds todo r b next => exact hholds i todo r b next hthread
  | waits n p =>
    cases p with
    | done a => exact absurd hthread (hi n a)
    | ask r next =>
      cases hb : d.body r with
      | none => exact ⟨_, _, .other k hthread hb, nofun⟩
      | some b =>
        cases hlocked : m.locked with
        | false => exact ⟨_, _, .acquires hthread hb hlocked, nofun⟩
        | true =>
          obtain ⟨j, r', b', ⟨todo, next', hj⟩, -, -⟩ := h.held hlocked
          exact hholds j todo r' b' next' hj

/-- A thread can be done with a request, with this answer, while the others wait. -/
def Answers (d : Discipline κ Req Acc Ans Res σ τ ℓ) (m : LockMachine ι Req Acc Ans Res α σ τ ℓ) (i : ι)
    (k : κ) (r : Req) (x : Ans r) (next : Ans r → Prog Req Ans α) : Prop :=
  ∃ ls m', Run (Step d) m ls m' ∧ m'.locked = false ∧ m'.threads i = .waits 0 (next x) ∧
    (∀ j, j ≠ i → m'.threads j = m.threads j) ∧ ls.filterMap Label.event = [⟨i, k, r, x⟩]

/-- A step within the request comes first. -/
theorem Answers.cons {k : κ} {x : Ans r} {next : Ans r → Prog Req Ans α} (h : Answers d m' i k r x next)
    (hstep : Step d m l m') (hl : l.event = none)
    (hothers : m'.threads = Function.update m.threads i t) : Answers d m i k r x next := by
  obtain ⟨ls, m'', hrun, hfree, hdone, hsame, hevents⟩ := h
  refine ⟨l :: ls, m'', Run.cons hstep hrun, hfree, hdone, fun j hj => ?_, ?_⟩
  · rw [hsame j hj, hothers, Function.update_of_ne hj]
  · rwa [List.filterMap_cons_none hl]

theorem answers_section {next : Ans r → Prog Req Ans α} (k : κ) (hi : m.threads i = .holds [] r b next) :
    Answers d m i k r (b.run d.access () m.data).1 next := by
  induction b generalizing m with
  | done x =>
    exact ⟨_, _, Run.single (.releases k hi), rfl, setThread_self, fun j hj => setThread_of_ne hj, rfl⟩
  | ask a go ih =>
    have hstep : Step d m (.accesses i) _ := .accesses hi
    exact Answers.cons (ih _ (Function.update_self i _ m.threads)) hstep rfl rfl

theorem answers_counts {todo : List (ℓ → ℓ)} {next : Ans r → Prog Req Ans α} (k : κ)
    (hi : m.threads i = .holds todo r b next) :
    Answers d m i k r (b.run d.access () m.data).1 next := by
  induction todo generalizing m with
  | nil => exact answers_section k hi
  | cons count todo ih =>
    have hstep : Step d m (.counts i) _ := .counts hi
    have hrest := @ih { m.setThread i (.holds todo r b next) with counts := count m.counts }
      (Function.update_self i _ m.threads)
    exact Answers.cons hrest hstep rfl rfl

/-- **A thread alone** carries out its critical section. -/
theorem answers_alone {n : ℕ} {next : Ans r → Prog Req Ans α} (k : κ)
    (hi : m.threads i = .waits n (.ask r next)) (hb : d.body r = some b) (hfree : m.locked = false) :
    Answers d m i k r (b.run d.access () m.data).1 next := by
  have hstep : Step d m (.acquires i n) _ := .acquires hi hb hfree
  have hself : ({ m.setThread i (.holds (d.book n) r b next) with locked := true } :
      LockMachine ι Req Acc Ans Res α σ τ ℓ).threads i = .holds (d.book n) r b next :=
    Function.update_self i _ m.threads
  have hrest := answers_counts (d := d) k hself
  exact Answers.cons hrest hstep rfl rfl

/-! ## What is counted -/

/-- The counts after some steps of counting. -/
def settle (todo : List (ℓ → ℓ)) (c : ℓ) : ℓ := todo.foldl (fun c count => count c) c

theorem settle_append (todo todo' : List (ℓ → ℓ)) (c : ℓ) :
    settle (todo ++ todo') c = settle todo' (settle todo c) := List.foldl_append ..

/-- What a run is to have counted. -/
def tally (d : Discipline κ Req Acc Ans Res σ τ ℓ) (ls : List (Label ι κ Req Ans)) (c : ℓ) : ℓ :=
  settle ((ls.filterMap Label.got).flatMap d.book) c

omit [DecidableEq ι] in
theorem tally_concat (ls : List (Label ι κ Req Ans)) (l : Label ι κ Req Ans) (c : ℓ) :
    tally d (ls ++ [l]) c = match l.got with
      | none => tally d ls c
      | some tries => settle (d.book tries) (tally d ls c) := by
  unfold tally
  rw [List.filterMap_append, List.flatMap_append, settle_append]
  cases hl : l.got with
  | none =>
    rw [List.filterMap_cons_none hl]
    rfl
  | some tries =>
    rw [List.filterMap_cons_some hl, List.filterMap_nil, List.flatMap_singleton]

omit [DecidableEq ι] in
theorem holds_of_eq {todo : List (ℓ → ℓ)} {next : Ans r → Prog Req Ans α}
    (hi : m.threads i = .holds todo r b next) : (m.threads i).Holds := by
  rw [hi]
  trivial

/-- A thread that holds the lock after a step is the one that took it, or held it before. -/
theorem setThread_holds {todo : List (ℓ → ℓ)} {next : Ans r → Prog Req Ans α}
    (hj : (m.setThread i t).threads j = .holds todo r b next) :
    (j = i ∧ t = .holds todo r b next) ∨ (j ≠ i ∧ m.threads j = .holds todo r b next) := by
  by_cases hji : j = i
  · rw [hji, setThread_self] at hj
    exact Or.inl ⟨hji, hj⟩
  · rw [setThread_of_ne hji] at hj
    exact Or.inr ⟨hji, hj⟩

/-- **What was counted.** Once the thread with the lock has counted its tries, and so whenever the lock is
free, each time the lock was taken is counted. -/
theorem run_counts (h : Run (Step d) (LockMachine.start progs c₀ s₀ t₀) ls m) :
    (m.locked = false → m.counts = tally d ls c₀) ∧
    ∀ i todo r b next, m.threads i = .holds todo r b next → settle todo m.counts = tally d ls c₀ := by
  induction h with
  | nil => exact ⟨fun _ => rfl, fun i todo r b next hi => by cases hi⟩
  | @snoc m m' ls l hprev hstep ih =>
    obtain ⟨hfree, hheld⟩ := ih
    rw [tally_concat]
    cases hstep with
    | other k hi hr =>
      refine ⟨hfree, fun j todo r b next hj => ?_⟩
      obtain ⟨-, ht⟩ | ⟨-, hj⟩ := setThread_holds hj
      · cases ht
      · exact hheld j todo r b next hj
    | fails hi hb hl =>
      refine ⟨hfree, fun j todo r b next hj => ?_⟩
      obtain ⟨-, ht⟩ | ⟨-, hj⟩ := setThread_holds hj
      · cases ht
      · exact hheld j todo r b next hj
    | acquires hi hb hl =>
      refine ⟨fun hf => Bool.noConfusion hf, fun j todo r b next hj => ?_⟩
      obtain ⟨-, ht⟩ | ⟨-, hj⟩ := setThread_holds hj
      · cases ht
        exact congrArg (settle _) (hfree hl)
      · exact Bool.noConfusion ((run_exclusive hprev (holds_of_eq hj)).1.symm.trans hl)
    | counts hi =>
      obtain ⟨hlocked, honly⟩ := run_exclusive hprev (holds_of_eq hi)
      refine ⟨fun hf => Bool.noConfusion (hlocked.symm.trans hf), fun j todo r b next hj => ?_⟩
      obtain ⟨-, ht⟩ | ⟨hne, hj⟩ := setThread_holds hj
      · cases ht
        exact hheld _ _ _ _ _ hi
      · exact absurd (honly j (holds_of_eq hj)) hne
    | accesses hi =>
      refine ⟨hfree, fun j todo r b next hj => ?_⟩
      obtain ⟨-, ht⟩ | ⟨hne, hj⟩ := setThread_holds hj
      · cases ht
        exact hheld _ _ _ _ _ hi
      · exact hheld j todo r b next hj
    | releases k hi =>
      obtain ⟨-, honly⟩ := run_exclusive hprev (holds_of_eq hi)
      refine ⟨fun _ => hheld _ _ _ _ _ hi, fun j todo r b next hj => ?_⟩
      obtain ⟨-, ht⟩ | ⟨hne, hj⟩ := setThread_holds hj
      · cases ht
      · exact absurd (honly j (holds_of_eq hj)) hne

/-! ## Tries -/

/-- The tries of a thread since its last request. -/
def Thread.tries : Thread Req Acc Ans Res α ℓ → Nat
  | .waits tries _ => tries
  | .holds .. => 0

/-- A step that does not get the lock. -/
def Label.failed : Label ι κ Req Ans → Bool
  | .fails _ => true
  | _ => false

/-- A thread that has tried still wants the lock. -/
def Thread.Wants (d : Discipline κ Req Acc Ans Res σ τ ℓ) : Thread Req Acc Ans Res α ℓ → Prop
  | .waits 0 _ => True
  | .waits (_ + 1) p => ∃ r next, p = .ask r next ∧ (d.body r).isSome
  | .holds .. => True

theorem Step.wants (hstep : Step d m l m') (h : ∀ i, (m.threads i).Wants d) :
    ∀ i, (m'.threads i).Wants d := by
  have hset : ∀ {i : ι} {t : Thread Req Acc Ans Res α ℓ}, t.Wants d →
      ∀ j, ((m.setThread i t).threads j).Wants d := by
    intro i t ht j
    by_cases hj : j = i
    · rwa [hj, setThread_self]
    · rw [setThread_of_ne hj]
      exact h j
  cases hstep with
  | other k hi hr => exact hset trivial
  | fails hi hb hl => exact hset ⟨_, _, rfl, hb ▸ rfl⟩
  | acquires hi hb hl => exact hset trivial
  | counts hi => exact hset trivial
  | accesses hi => exact hset trivial
  | releases k hi => exact hset trivial

theorem sum_tries_update [Fintype ι] (hthreads : m'.threads = Function.update m.threads i t) :
    (∑ j, (m'.threads j).tries) + (m.threads i).tries = (∑ j, (m.threads j).tries) + t.tries := by
  rw [← Finset.add_sum_erase _ _ (Finset.mem_univ i), ← Finset.add_sum_erase _ _ (Finset.mem_univ i),
    hthreads, Function.update_self]
  have hothers : ∑ j ∈ Finset.univ.erase i, (Function.update m.threads i t j).tries =
      ∑ j ∈ Finset.univ.erase i, (m.threads j).tries :=
    Finset.sum_congr rfl fun j hj => by rw [Function.update_of_ne (Finset.ne_of_mem_erase hj)]
  omega

@[simp] theorem tries_waits (n : Nat) (p : Prog Req Ans α) :
    (Thread.waits n p : Thread Req Acc Ans Res α ℓ).tries = n := rfl

@[simp] theorem tries_holds (todo : List (ℓ → ℓ)) (next : Ans r → Prog Req Ans α) :
    (Thread.holds todo r b next).tries = 0 := rfl

/-- A failed try is added to those of its thread, which are none again when it has the lock. -/
theorem Step.tries [Fintype ι] (hstep : Step d m l m') (h : ∀ i, (m.threads i).Wants d) :
    (∑ i, (m.threads i).tries) + (if l.failed then 1 else 0) =
      l.got.toList.sum + ∑ i, (m'.threads i).tries := by
  have hsum : ∀ {i t t'}, m.threads i = t → m'.threads = Function.update m.threads i t' →
      (∑ j, (m'.threads j).tries) + t.tries = (∑ j, (m.threads j).tries) + t'.tries :=
    fun hi hthreads => hi ▸ sum_tries_update hthreads
  cases hstep with
  | @other i n r next k hi hr =>
    -- a thread that asks for another request has not tried
    obtain rfl : n = 0 := by
      have hw := h i
      rw [hi] at hw
      cases n with
      | zero => rfl
      | succ n =>
        obtain ⟨r', next', hask, hb⟩ := hw
        cases hask
        rw [hr] at hb
        cases hb
    have hsum := hsum hi rfl
    simp [Label.failed, Label.got] at hsum ⊢
    omega
  | fails hi hb hl =>
    have hsum := hsum hi rfl
    simp [Label.failed, Label.got] at hsum ⊢
    omega
  | acquires hi hb hl =>
    have hsum := hsum hi rfl
    simp [Label.failed, Label.got] at hsum ⊢
    omega
  | counts hi =>
    have hsum := hsum hi rfl
    simp [Label.failed, Label.got] at hsum ⊢
    omega
  | accesses hi =>
    have hsum := hsum hi rfl
    simp [Label.failed, Label.got] at hsum ⊢
    omega
  | releases k hi =>
    have hsum := hsum hi rfl
    simp [Label.failed, Label.got] at hsum ⊢
    omega

/-- **Each failed try is one of a thread** that got the lock with it, or still waits. -/
theorem run_tries [Fintype ι] (h : Run (Step d) (LockMachine.start progs c₀ s₀ t₀) ls m) :
    ls.countP Label.failed = (ls.filterMap Label.got).sum + ∑ i, (m.threads i).tries := by
  have hwants : ∀ {ls m}, Run (Step d) (LockMachine.start progs c₀ s₀ t₀) ls m →
      ∀ i, (m.threads i).Wants d := fun hrun =>
    hrun.invariant (fun _ _ _ hw hstep => hstep.wants hw) fun _ => trivial
  induction h with
  | nil => simp [LockMachine.start]
  | @snoc m m' ls l hprev hstep ih =>
    have hstep := hstep.tries (hwants hprev)
    have hgot : ([l].filterMap Label.got).sum = l.got.toList.sum := by
      cases hl : l.got with
      | none => rw [List.filterMap_cons_none hl]; rfl
      | some n => rw [List.filterMap_cons_some hl]; rfl
    rw [List.countP_append, List.countP_singleton, List.filterMap_append, List.sum_append, hgot, ih]
    omega

end

end CriticalSections
