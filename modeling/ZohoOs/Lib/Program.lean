import ZohoOs.Lib.TransitionSystem
import Mathlib.Logic.Function.Basic

/-!
# Programs that make requests

A program asks its environment one request after the other and goes on with each answer. One program
is run by a server with a state. Several programs share a server: each step serves one request of one
of them, so that their requests interleave in any order.

## Main definitions

* `Prog`: the programs, a monad
* `Server`, `Prog.run`: a server, and the run of one program
* `Prog.transcript`: the requests of a run, with their answers
* `Prog.eval`: the result of a program whose answers are given by a function of the requests
* `Prog.Asks`: every request of a program meets a condition
* `Prog.Ensures`: whatever the answers are, a program keeps a condition and ends in another
* `Event`, `Pool.Step`: the steps of programs that share a server
* `Prog.serveEach`: one program, with a choice of the server for each request

## Main results

* `Prog.ensures_bind`: one program after the other
* `Prog.run_eq_eval`: a server whose answers are known, and the result of a program it serves
* `Pool.Step.cases`: what a step does
* `Pool.run_map`: a server that stands for another one
* `Pool.run_each`: programs that make one request after the other
-/

namespace Program

open TransitionSystem

/-- Programs that make requests `Req`, each with its type of answers, and return an `α`. -/
inductive Prog (Req : Type) (Ans : Req → Type) (α : Type) : Type
  | done (a : α)
  | ask (r : Req) (next : Ans r → Prog Req Ans α)

/-- A server with states `σ`. Its answer may depend on a choice `κ` that its state does not
determine. -/
abbrev Server (κ : Type) (Req : Type) (Ans : Req → Type) (σ : Type) :=
  κ → (r : Req) → σ → Ans r × σ

namespace Prog

variable {κ Req σ α β : Type} {Ans : Req → Type}

def bind : Prog Req Ans α → (α → Prog Req Ans β) → Prog Req Ans β
  | .done a, f => f a
  | .ask r next, f => .ask r fun a => (next a).bind f

instance instMonad : Monad (Prog Req Ans) where
  pure := .done
  bind := bind

/-- The program that makes one request. -/
def request (r : Req) : Prog Req Ans (Ans r) := .ask r .done

@[simp] theorem pure_eq (a : α) : (pure a : Prog Req Ans α) = .done a := rfl

@[simp] theorem done_bind (a : α) (f : α → Prog Req Ans β) : (Prog.done a >>= f) = f a := rfl

@[simp] theorem ask_bind (r : Req) (next : Ans r → Prog Req Ans α) (f : α → Prog Req Ans β) :
    (Prog.ask r next >>= f) = .ask r fun a => next a >>= f := rfl

@[simp] theorem request_bind (r : Req) (f : Ans r → Prog Req Ans β) :
    (request r >>= f) = .ask r f := rfl

/-! ## One program -/

/-- The result of a program, and the state it leaves, where the server makes one choice throughout. -/
def run (serve : Server κ Req Ans σ) (k : κ) : Prog Req Ans α → σ → α × σ
  | .done a, s => (a, s)
  | .ask r next, s => (next (serve k r s).1).run serve k (serve k r s).2

theorem run_bind (serve : Server κ Req Ans σ) (k : κ) (p : Prog Req Ans α)
    (f : α → Prog Req Ans β) (s : σ) :
    (p >>= f).run serve k s = (f (p.run serve k s).1).run serve k (p.run serve k s).2 := by
  induction p generalizing s with
  | done a => rfl
  | ask r next ih => exact ih _ _

/-- The requests of a run, with their answers. -/
def transcript (serve : Server κ Req Ans σ) (k : κ) : Prog Req Ans α → σ → List ((r : Req) × Ans r)
  | .done _, _ => []
  | .ask r next, s => ⟨r, (serve k r s).1⟩ :: (next (serve k r s).1).transcript serve k (serve k r s).2

theorem transcript_bind (serve : Server κ Req Ans σ) (k : κ) (p : Prog Req Ans α)
    (f : α → Prog Req Ans β) (s : σ) : (p >>= f).transcript serve k s =
      p.transcript serve k s ++ (f (p.run serve k s).1).transcript serve k (p.run serve k s).2 := by
  induction p generalizing s with
  | done a => rfl
  | ask r next ih => exact congrArg (List.cons _) (ih _ _)

/-- The result of a program with these answers. -/
def eval (answer : ∀ r, Ans r) : Prog Req Ans α → α
  | .done a => a
  | .ask r next => (next (answer r)).eval answer

theorem eval_bind (answer : ∀ r, Ans r) (p : Prog Req Ans α) (f : α → Prog Req Ans β) :
    (p >>= f).eval answer = (f (p.eval answer)).eval answer := by
  induction p with
  | done a => rfl
  | ask r next ih => exact ih _

/-- Every request of the program meets `P`. -/
def Asks (P : Req → Prop) : Prog Req Ans α → Prop
  | .done _ => True
  | .ask r next => P r ∧ ∀ a, (next a).Asks P

theorem Asks.bind {P : Req → Prop} {p : Prog Req Ans α} {f : α → Prog Req Ans β} (h : p.Asks P)
    (hf : ∀ a, (f a).Asks P) : (p >>= f).Asks P := by
  induction p with
  | done a => exact hf a
  | ask r next ih => exact ⟨h.1, fun a => ih a (h.2 a)⟩

theorem Asks.mono {P Q : Req → Prop} {p : Prog Req Ans α} (h : p.Asks P) (hPQ : ∀ r, P r → Q r) :
    p.Asks Q := by
  induction p with
  | done a => trivial
  | ask r next ih => exact ⟨hPQ r h.1, fun a => ih a (h.2 a)⟩

theorem asks_of_forall {P : Req → Prop} (h : ∀ r, P r) (p : Prog Req Ans α) : p.Asks P := by
  induction p with
  | done a => trivial
  | ask r next ih => exact ⟨h r, ih⟩

/-- Whatever is answered, as the relation allows, the program keeps `I` and ends in `post`. -/
def Ensures (serves : (r : Req) → Ans r → σ → σ → Prop) (I : σ → Prop) (post : α → σ → Prop) :
    Prog Req Ans α → σ → Prop
  | .done a, s => post a s
  | .ask r next, s => ∀ a s', serves r a s s' → I s' ∧ (next a).Ensures serves I post s'

/-- **One program after the other.** -/
theorem ensures_bind {serves : (r : Req) → Ans r → σ → σ → Prop} {I : σ → Prop} {post : β → σ → Prop}
    {p : Prog Req Ans α} {f : α → Prog Req Ans β} {s : σ} : (p >>= f).Ensures serves I post s ↔
      p.Ensures serves I (fun a s => (f a).Ensures serves I post s) s := by
  induction p generalizing s with
  | done a => rfl
  | ask r next ih =>
    exact forall_congr' fun a => forall_congr' fun s' => imp_congr_right fun _ =>
      and_congr_right fun _ => ih a

/-- **Known answers.** Where an invariant of the server determines its answers, they determine the
result of a program. -/
theorem run_eq_eval {serve : Server κ Req Ans σ} {k : κ} {answer : ∀ r, Ans r} {P : Req → Prop}
    {I : σ → Prop}
    (hserve : ∀ r s, P r → I s → (serve k r s).1 = answer r ∧ I (serve k r s).2)
    {p : Prog Req Ans α} (hp : p.Asks P) {s : σ} (hs : I s) :
    (p.run serve k s).1 = p.eval answer ∧ I (p.run serve k s).2 := by
  induction p generalizing s with
  | done a => exact ⟨rfl, hs⟩
  | ask r next ih =>
    obtain ⟨hanswer, hkeep⟩ := hserve r s hp.1 hs
    rw [run, eval, ← hanswer]
    exact ih _ (hp.2 _) hkeep

/-- **Kept by the requests, kept by the run.** -/
theorem run_keeps {serve : Server κ Req Ans σ} {k : κ} {P : Req → Prop} {I : σ → Prop}
    (hserve : ∀ r s, P r → I s → I (serve k r s).2) {p : Prog Req Ans α} (hp : p.Asks P) {s : σ} (hs : I s) :
    I (p.run serve k s).2 := by
  induction p generalizing s with
  | done a => exact hs
  | ask r next ih => exact ih _ (hp.2 _) (hserve r s hp.1 hs)

end Prog

/-! ## Many programs -/

/-- A request that was served: whose it was, the choice of the server, and the answer. -/
structure Event (ι κ Req : Type) (Ans : Req → Type) where
  who : ι
  choice : κ
  req : Req
  ans : Ans req

/-- Programs that share a server: what each has still to do, and the state of the server. -/
abbrev Pool (ι Req : Type) (Ans : Req → Type) (α σ : Type) := (ι → Prog Req Ans α) × σ

variable {ι κ Req α σ : Type} {Ans : Req → Type}

/-- One request is served. -/
inductive Pool.Step [DecidableEq ι] (serve : Server κ Req Ans σ) :
    Pool ι Req Ans α σ → Event ι κ Req Ans → Pool ι Req Ans α σ → Prop
  | serve {progs : ι → Prog Req Ans α} {s : σ} {i : ι} {r : Req} {next : Ans r → Prog Req Ans α}
      (k : κ) : progs i = .ask r next →
      Pool.Step serve (progs, s) ⟨i, k, r, (serve k r s).1⟩
        (Function.update progs i (next (serve k r s).1), (serve k r s).2)

section Steps

variable [DecidableEq ι] {serve : Server κ Req Ans σ} {p p' : Pool ι Req Ans α σ}
  {e : Event ι κ Req Ans}

/-- **What a step does**: the program that asked goes on with the answer, the others are as they
were. -/
theorem Pool.Step.cases (h : Pool.Step serve p e p') : ∃ next,
    p.1 e.who = .ask e.req next ∧ serve e.choice e.req p.2 = (e.ans, p'.2) ∧
      p'.1 e.who = next e.ans ∧ ∀ i, i ≠ e.who → p'.1 i = p.1 i := by
  cases h with
  | serve k hask =>
    exact ⟨_, hask, rfl, Function.update_self _ _ _, fun i hi => Function.update_of_ne hi _ _⟩

/-- The event determines the step. -/
theorem Pool.Step.unique {p'' : Pool ι Req Ans α σ} (h : Pool.Step serve p e p')
    (h' : Pool.Step serve p e p'') : p' = p'' := by
  obtain ⟨next, hask, hserve, hnext, hother⟩ := h.cases
  obtain ⟨next', hask', hserve', hnext', hother'⟩ := h'.cases
  rw [hask] at hask'
  cases hask'
  refine Prod.ext (funext fun i => ?_) ?_
  · by_cases hi : i = e.who
    · rw [hi, hnext, hnext']
    · rw [hother i hi, hother' i hi]
  · exact (Prod.mk.inj (hserve.symm.trans hserve')).2

/-- The requests of one program served one after the other, with the choice of the server for each; and what
is left of it. -/
def Prog.serveEach (serve : Server κ Req Ans σ) :
    List κ → Prog Req Ans α → σ → List (Event Unit κ Req Ans) × Prog Req Ans α × σ
  | k :: ks, .ask r next, s =>
    let rest := serveEach serve ks (next (serve k r s).1) (serve k r s).2
    (⟨(), k, r, (serve k r s).1⟩ :: rest.1, rest.2)
  | _, p, s => ([], p, s)

/-- **One program, choice by choice.** -/
theorem Pool.run_serveEach (serve : Server κ Req Ans σ) (ks : List κ) (p : Prog Req Ans α) (s : σ) :
    Run (Pool.Step serve) (fun _ => p, s) (p.serveEach serve ks s).1
      (fun _ => (p.serveEach serve ks s).2.1, (p.serveEach serve ks s).2.2) := by
  induction ks generalizing p s with
  | nil => exact Run.nil _
  | cons k ks ih =>
    cases p with
    | done a => exact Run.nil _
    | ask r next =>
      have hstep : Pool.Step serve (fun _ : Unit => Prog.ask r next, s) _ _ := Pool.Step.serve (i := ()) k rfl
      rw [show Function.update (fun _ : Unit => Prog.ask r next) () (next (serve k r s).1) =
        fun _ => next (serve k r s).1 from funext fun _ => Function.update_self ..] at hstep
      exact Run.cons hstep (ih _ _)

/-- **A server that stands for another one** serves the same runs. -/
theorem Pool.run_map {τ : Type} {serve' : Server κ Req Ans τ} {f : τ → σ}
    (hserve : ∀ k r t, serve k r (f t) = ((serve' k r t).1, f (serve' k r t).2))
    {progs : ι → Prog Req Ans α} {t : τ} {es : List (Event ι κ Req Ans)}
    (h : Run (Pool.Step serve) (progs, f t) es p) :
    ∃ t', Run (Pool.Step serve') (progs, t) es (p.1, t') ∧ p.2 = f t' := by
  have hsim : ∀ (q : Pool ι Req Ans α σ) e q' (q₂ : Pool ι Req Ans α τ),
      q = (q₂.1, f q₂.2) → Pool.Step serve q e q' →
        ∃ q₂', Pool.Step serve' q₂ e q₂' ∧ q' = (q₂'.1, f q₂'.2) := by
    rintro q e q' ⟨progs, t⟩ rfl hstep
    cases hstep with
    | @serve _ _ i r next k hask =>
      have hpool : Pool.Step serve' (progs, t) _ _ := Pool.Step.serve k hask
      rw [hserve]
      exact ⟨_, hpool, rfl⟩
  obtain ⟨⟨progs', t'⟩, hrun, rfl⟩ := h.simulation (T := Pool ι Req Ans α τ) hsim (t := (progs, t)) rfl
  exact ⟨t', hrun, rfl⟩

end Steps

/-- The program that makes some requests, whatever the answers. -/
def Prog.each : List Req → Prog Req Ans Unit
  | [] => .done ()
  | r :: rs => .ask r fun _ => each rs

/-- **Requests in their order**: in any interleaving, each program has made the first of its requests. -/
theorem Pool.run_each [DecidableEq ι] {serve : Server κ Req Ans σ} {reqs : ι → List Req} {s : σ}
    {es : List (Event ι κ Req Ans)} {p : Pool ι Req Ans Unit σ}
    (h : Run (Pool.Step serve) (fun i => Prog.each (reqs i), s) es p) (i : ι) :
    ∃ rest, p.1 i = Prog.each rest ∧
      (es.filter fun e => e.who = i).map Event.req ++ rest = reqs i := by
  induction h with
  | nil => exact ⟨reqs i, rfl, rfl⟩
  | @snoc p p' es e _ hstep ih =>
    obtain ⟨rest, hprog, hreqs⟩ := ih
    obtain ⟨next, hask, -, hnext, hother⟩ := hstep.cases
    rw [List.filter_append, List.map_append]
    by_cases hi : e.who = i
    · subst hi
      rw [hask] at hprog
      cases rest with
      | nil => cases hprog
      | cons r rest =>
        cases hprog
        refine ⟨rest, hnext, ?_⟩
        rw [List.filter_cons_of_pos (by simp), ← hreqs, List.append_assoc]
        rfl
    · refine ⟨rest, by rw [hother i (Ne.symm hi), hprog], ?_⟩
      rw [List.filter_cons_of_neg (by simpa using hi), ← hreqs]
      simp

end Program
