import Mathlib.Data.List.Basic
import Mathlib.Order.Bounds.Basic

/-!
# Labelled transition systems

A system is a step relation on states, each step carrying the label of the operation that
took it. A run is a sequence of steps, recorded by its labels in order.

## Main definitions

* `Run step s ls t`: the run from `s` to `t` with labels `ls`
* `Restrict ok step`: the steps whose label meets a condition on the state before them
* `Apply f`, `Allowed ok f`: the steps of operations on states, and runs of them
* `ApplySome f`, `applyAll ok f`: the same for operations that are not defined everywhere

## Main results

* `Run.invariant`: what a step preserves, a run preserves
* `Run.always_iff`: a property of every state of a run, and the steps that break it
* `Run.isGreatest`: a value kept as the maximum is the largest of the run
* `Run.restrict`: a run whose labels all meet a condition
* `Run.of_append`, `Run.unique`: parts of a run, and runs with the same labels
* `Allowed.run`, `Allowed.at_prefix`: the run of a list of operations, and its steps
* `Run.simulation`: a stepwise simulation carries runs to runs
-/

namespace TransitionSystem

variable {S T L : Type*} {step : S → L → S → Prop}

/-- Runs of a step relation, with the labels of their steps in order. -/
inductive Run (step : S → L → S → Prop) : S → List L → S → Prop
  | nil (s : S) : Run step s [] s
  | snoc {s t u : S} {ls : List L} {l : L} :
      Run step s ls t → step t l u → Run step s (ls ++ [l]) u

/-- The steps of `step` whose label meets `ok` in the state before the step. -/
def Restrict (ok : S → L → Prop) (step : S → L → S → Prop) : S → L → S → Prop :=
  fun s l t => ok s l ∧ step s l t

/-- The deterministic step relation of an operation on states. -/
def Apply (f : L → S → S) : S → L → S → Prop := fun s l t => t = f l s

/-- **What a step preserves, a run preserves.** -/
theorem Run.invariant {I : S → Prop} (hstep : ∀ s l t, I s → step s l t → I t)
    {s t : S} {ls : List L} (h : Run step s ls t) (hs : I s) : I t := by
  induction h with
  | nil => exact hs
  | snoc _ hl ih => exact hstep _ _ _ ih hl

theorem Run.mono {step' : S → L → S → Prop} (hmono : ∀ s l t, step s l t → step' s l t)
    {s t : S} {ls : List L} (h : Run step s ls t) : Run step' s ls t := by
  induction h with
  | nil => exact Run.nil _
  | snoc _ hl ih => exact Run.snoc ih (hmono _ _ _ hl)

/-- A run whose labels all meet a condition. -/
theorem Run.restrict {ok : L → Prop} {s t : S} {ls : List L} (h : Run step s ls t)
    (hok : ∀ l ∈ ls, ok l) : Run (Restrict (fun _ l => ok l) step) s ls t := by
  induction h with
  | nil => exact Run.nil _
  | @snoc _ _ ls l _ hl ih =>
    refine Run.snoc (ih fun k hk => hok k (List.mem_append_left _ hk)) ⟨hok l ?_, hl⟩
    exact List.mem_append_right _ (List.mem_singleton_self l)

theorem Run.append {s t u : S} {ls ms : List L} (h : Run step s ls t) (k : Run step t ms u) :
    Run step s (ls ++ ms) u := by
  induction k with
  | nil => simpa using h
  | snoc _ hl ih => rw [← List.append_assoc]; exact Run.snoc ih hl

theorem Run.single {s t : S} {l : L} (h : step s l t) : Run step s [l] t :=
  Run.snoc (Run.nil s) h

theorem Run.eq_of_nil {s t : S} (h : Run step s [] t) : t = s := by
  generalize heq : ([] : List L) = ls at h
  cases h with
  | nil => rfl
  | snoc => simp at heq

theorem Run.of_single {s t : S} {l : L} (h : Run step s [l] t) : step s l t := by
  generalize heq : [l] = ls at h
  cases h with
  | nil => cases heq
  | @snoc u t ls k h hk =>
    cases ls with
    | nil =>
      obtain rfl := List.singleton_inj.mp heq
      exact h.eq_of_nil ▸ hk
    | cons => simp at heq

theorem Run.cons {s t u : S} {l : L} {ls : List L} (h : step s l t) (k : Run step t ls u) :
    Run step s (l :: ls) u := (Run.single h).append k

/-- A run over two lists of labels is a run over each. -/
theorem Run.of_append {s t : S} (ls ms : List L) (h : Run step s (ls ++ ms) t) :
    ∃ u, Run step s ls u ∧ Run step u ms t := by
  generalize heq : ls ++ ms = ks at h
  induction h generalizing ms with
  | nil =>
    obtain ⟨rfl, rfl⟩ := List.append_eq_nil_iff.mp heq
    exact ⟨s, Run.nil s, Run.nil s⟩
  | @snoc t u ks l h hl ih =>
    rcases List.eq_nil_or_concat' ms with rfl | ⟨ms, k, rfl⟩
    · rw [List.append_nil] at heq
      exact ⟨u, heq ▸ Run.snoc h hl, Run.nil u⟩
    · rw [← List.append_assoc] at heq
      obtain ⟨hks, hk⟩ := List.append_inj' heq rfl
      obtain ⟨v, hv, hrest⟩ := ih ms hks
      obtain rfl := List.singleton_inj.mp hk
      exact ⟨v, hv, Run.snoc hrest hl⟩

/-- Where a label determines the step, the labels determine the run. -/
theorem Run.unique (hdet : ∀ s l t t', step s l t → step s l t' → t = t') {s t t' : S}
    {ls : List L} (h : Run step s ls t) (k : Run step s ls t') : t = t' := by
  induction h generalizing t' with
  | nil => exact k.eq_of_nil.symm
  | @snoc t u ls l _ hl ih =>
    obtain ⟨v, hv, hlast⟩ := Run.of_append ls [l] k
    obtain rfl := ih hv
    exact hdet _ _ _ _ hl hlast.of_single

/-- **What holds in every state of a run, just if no step is bad.** The invariant `J` is kept by the
steps that are not bad, and a bad step from it is fatal. -/
theorem Run.always_iff {Good J : S → Prop} {Bad : S → L → Prop}
    (hdet : ∀ s l t t', step s l t → step s l t' → t = t') (hgood : ∀ s, J s → Good s)
    (hkeep : ∀ s l t, J s → step s l t → ¬ Bad s l → J t)
    (hbreak : ∀ s l t, J s → step s l t → Bad s l → ¬ Good t) {s t : S} {ls : List L} (hs : J s)
    (h : Run step s ls t) : (∀ pre u, pre <+: ls → Run step s pre u → Good u) ↔
      ∀ pre u l, pre ++ [l] <+: ls → Run step s pre u → ¬ Bad u l := by
  -- as long as no step was bad, the invariant holds
  have hinv : ∀ {ms u}, Run step s ms u →
      (∀ pre v l, pre ++ [l] <+: ms → Run step s pre v → ¬ Bad v l) → J u := by
    intro ms u hu hnone
    induction hu with
    | nil => exact hs
    | @snoc v w ms l hprev hl ih =>
      refine hkeep v l w (ih fun pre x k hpre => hnone pre x k ?_) hl
        (hnone ms v l (List.prefix_refl _) hprev)
      exact hpre.trans (List.prefix_append _ _)
  constructor
  · intro hall
    induction h with
    | nil => exact fun pre u l hpre => absurd (List.prefix_nil.mp hpre) (by simp)
    | @snoc v w ms l hprev hl ih =>
      have hnone := ih fun pre u hpre => hall pre u (hpre.trans (List.prefix_append _ _))
      intro pre u k hpre hu hbad
      rcases List.prefix_concat_iff.mp hpre with heq | hpre
      · -- the last step is the first bad one
        obtain ⟨rfl, hlast⟩ := List.append_inj' heq rfl
        obtain rfl := List.singleton_inj.mp hlast
        obtain rfl := hu.unique hdet hprev
        exact hbreak u k w (hinv hprev hnone) hl hbad
          (hall _ w (List.prefix_refl _) (Run.snoc hprev hl))
      · exact hnone pre u k hpre hu hbad
  -- without a bad step every state is a good one
  · exact fun hnone pre u hpre hu =>
      hgood u (hinv hu fun pre' v k hpre' => hnone pre' v k (hpre'.trans hpre))

/-- **A value that each step keeps as the maximum** is the largest of the states of the run. -/
theorem Run.isGreatest {α : Type*} [LinearOrder α] {f g : S → α} {J : S → Prop}
    (hdet : ∀ s l t t', step s l t → step s l t' → t = t')
    (hstep : ∀ s l t, J s → step s l t → J t ∧ g t = max (g s) (f t)) {s t : S} {ls : List L}
    (hs : J s) (hstart : g s = f s) (h : Run step s ls t) :
    IsGreatest {x | ∃ pre u, pre <+: ls ∧ Run step s pre u ∧ f u = x} (g t) := by
  have hinv : ∀ {ms u}, Run step s ms u → J u := fun hu =>
    hu.invariant (fun v l w hv hl => (hstep v l w hv hl).1) hs
  induction h with
  | nil =>
    refine ⟨⟨[], s, List.prefix_refl _, Run.nil s, hstart.symm⟩, ?_⟩
    rintro x ⟨pre, u, hpre, hu, rfl⟩
    obtain rfl := List.prefix_nil.mp hpre
    obtain rfl := hu.eq_of_nil
    exact hstart.ge
  | @snoc v w ms l hprev hl ih =>
    obtain ⟨⟨pre, u, hpre, hu, hmax⟩, hle⟩ := ih
    -- each step adds its value to the greatest one so far
    have hnew := (hstep v l w (hinv hprev) hl).2
    constructor
    · rcases le_total (g v) (f w) with hvw | hwv
      · exact ⟨_, w, List.prefix_refl _, Run.snoc hprev hl, (hnew.trans (max_eq_right hvw)).symm⟩
      · refine ⟨pre, u, hpre.trans (List.prefix_append _ _), hu, ?_⟩
        rw [hmax, hnew, max_eq_left hwv]
    · rintro x ⟨pre, u, hpre, hu, rfl⟩
      rw [hnew]
      rcases List.prefix_concat_iff.mp hpre with rfl | hpre
      · obtain rfl := hu.unique hdet (Run.snoc hprev hl)
        exact le_max_right _ _
      · exact (hle ⟨pre, u, hpre, hu, rfl⟩).trans (le_max_left _ _)

/-- Each operation of a list meets a condition in the state it is applied to. -/
def Allowed (ok : S → L → Prop) (f : L → S → S) : S → List L → Prop
  | _, [] => True
  | s, l :: ls => ok s l ∧ Allowed ok f (f l s) ls

instance Allowed.decidable (ok : S → L → Prop) [∀ s l, Decidable (ok s l)] (f : L → S → S) :
    (s : S) → (ls : List L) → Decidable (Allowed ok f s ls)
  | _, [] => inferInstanceAs (Decidable True)
  | s, l :: ls =>
    have := Allowed.decidable ok f (f l s) ls
    inferInstanceAs (Decidable (ok s l ∧ Allowed ok f (f l s) ls))

theorem Allowed.run {ok : S → L → Prop} {f : L → S → S} {s : S} {ls : List L}
    (h : Allowed ok f s ls) :
    Run (Restrict ok (Apply f)) s ls (ls.foldl (fun s l => f l s) s) := by
  induction ls generalizing s with
  | nil => exact Run.nil s
  | cons l ls ih => exact Run.cons ⟨h.1, rfl⟩ (ih h.2)

/-- The same, with a second condition. -/
theorem Allowed.run_restrict {ok ok' : S → L → Prop} {f : L → S → S} {s : S} {ls : List L}
    (h : Allowed (fun s l => ok s l ∧ ok' s l) f s ls) :
    Run (Restrict ok (Restrict ok' (Apply f))) s ls (ls.foldl (fun s l => f l s) s) :=
  h.run.mono fun _ _ _ hstep => ⟨hstep.1.1, hstep.1.2, hstep.2⟩

/-- What is met at each operation of a list is met where a run over the first of them has come to. -/
theorem Allowed.at_prefix {ok : S → L → Prop} {f : L → S → S} (hstep : ∀ s l t, step s l t → t = f l s)
    {s u : S} {ls pre : List L} {l : L} (h : Allowed ok f s ls) (hpre : pre ++ [l] <+: ls)
    (hrun : Run step s pre u) : ok u l := by
  induction pre generalizing s ls with
  | nil =>
    obtain ⟨rest, rfl⟩ := hpre
    obtain rfl := hrun.eq_of_nil
    exact h.1
  | cons k pre ih =>
    obtain ⟨rest, rfl⟩ := hpre
    obtain ⟨v, hfirst, hrest⟩ := Run.of_append [k] pre hrun
    obtain rfl := hstep _ _ _ hfirst.of_single
    exact ih h.2 (List.prefix_append _ rest) hrest

/-- The step relation of an operation that is not defined everywhere. -/
def ApplySome (f : L → S → Option S) : S → L → S → Prop := fun s l t => f l s = some t

/-- The state after some operations, where each is defined and meets a condition. -/
def applyAll (ok : S → L → Prop) [∀ s l, Decidable (ok s l)] (f : L → S → Option S) :
    S → List L → Option S
  | s, [] => some s
  | s, l :: ls => if ok s l then (f l s).bind fun t => applyAll ok f t ls else none

theorem applyAll_run {ok : S → L → Prop} [∀ s l, Decidable (ok s l)] {f : L → S → Option S}
    {s t : S} {ls : List L} (h : applyAll ok f s ls = some t) :
    Run (Restrict ok (ApplySome f)) s ls t := by
  induction ls generalizing s with
  | nil =>
    cases h
    exact Run.nil _
  | cons l ls ih =>
    rw [applyAll] at h
    split at h
    · rename_i hok
      obtain ⟨u, hu, hrest⟩ := Option.bind_eq_some_iff.mp h
      exact Run.cons ⟨hok, hu⟩ (ih hrest)
    · cases h

/-- **A stepwise simulation carries runs to runs**: related states stay related when the
second system takes the same labels. -/
theorem Run.simulation {step' : T → L → T → Prop} {R : S → T → Prop}
    (hsim : ∀ s l s' t, R s t → step s l s' → ∃ t', step' t l t' ∧ R s' t')
    {s s' : S} {ls : List L} (h : Run step s ls s') {t : T} (hR : R s t) :
    ∃ t', Run step' t ls t' ∧ R s' t' := by
  induction h with
  | nil => exact ⟨t, Run.nil t, hR⟩
  | snoc _ hl ih =>
    obtain ⟨t', hrun, hR'⟩ := ih
    obtain ⟨t'', hl', hR''⟩ := hsim _ _ _ _ hR' hl
    exact ⟨t'', Run.snoc hrun hl', hR''⟩

end TransitionSystem
