import ZohoOs.Lib.CriticalSections
import Mathlib.Data.Fintype.Card
import Mathlib.Data.List.Nodup

/-!
# The spinlocks of `lock.c`

`spin_lock` tries until it has set `locked`, and then counts: the acquisition, and where it had to try
again the contention and the tries. The counters are words of 64 bits, that other CPUs read at any moment.

A lock that is initialised is entered in a table of 64 by an index that is fetched and added to, and stored
afterwards, so that several CPUs may initialise their locks at once.

## Main definitions

* `SpinCounts`, `spinBook`: the counters, and what `spin_lock` does to them
* `LockRegistry`, `RegisterStep`: the table, and the steps of the CPUs that initialise locks
* `lockGetRegisteredCount`, `lockGetStats`: what is read from it

## Main results

* `spinLock_counts`: the counters, whenever the lock is free
* `registry_lists`: each lock is listed once, in the order of the indices
-/

namespace ZohoOs

open Program TransitionSystem CriticalSections

/-! ## The counters -/

/-- The counters of `spinlock_t`. -/
structure SpinCounts where
  acquisitions : BitVec 64
  contentions : BitVec 64
  spinLoops : BitVec 64
  deriving DecidableEq

/-- What `spin_lock` does once it has the lock, for the rounds of its loop: one
`__sync_fetch_and_add` after the other. -/
def spinBook (tries : Nat) : List (SpinCounts → SpinCounts) :=
  let spins := BitVec.ofNat 64 tries
  (fun c => { c with acquisitions := c.acquisitions + 1 }) ::
    if spins ≠ 0 then
      [fun c => { c with contentions := c.contentions + 1 },
        fun c => { c with spinLoops := c.spinLoops + spins }]
    else []

/-- The rounds of the loop are more than none, as `spins` has them. -/
def contended (tries : Nat) : Bool := tries % 2 ^ 64 ≠ 0

theorem settle_spinBook (tries : Nat) (c : SpinCounts) :
    settle (spinBook tries) c = ⟨c.acquisitions + 1,
      c.contentions + BitVec.ofNat 64 (if contended tries then 1 else 0),
      c.spinLoops + BitVec.ofNat 64 tries⟩ := by
  have hspins : BitVec.ofNat 64 tries ≠ 0 ↔ contended tries = true := by
    rw [contended, decide_eq_true_iff, ne_eq, ne_eq, ← BitVec.toNat_inj, BitVec.toNat_ofNat]
    rfl
  by_cases htries : contended tries = true
  · rw [spinBook, if_pos (hspins.mpr htries), htries]
    rfl
  · rw [spinBook, if_neg fun h => htries (hspins.mp h), if_neg htries,
      show BitVec.ofNat 64 tries = 0 from not_not.mp fun h => htries (hspins.mp h)]
    simp [settle]

/-- The counters after the lock was taken with these numbers of tries. -/
theorem settle_spinBooks (gots : List Nat) (c : SpinCounts) :
    settle (gots.flatMap spinBook) c = ⟨c.acquisitions + BitVec.ofNat 64 gots.length,
      c.contentions + BitVec.ofNat 64 (gots.countP contended),
      c.spinLoops + BitVec.ofNat 64 gots.sum⟩ := by
  induction gots generalizing c with
  | nil => simp [settle]
  | cons tries gots ih =>
    rw [List.flatMap_cons, settle_append, ih, settle_spinBook, List.length_cons, List.countP_cons,
      List.sum_cons, Nat.add_comm gots.length 1, Nat.add_comm (gots.countP contended)]
    simp only [BitVec.ofNat_add, BitVec.add_assoc]
    rfl

section Counts

variable {ι κ Req Acc α σ τ : Type} {Ans : Req → Type} {Res : Acc → Type} [DecidableEq ι] [Fintype ι]
  {d : Discipline κ Req Acc Ans Res σ τ SpinCounts} {progs : ι → Prog Req Ans α} {c₀ : SpinCounts}
  {s₀ : σ} {t₀ : τ} {ls : List (Label ι κ Req Ans)}
  {m : LockMachine ι Req Acc Ans Res α σ τ SpinCounts}

/-- **The counters of a lock**, whenever it is free: how often it was taken, how often a thread that took
it had to wait, and the tries that failed, but for those of the threads that wait still. -/
theorem spinLock_counts (hbook : d.book = spinBook)
    (h : Run (Step d) (LockMachine.start progs c₀ s₀ t₀) ls m) (hfree : m.locked = false) :
    m.counts.acquisitions = c₀.acquisitions + BitVec.ofNat 64 (ls.filterMap Label.got).length ∧
    m.counts.contentions =
      c₀.contentions + BitVec.ofNat 64 ((ls.filterMap Label.got).countP contended) ∧
    m.counts.spinLoops + BitVec.ofNat 64 (∑ i, (m.threads i).tries) =
      c₀.spinLoops + BitVec.ofNat 64 (ls.countP Label.failed) := by
  have hcounts := (run_counts h).1 hfree
  rw [tally, hbook, settle_spinBooks] at hcounts
  rw [hcounts]
  refine ⟨rfl, rfl, ?_⟩
  rw [run_tries h, BitVec.ofNat_add, BitVec.add_assoc]

end Counts

/-- A lock around a counter, that each request increments. -/
def sampleLock : Discipline Unit Unit Unit (fun _ => Unit) (fun _ => Unit) Nat Unit SpinCounts where
  access _ _ n := ((), n + 1)
  body _ := some (.request ())
  other _ _ t := ((), t)
  book := spinBook

/-- Two CPUs take the lock; the second one fails once. -/
def sampleLockLabels : List (Label Bool Unit Unit fun _ => Unit) :=
  [.acquires false 0, .fails true, .counts false, .accesses false, .releases ⟨false, (), (), ()⟩,
    .acquires true 1, .counts true, .counts true, .counts true, .accesses true,
    .releases ⟨true, (), (), ()⟩]

theorem sampleLock_run : ∃ m, Run (Step sampleLock)
    (LockMachine.start (fun _ : Bool => Prog.request ()) ⟨0, 0, 0⟩ 0 ()) sampleLockLabels m ∧
      m.locked = false :=
  ⟨_, Run.cons (.acquires (b := .request ()) rfl rfl rfl) <|
    Run.cons (.fails (b := .request ()) rfl rfl rfl) <| Run.cons (.counts rfl) <|
    Run.cons (.accesses rfl) <| Run.cons (.releases () rfl) <|
    Run.cons (.acquires (b := .request ()) rfl rfl rfl) <| Run.cons (.counts rfl) <|
    Run.cons (.counts rfl) <| Run.cons (.counts rfl) <| Run.cons (.accesses rfl) <|
    Run.single (.releases () rfl), rfl⟩

theorem spinLock_counts_sample : ∃ m, Run (Step sampleLock)
    (LockMachine.start (fun _ : Bool => Prog.request ()) ⟨0, 0, 0⟩ 0 ()) sampleLockLabels m ∧
      m.locked = false ∧ m.counts.acquisitions = 0 + 2 ∧ m.counts.contentions = 0 + 1 ∧
      m.counts.spinLoops + BitVec.ofNat 64 (∑ i, (m.threads i).tries) = 0 + 1 := by
  obtain ⟨m, hrun, hfree⟩ := sampleLock_run
  exact ⟨m, hrun, hfree, spinLock_counts rfl hrun hfree⟩

/-! ## The registry -/

/-- `registered_locks` and `registered_lock_count`. -/
structure LockRegistry (L : Type) where
  locks : Fin 64 → Option L
  count : BitVec 32

/-- `registered_locks[index] = lock`, where there is such an entry. -/
def LockRegistry.store {L : Type} (r : LockRegistry L) (index : BitVec 32) (lock : L) : LockRegistry L :=
  if h : index.toNat < 64 then { r with locks := Function.update r.locks ⟨index.toNat, h⟩ (some lock) }
  else r

/-- A CPU that is to initialise some locks: between two calls of `spin_init_named`, or within one, with the
index it was given. -/
inductive Initialiser (L : Type)
  | between (locks : List L)
  | fetched (lock : L) (index : BitVec 32) (locks : List L)

structure RegistryMachine (ι L : Type) where
  registry : LockRegistry L
  cpus : ι → Initialiser L

inductive RegistryLabel (ι L : Type)
  | fetches (i : ι) (lock : L)
  | stores (i : ι)

/-- The lock that is given an index. -/
def RegistryLabel.lock {ι L : Type} : RegistryLabel ι L → Option L
  | .fetches _ lock => some lock
  | .stores _ => none

/-- **The steps of `spin_init_named`**: `__sync_fetch_and_add`, and the store. -/
inductive RegisterStep {ι L : Type} [DecidableEq ι] :
    RegistryMachine ι L → RegistryLabel ι L → RegistryMachine ι L → Prop
  | fetches {s : RegistryMachine ι L} {i : ι} {lock : L} {locks : List L} :
      s.cpus i = .between (lock :: locks) → RegisterStep s (.fetches i lock)
        ⟨{ s.registry with count := s.registry.count + 1 },
          Function.update s.cpus i (.fetched lock s.registry.count locks)⟩
  | stores {s : RegistryMachine ι L} {i : ι} {lock : L} {index : BitVec 32} {locks : List L} :
      s.cpus i = .fetched lock index locks → RegisterStep s (.stores i)
        ⟨s.registry.store index lock, Function.update s.cpus i (.between locks)⟩

/-- `lock_get_registered_count`. -/
def lockGetRegisteredCount {L : Type} (r : LockRegistry L) : BitVec 32 :=
  if r.count < 64 then r.count else 64

/-- `lock_get_stats`, where `stats` are what the locks hold. -/
def lockGetStats {L S : Type} (r : LockRegistry L) (stats : L → S) (index : BitVec 32) : Option S :=
  if h : index < lockGetRegisteredCount r then
    (r.locks ⟨index.toNat, by
      unfold lockGetRegisteredCount at h
      split at h <;> bv_omega⟩).map stats
  else none

/-- The lines of `shell_print_lock_stats`. -/
def lockStatsLines {L S : Type} (r : LockRegistry L) (stats : L → S) : List S :=
  (List.range (lockGetRegisteredCount r).toNat).filterMap fun i => lockGetStats r stats (BitVec.ofNat 32 i)

section Registry

variable {ι L S : Type} [DecidableEq ι] {s s' : RegistryMachine ι L} {order : List L} {i j : ι}
  {lock lock' : L} {index index' : BitVec 32} {locks locks' : List L} {l : RegistryLabel ι L}
  {ls : List (RegistryLabel ι L)}

/-- The entries are those of the order in which indices were given, but for those that a CPU has not stored
yet. -/
structure RegistryMachine.Lists (s : RegistryMachine ι L) (order : List L) : Prop where
  count : s.registry.count = BitVec.ofNat 32 order.length
  fetched : ∀ i lock index locks, s.cpus i = .fetched lock index locks → order[index.toNat]? = some lock
  entries : ∀ k lock, s.registry.locks k = some lock → order[k.val]? = some lock
  stored : ∀ k, s.registry.locks k = none → k.val < order.length →
    ∃ i lock index locks, s.cpus i = .fetched lock index locks ∧ index.toNat = k.val

/-- A CPU that was given an index, after another one took a step. -/
theorem update_fetched {c : Initialiser L} (hj : Function.update s.cpus i c j = .fetched lock index locks) :
    (j = i ∧ c = .fetched lock index locks) ∨ (j ≠ i ∧ s.cpus j = .fetched lock index locks) := by
  by_cases hji : j = i
  · rw [hji, Function.update_self] at hj
    exact Or.inl ⟨hji, hj⟩
  · rw [Function.update_of_ne hji] at hj
    exact Or.inr ⟨hji, hj⟩

theorem getElem?_append_some {a b : List L} {k : Nat} (h : a[k]? = some lock) :
    (a ++ b)[k]? = some lock := by
  rw [List.getElem?_append_left (List.getElem?_eq_some_iff.mp h).1, h]

theorem RegistryMachine.Lists.step (h : s.Lists order) (hstep : RegisterStep s l s')
    (hlen : order.length < 2 ^ 32) : s'.Lists (order ++ l.lock.toList) := by
  cases hstep with
  | @fetches i lock locks hi =>
    -- the index is the end of the order
    have hindex : s.registry.count.toNat = order.length := by
      rw [h.count, BitVec.toNat_ofNat, Nat.mod_eq_of_lt hlen]
    refine ⟨?_, fun j lock' index locks' hj => ?_, fun k lock' hk => ?_, fun k hk hlt => ?_⟩
    · simp only [RegistryLabel.lock, Option.toList_some, List.length_append, List.length_singleton]
      rw [h.count, BitVec.ofNat_add]
      rfl
    · obtain ⟨-, hc⟩ | ⟨-, hj⟩ := update_fetched hj
      · cases hc
        rw [hindex]
        exact List.getElem?_concat_length
      · exact getElem?_append_some (h.fetched _ _ _ _ hj)
    · exact getElem?_append_some (h.entries k lock' hk)
    · rw [RegistryLabel.lock, Option.toList_some, List.length_append, List.length_singleton] at hlt
      rcases Nat.lt_or_ge k.val order.length with hold | hnew
      · obtain ⟨j, lock', index, locks', hj, hindex'⟩ := h.stored k hk hold
        have hji : j ≠ i := by
          rintro rfl
          rw [hi] at hj
          cases hj
        exact ⟨j, lock', index, locks', (Function.update_of_ne hji ..).trans hj, hindex'⟩
      · exact ⟨i, lock, _, locks, Function.update_self .., by omega⟩
  | @stores i lock index locks hi =>
    rw [RegistryLabel.lock, Option.toList_none, List.append_nil]
    have hentry : ∀ k : Fin 64, (s.registry.store index lock).locks k =
        if index.toNat = k.val then some lock else s.registry.locks k := by
      intro k
      unfold LockRegistry.store
      split
      · next hlt =>
        by_cases hk : index.toNat = k.val
        · rw [if_pos hk, show k = ⟨index.toNat, hlt⟩ from Fin.ext hk.symm]
          exact Function.update_self ..
        · rw [if_neg hk]
          exact Function.update_of_ne (fun heq => hk (congrArg Fin.val heq).symm) ..
      · rw [if_neg (by omega)]
    have hcount : (s.registry.store index lock).count = s.registry.count := by
      unfold LockRegistry.store
      split <;> rfl
    refine ⟨hcount.trans h.count, fun j lock' index' locks' hj => ?_, fun k lock' hk => ?_,
      fun k hk hlt => ?_⟩
    · obtain ⟨-, hc⟩ | ⟨-, hj⟩ := update_fetched hj
      · cases hc
      · exact h.fetched _ _ _ _ hj
    · rw [hentry] at hk
      split at hk
      · next heq =>
        rw [← heq, ← Option.some.inj hk]
        exact h.fetched i lock index locks hi
      · exact h.entries k lock' hk
    · rw [hentry] at hk
      split at hk
      · cases hk
      · next hne =>
        obtain ⟨j, lock', index', locks', hj, hindex'⟩ := h.stored k hk hlt
        have hji : j ≠ i := by
          rintro rfl
          rw [hi] at hj
          cases hj
          exact hne hindex'
        exact ⟨j, lock', index', locks', (Function.update_of_ne hji ..).trans hj, hindex'⟩

/-- The table before any lock is initialised. -/
def bootRegistry (cpus : ι → List L) : RegistryMachine ι L :=
  ⟨⟨fun _ => none, 0⟩, fun i => .between (cpus i)⟩

omit [DecidableEq ι] in
theorem bootRegistry_lists (cpus : ι → List L) : (bootRegistry cpus).Lists [] :=
  ⟨rfl, fun _ _ _ _ hi => (by cases hi), fun _ _ hk => (by cases hk), fun _ _ hlt => absurd hlt (by simp)⟩

theorem registry_run {cpus : ι → List L} (h : Run RegisterStep (bootRegistry cpus) ls s)
    (hlen : (ls.filterMap RegistryLabel.lock).length < 2 ^ 32) :
    s.Lists (ls.filterMap RegistryLabel.lock) := by
  induction h with
  | nil => exact bootRegistry_lists cpus
  | @snoc s s' ls l _ hstep ih =>
    rw [List.filterMap_append] at hlen ⊢
    have hprev : (ls.filterMap RegistryLabel.lock).length < 2 ^ 32 := by
      rw [List.length_append] at hlen
      omega
    have hlock : [l].filterMap RegistryLabel.lock = l.lock.toList := by
      cases l <;> rfl
    rw [hlock]
    exact (ih hprev).step hstep hprev

/-! ## What is listed -/

theorem filterMap_range_getElem? (l : List L) (n : Nat) :
    (List.range n).filterMap (fun i => l[i]?) = l.take n := by
  induction n with
  | zero => rfl
  | succ n ih =>
    rw [List.range_succ, List.filterMap_append, ih, List.take_add_one, List.filterMap_cons]
    cases l[n]? <;> rfl

/-- Where some are left out, what is left is in their order. -/
theorem filterMap_sublist {α : Type} {f g : α → Option S} (l : List α)
    (h : ∀ a ∈ l, f a = none ∨ f a = g a) : (l.filterMap f).Sublist (l.filterMap g) := by
  induction l with
  | nil => exact List.Sublist.refl _
  | cons a l ih =>
    have ih := ih fun b hb => h b (List.mem_cons_of_mem _ hb)
    rcases h a List.mem_cons_self with hnone | heq
    · rw [List.filterMap_cons_none hnone]
      cases hg : g a with
      | none => rwa [List.filterMap_cons_none hg]
      | some b =>
        rw [List.filterMap_cons_some hg]
        exact ih.cons b
    · cases hg : g a with
      | none => rwa [List.filterMap_cons_none (heq.trans hg), List.filterMap_cons_none hg]
      | some b =>
        rw [List.filterMap_cons_some (heq.trans hg), List.filterMap_cons_some hg]
        exact ih.cons_cons b

omit [DecidableEq ι] in
theorem RegistryMachine.Lists.registeredCount (h : s.Lists order) (hlen : order.length < 2 ^ 32) :
    (lockGetRegisteredCount s.registry).toNat = min order.length 64 := by
  have hcount : s.registry.count.toNat = order.length := by
    rw [h.count, BitVec.toNat_ofNat, Nat.mod_eq_of_lt hlen]
  unfold lockGetRegisteredCount
  split <;> bv_omega

omit [DecidableEq ι] in
theorem RegistryMachine.Lists.getStats (h : s.Lists order) (hlen : order.length < 2 ^ 32) (stats : L → S)
    {k : Nat} (hk : k < min order.length 64) : ∃ h64 : k < 64,
      lockGetStats s.registry stats (BitVec.ofNat 32 k) = (s.registry.locks ⟨k, h64⟩).map stats := by
  have hcount := h.registeredCount hlen
  have hnat : (BitVec.ofNat 32 k).toNat = k := by
    rw [BitVec.toNat_ofNat]
    omega
  refine ⟨by omega, ?_⟩
  rw [lockGetStats, dif_pos (by rw [BitVec.lt_def]; omega)]
  simp only [hnat]

/-- **The locks that are listed.** While CPUs initialise their locks in any interleaving, `lock_get_stats`
lists locks that were given an index, in the order of the indices and each at most once for it; and when no
CPU is within `spin_init_named`, the first 64 of them all. -/
theorem registry_lists {cpus : ι → List L} (h : Run RegisterStep (bootRegistry cpus) ls s)
    (hlen : (ls.filterMap RegistryLabel.lock).length < 2 ^ 32) (stats : L → S) :
    (lockGetRegisteredCount s.registry).toNat = min (ls.filterMap RegistryLabel.lock).length 64 ∧
    (lockStatsLines s.registry stats).Sublist (((ls.filterMap RegistryLabel.lock).take 64).map stats) ∧
    ((∀ i, ∃ locks, s.cpus i = .between locks) →
      lockStatsLines s.registry stats = ((ls.filterMap RegistryLabel.lock).take 64).map stats) := by
  have hlists := registry_run h hlen
  generalize ls.filterMap RegistryLabel.lock = order at hlen hlists ⊢
  have hcount := hlists.registeredCount hlen
  have hall : (order.take 64).map stats =
      (List.range (min order.length 64)).filterMap fun k => (order[k]?).map stats := by
    rw [← List.map_filterMap, filterMap_range_getElem?, List.take_eq_take_min, Nat.min_comm]
  refine ⟨hcount, ?_, fun hquiet => ?_⟩
  · rw [lockStatsLines, hcount, hall]
    refine filterMap_sublist _ fun k hk => ?_
    obtain ⟨h64, hstats⟩ := hlists.getStats hlen stats (List.mem_range.mp hk)
    rw [hstats]
    cases hentry : s.registry.locks ⟨k, h64⟩ with
    | none => exact Or.inl rfl
    | some lock => exact Or.inr (congrArg (Option.map stats) (hlists.entries _ _ hentry).symm)
  · rw [lockStatsLines, hcount, hall]
    refine List.filterMap_congr fun k hk => ?_
    have hk := List.mem_range.mp hk
    obtain ⟨h64, hstats⟩ := hlists.getStats hlen stats hk
    rw [hstats]
    cases hentry : s.registry.locks ⟨k, h64⟩ with
    | some lock => rw [hlists.entries _ _ hentry]
    | none =>
      -- its CPU would be within the call
      obtain ⟨i, lock, index, locks, hi, -⟩ := hlists.stored _ hentry (lt_of_lt_of_le hk (min_le_left ..))
      obtain ⟨locks', hbetween⟩ := hquiet i
      rw [hbetween] at hi
      cases hi

end Registry

/-- Two CPUs initialise a lock each; the second one stores first. -/
theorem registry_lists_sample : ∃ s, Run RegisterStep (bootRegistry fun i : Bool => [i])
    [.fetches false false, .fetches true true, .stores true, .stores false] s ∧ 2 < 2 ^ 32 ∧
    (lockGetRegisteredCount s.registry).toNat = min 2 64 ∧
    (lockStatsLines s.registry id).Sublist ([false, true].map id) ∧
    ((∀ i, ∃ locks, s.cpus i = .between locks) →
      lockStatsLines s.registry id = [false, true].map id) := by
  have hrun : ∃ s, Run RegisterStep (bootRegistry fun i : Bool => [i])
      [.fetches false false, .fetches true true, .stores true, .stores false] s :=
    ⟨_, Run.cons (@RegisterStep.fetches _ _ _ _ _ _ [] rfl) <|
      Run.cons (@RegisterStep.fetches _ _ _ _ _ _ [] rfl) <|
      Run.cons (@RegisterStep.stores _ _ _ _ _ true 1 [] rfl) <|
      Run.single (@RegisterStep.stores _ _ _ _ _ false 0 [] rfl)⟩
  obtain ⟨s, hrun⟩ := hrun
  exact ⟨s, hrun, by decide, registry_lists hrun (by decide) id⟩

end ZohoOs
