import Mathlib.Algebra.BigOperators.Group.Finset.Basic
import Mathlib.Algebra.BigOperators.Group.Finset.Piecewise
import Mathlib.Algebra.Order.BigOperators.Group.Finset
import Mathlib.Data.Fintype.BigOperators

/-!
# Reference counts

Objects that are listed until they are retired, and that clients hold through a count. A retired object
is freed with its last reference, and an object is created again only once it was freed.

## Main definitions

* `Status`, `Registry`: where each object is, its count, and who holds it
* `Registry.create`, `Registry.retain`, `Registry.release`, `Registry.retire`: the operations
* `Registry.Sound`: the counts are right, and nothing that is held, or due, is freed

## Main results

* `Sound.create`, `Sound.retain`, `Sound.release`, `Sound.retire`: each operation keeps it
* `Sound.holder`: a retired object that is not freed yet has a holder
* `Sound.freed_le`: an object is freed at most once each time it is created
-/

namespace RefCount

/-- Where an object is. -/
inductive Status
  /-- Not created, or freed. -/
  | absent
  | listed
  /-- Taken from the list, but not freed. -/
  | retired
  deriving DecidableEq

/-- The objects, and what each client holds of them. -/
@[ext] structure Registry (α κ : Type*) where
  status : α → Status
  count : α → Nat
  held : κ → List α
  /-- How often the object was created. -/
  created : α → Nat
  /-- How often it was freed. -/
  freed : α → Nat

variable {α κ : Type*} [DecidableEq α]

namespace Registry

/-! ## The list -/

def free (r : Registry α κ) (a : α) : Registry α κ :=
  { r with
    status := Function.update r.status a .absent
    freed := Function.update r.freed a (r.freed a + 1) }

def create (r : Registry α κ) (a : α) : Registry α κ :=
  { r with
    status := Function.update r.status a .listed
    count := Function.update r.count a 0
    created := Function.update r.created a (r.created a + 1) }

def retire (r : Registry α κ) (a : α) : Registry α κ :=
  let s := { r with status := Function.update r.status a .retired }
  if r.count a = 0 then s.free a else s

section Listing

variable (r : Registry α κ) (a b : α)

theorem create_status : (r.create a).status b = if b = a then .listed else r.status b := by
  simp [create, Function.update_apply]

theorem create_count : (r.create a).count b = if b = a then 0 else r.count b := by
  simp [create, Function.update_apply]

theorem create_created :
    (r.create a).created b = if b = a then r.created a + 1 else r.created b := by
  simp [create, Function.update_apply]

theorem retire_status : (r.retire a).status b =
    if b = a then (if r.count a = 0 then .absent else .retired) else r.status b := by
  unfold retire
  dsimp only
  split_ifs with hcount h h <;> simp_all [free]

theorem retire_count : (r.retire a).count b = r.count b := by
  unfold retire
  dsimp only
  split <;> rfl

theorem retire_held (j : κ) : (r.retire a).held j = r.held j := by
  unfold retire
  dsimp only
  split <;> rfl

theorem retire_created : (r.retire a).created b = r.created b := by
  unfold retire
  dsimp only
  split <;> rfl

theorem retire_freed : (r.retire a).freed b =
    if b = a ∧ r.count a = 0 then r.freed a + 1 else r.freed b := by
  unfold retire
  dsimp only
  split_ifs with hcount h h <;> simp_all [free]

end Listing

/-! ## The references -/

section Holding

variable [DecidableEq κ]

def retain (r : Registry α κ) (k : κ) (a : α) : Registry α κ :=
  { r with
    count := Function.update r.count a (r.count a + 1)
    held := Function.update r.held k (r.held k ++ [a]) }

/-- A client gives back the first of its references, and keeps the others. -/
def release (r : Registry α κ) (k : κ) (a : α) (rest : List α) : Registry α κ :=
  let s := { r with
    count := Function.update r.count a (r.count a - 1)
    held := Function.update r.held k rest }
  if r.status a = .retired ∧ r.count a - 1 = 0 then s.free a else s

variable (r : Registry α κ) (k : κ) (a b : α) (rest : List α)

theorem retain_count : (r.retain k a).count b = if b = a then r.count a + 1 else r.count b := by
  simp [retain, Function.update_apply]

theorem retain_held (j : κ) :
    (r.retain k a).held j = if j = k then r.held k ++ [a] else r.held j := by
  simp [retain, Function.update_apply]

/-- The last reference of a retired object is given back. -/
def LastRelease : Prop := r.status a = .retired ∧ r.count a - 1 = 0

instance decidableLastRelease : Decidable (r.LastRelease a) := inferInstanceAs (Decidable (_ ∧ _))

theorem release_status : (r.release k a rest).status b =
    if b = a ∧ r.LastRelease a then .absent else r.status b := by
  unfold release LastRelease
  dsimp only
  split_ifs with hlast h h <;> simp_all [free]

theorem release_count :
    (r.release k a rest).count b = if b = a then r.count a - 1 else r.count b := by
  unfold release
  dsimp only
  split <;> simp [free, Function.update_apply]

theorem release_held (j : κ) :
    (r.release k a rest).held j = if j = k then rest else r.held j := by
  unfold release
  dsimp only
  split <;> simp [free, Function.update_apply]

theorem release_created : (r.release k a rest).created b = r.created b := by
  unfold release
  dsimp only
  split <;> rfl

theorem release_freed : (r.release k a rest).freed b =
    if b = a ∧ r.LastRelease a then r.freed a + 1 else r.freed b := by
  unfold release LastRelease
  dsimp only
  split_ifs with hlast h h <;> simp_all [free]

end Holding

/-! ## What holds of them -/

/-- **What a registry keeps**: its counts count the references, what is held is not freed, a retired
object is held, and frees follow creations. -/
structure Sound [Fintype κ] (r : Registry α κ) : Prop where
  count : ∀ a, r.status a ≠ .absent → r.count a = ∑ k, (r.held k).count a
  held : ∀ k, ∀ a ∈ r.held k, r.status a ≠ .absent
  retired : ∀ a, r.status a = .retired → r.count a ≠ 0
  created : ∀ a, r.created a = r.freed a + if r.status a = .absent then 0 else 1

end Registry

open Registry

namespace Registry.Sound

variable [Fintype κ] {r : Registry α κ} {k : κ} {a : α}

/-- **A retired object that is not freed has a holder.** -/
theorem holder (h : r.Sound) (ha : r.status a = .retired) : ∃ k, a ∈ r.held k := by
  by_contra hnone
  push Not at hnone
  apply h.retired a ha
  -- without a holder the count would be 0
  rw [h.count a (by rw [ha]; exact nofun)]
  exact Finset.sum_eq_zero fun k _ => List.count_eq_zero.mpr (hnone k)

/-- **An object is freed at most once** each time it is created. -/
theorem freed_le (h : r.Sound) (a : α) :
    r.freed a ≤ r.created a ∧ r.created a ≤ r.freed a + 1 := by
  rw [h.created a]
  split <;> omega

theorem count_pos (h : r.Sound) (ha : a ∈ r.held k) : 0 < r.count a := by
  rw [h.count a (h.held k a ha)]
  apply Finset.sum_pos'
  · exact fun _ _ => Nat.zero_le _
  · exact ⟨k, Finset.mem_univ k, List.count_pos_iff.mpr ha⟩

/-- An object that is absent can be created. -/
theorem create (h : r.Sound) (ha : r.status a = .absent) : (r.create a).Sound := by
  have hnot : ∀ k, a ∉ r.held k := fun k hk => h.held k a hk ha
  constructor
  · intro b hb
    rw [create_count]
    rw [create_status] at hb
    split
    · -- nobody holds it yet
      rename_i he
      rw [he]
      exact (Finset.sum_eq_zero fun k _ => List.count_eq_zero.mpr (hnot k)).symm
    · rename_i he
      rw [if_neg he] at hb
      exact h.count b hb
  · intro k b hb
    rw [create_status]
    split
    · exact nofun
    · exact h.held k b hb
  · intro b hb
    rw [create_status] at hb
    rw [create_count]
    split
    · rename_i he
      rw [if_pos he] at hb
      cases hb
    · rename_i he
      rw [if_neg he] at hb
      exact h.retired b hb
  -- it is created now, and was not before
  · intro b
    rw [create_created, create_status]
    by_cases he : b = a
    · rw [if_pos he, if_pos he, if_neg nofun, he, h.created a, if_pos ha]
      rfl
    · rw [if_neg he, if_neg he]
      exact h.created b

/-- **An object is retired**, and freed if nobody holds it. -/
theorem retire (h : r.Sound) (ha : r.status a ≠ .absent) : (r.retire a).Sound := by
  constructor
  · intro b hb
    rw [retire_count]
    simp only [retire_held]
    apply h.count b
    rw [retire_status] at hb
    split at hb
    · rename_i he
      rw [he]
      exact ha
    · exact hb
  · intro j b hb
    rw [retire_held] at hb
    rw [retire_status]
    split
    · rename_i he
      rw [he] at hb
      -- a client holds it, so it is not freed yet
      rw [if_neg (h.count_pos hb).ne']
      exact nofun
    · exact h.held j b hb
  · intro b hb
    rw [retire_status] at hb
    rw [retire_count]
    split at hb
    · rename_i he
      rw [he]
      intro hzero
      rw [if_pos hzero] at hb
      cases hb
    · exact h.retired b hb
  · intro b
    rw [retire_created, retire_freed, retire_status, h.created b]
    by_cases he : b = a
    · rw [he, if_pos rfl, if_neg ha]
      by_cases hzero : r.count a = 0
      · rw [if_pos ⟨rfl, hzero⟩, if_pos hzero, if_pos rfl]
      · rw [if_neg fun hc => hzero hc.2, if_neg hzero, if_neg nofun]
    · rw [if_neg he, if_neg fun hc : b = a ∧ r.count a = 0 => he hc.1]

section Holding

variable [DecidableEq κ]

/-- Another list of references for one client. -/
theorem sum_count_update (held held' : κ → List α) (k : κ) (hother : ∀ j, j ≠ k → held' j = held j)
    (a : α) : (∑ j, (held' j).count a) + (held k).count a =
      (∑ j, (held j).count a) + (held' k).count a := by
  rw [← Finset.add_sum_erase _ (fun j => (held' j).count a) (Finset.mem_univ k),
    ← Finset.add_sum_erase _ (fun j => (held j).count a) (Finset.mem_univ k)]
  have hrest : ∑ j ∈ Finset.univ.erase k, (held' j).count a =
      ∑ j ∈ Finset.univ.erase k, (held j).count a :=
    Finset.sum_congr rfl fun j hj => by rw [hother j (Finset.ne_of_mem_erase hj)]
  rw [hrest]
  omega

/-- A client takes a reference. -/
theorem retain (h : r.Sound) (ha : r.status a ≠ .absent) (k : κ) : (r.retain k a).Sound := by
  constructor
  · intro b hb
    -- only the references of `k` change
    have hsum := sum_count_update r.held (r.retain k a).held k
      (fun j hj => by rw [retain_held, if_neg hj]) b
    rw [retain_held, if_pos rfl, List.count_append] at hsum
    have hcount := h.count b hb
    rw [retain_count]
    by_cases he : b = a
    · rw [he] at hsum hcount
      rw [List.count_singleton_self] at hsum
      rw [if_pos he, he]
      omega
    · have hzero : [a].count b = 0 :=
        List.count_eq_zero.mpr fun hm => he (List.mem_singleton.mp hm)
      rw [if_neg he]
      omega
  · intro j b hb
    rw [retain_held] at hb
    split at hb
    · rename_i hj
      rcases List.mem_append.mp hb with hb | hb
      · exact h.held k b hb
      · rw [List.mem_singleton.mp hb]
        exact ha
    · exact h.held j b hb
  · intro b hb
    rw [retain_count]
    split
    · exact Nat.succ_ne_zero _
    · exact h.retired b hb
  · exact h.created

/-- **A client gives back a reference**; with the last one a retired object is freed. -/
theorem release (h : r.Sound) {rest : List α} (hk : r.held k = a :: rest) :
    (r.release k a rest).Sound := by
  have hmem : a ∈ r.held k := by
    rw [hk]
    exact List.mem_cons_self
  have hpos := h.count_pos hmem
  -- a reference is taken away and none is added
  have hheld : ∀ j b, b ∈ (r.release k a rest).held j → b ∈ r.held j := by
    intro j b hb
    rw [release_held] at hb
    split at hb
    · rename_i hj
      rw [hj, hk]
      exact List.mem_cons_of_mem _ hb
    · exact hb
  -- one reference less is held, and one less is counted
  have hcount : ∀ b, r.status b ≠ .absent → (r.release k a rest).count b =
      ∑ j, ((r.release k a rest).held j).count b := by
    intro b hb
    have hsum := sum_count_update r.held (r.release k a rest).held k
      (fun j hj => by rw [release_held, if_neg hj]) b
    have hold := h.count b hb
    rw [release_held, if_pos rfl, hk, List.count_cons] at hsum
    rw [release_count]
    by_cases he : b = a
    · rw [he] at hsum hold
      rw [beq_self_eq_true, if_pos rfl] at hsum
      rw [if_pos he, he]
      omega
    · rw [if_neg (by rw [beq_iff_eq]; exact fun hc => he hc.symm)] at hsum
      rw [if_neg he]
      omega
  constructor
  · intro b hb
    apply hcount b
    rw [release_status] at hb
    split at hb
    · exact absurd rfl hb
    · exact hb
  · intro j b hb
    rw [release_status]
    split
    · -- what is freed has no reference left
      rename_i hlast
      obtain ⟨rfl, hretired, hzero⟩ := hlast
      have hnone := hcount b (by rw [hretired]; exact nofun)
      rw [release_count, if_pos rfl, hzero] at hnone
      have hcell := Finset.sum_eq_zero_iff.mp hnone.symm j (Finset.mem_univ j)
      exact absurd hb (List.count_eq_zero.mp hcell)
    · exact h.held j b (hheld j b hb)
  · intro b hb
    rw [release_status] at hb
    rw [release_count]
    split at hb
    · cases hb
    · rename_i hnot
      split
      · rename_i he
        rw [he] at hb
        exact fun hzero => hnot ⟨he, hb, hzero⟩
      · exact h.retired b hb
  -- what has been created is alive or freed: the last release moves it from one to the other
  · intro b
    rw [release_created, release_freed, release_status, h.created b]
    by_cases hlast : b = a ∧ r.LastRelease a
    · rw [if_pos hlast, if_pos hlast, hlast.1, if_neg (by rw [hlast.2.1]; exact nofun), if_pos rfl]
    · rw [if_neg hlast, if_neg hlast]

end Holding

end Registry.Sound

end RefCount
