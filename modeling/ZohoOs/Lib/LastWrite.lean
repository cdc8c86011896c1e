import Mathlib.Logic.Function.Basic
import Mathlib.Data.List.Induction

/-!
# The last write wins

A map to which a list of writes is applied, each write to one key.

## Main definitions

* `writeAll`: the map after the writes
* `lastWrite`: the last write to a key

## Main results

* `writeAll_apply`: the map after the writes holds, at each key, the value of the last write to it
-/

namespace LastWrite

variable {ι κ β : Type*} [DecidableEq κ]

/-- The writes of a list, in order. -/
def writeAll (key : ι → κ) (val : ι → β) (m : κ → β) (writes : List ι) : κ → β :=
  writes.foldl (fun m x => Function.update m (key x) (val x)) m

/-- The last write to a key. -/
def lastWrite (key : ι → κ) (writes : List ι) (q : κ) : Option ι :=
  (writes.filter fun x => key x = q).getLast?

variable {key : ι → κ} {val : ι → β} {m : κ → β} {writes : List ι} {q : κ}

theorem writeAll_concat (x : ι) : writeAll key val m (writes ++ [x]) =
    Function.update (writeAll key val m writes) (key x) (val x) := by
  simp only [writeAll, List.foldl_append, List.foldl_cons, List.foldl_nil]

theorem lastWrite_concat (x : ι) : lastWrite key (writes ++ [x]) q =
    if key x = q then some x else lastWrite key writes q := by
  unfold lastWrite
  rw [List.filter_append]
  by_cases hx : key x = q
  · rw [if_pos hx, List.filter_cons_of_pos (by simpa using hx), List.filter_nil,
      List.getLast?_concat]
  · rw [if_neg hx, List.filter_cons_of_neg (by simpa using hx), List.filter_nil, List.append_nil]

/-- The last write of a second list hides those of the first. -/
theorem lastWrite_append (later : List ι) : lastWrite key (writes ++ later) q =
    (lastWrite key later q).or (lastWrite key writes q) := by
  unfold lastWrite
  rw [List.filter_append, List.getLast?_append]

theorem lastWrite_key {x : ι} (h : lastWrite key writes q = some x) : x ∈ writes ∧ key x = q := by
  have hmem := List.mem_of_getLast? h
  simpa using hmem

/-- **The last write to a key is what the map holds there.** -/
theorem writeAll_apply : writeAll key val m writes q =
    (lastWrite key writes q).elim (m q) val := by
  induction writes using List.reverseRecOn with
  | nil => rfl
  | append_singleton writes x ih =>
    rw [writeAll_concat, lastWrite_concat, Function.update_apply]
    by_cases hx : key x = q
    · rw [if_pos hx.symm, if_pos hx]
      rfl
    · rw [if_neg (Ne.symm hx), if_neg hx, ih]

end LastWrite
