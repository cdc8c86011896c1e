import Mathlib.Algebra.Order.Ring.Int
import Mathlib.Data.List.GetD
import Mathlib.Logic.Function.Basic

/-!
# Texts in a buffer

A text stands at the start of a buffer. Characters are put behind it one at a time, as far as there is room
for them, and a stretch of it is turned around by exchanging its ends.

## Main definitions

* `overlay text base`: the buffer `base` with a text at its start
* `Spells read text`: what is read is the text and the character that ends it
* `mirror i j buf`: the buffer with the stretch from `i` to `j` turned around
* `Printed`, `cut`: a buffer and an index, and a text that is cut at some room

## Main results

* `mirror_swap`: an exchange of the ends, and the stretch between them
* `mirror_overlay`: a text that is turned around
* `cut_put`, `cut_append`: a character is put behind a cut text, and a text behind a full one
-/

namespace TextBuffer

variable {α : Type*}

/-! ## Overlays -/

/-- A buffer with a text at its start. -/
def overlay (text : List α) (base : ℕ → α) : ℕ → α := fun k => text.getD k (base k)

section Overlay

variable {text : List α} {base : ℕ → α} {k : ℕ}

theorem overlay_of_lt (h : k < text.length) : overlay text base k = text[k] :=
  List.getD_eq_getElem _ _ h

theorem overlay_of_le (h : text.length ≤ k) : overlay text base k = base k :=
  List.getD_eq_default _ _ h

/-- A character is put behind the text. -/
theorem update_overlay (c : α) :
    Function.update (overlay text base) text.length c = overlay (text ++ [c]) base := by
  funext k
  -- in front of the character, at its place, and behind it
  rcases Nat.lt_trichotomy k text.length with hlt | rfl | hgt
  · rw [Function.update_of_ne hlt.ne, overlay_of_lt hlt, overlay_of_lt (by simp; omega),
      List.getElem_append_left hlt]
  · rw [Function.update_self, overlay_of_lt (by simp), List.getElem_concat_length rfl]
  · rw [Function.update_of_ne hgt.ne', overlay_of_le hgt.le, overlay_of_le (by simp; omega)]

/-- The text in front of the last character. -/
theorem overlay_append_of_lt {later : List α} (h : k < text.length) :
    overlay (text ++ later) base k = text[k] := by
  rw [overlay_of_lt (by rw [List.length_append]; omega), List.getElem_append_left h]

theorem overlay_append_length {c : α} : overlay (text ++ [c]) base text.length = c := by
  rw [← update_overlay, Function.update_self]

end Overlay

/-! ## Texts that are read -/

/-- What is read is the text, and behind it the character `nul`, which is not in it. -/
structure Spells (nul : α) (read : ℕ → α) (text : List α) : Prop where
  chars : ∀ k (h : k < text.length), read k = text[k]
  ends : read text.length = nul
  clean : nul ∉ text

section Spells

variable {nul c : α} {read : ℕ → α} {text : List α}

/-- A text at the start of a buffer, with its end. -/
theorem Spells.overlay (base : ℕ → α) (h : nul ∉ text) :
    Spells nul (overlay (text ++ [nul]) base) text where
  chars _ hk := overlay_append_of_lt hk
  ends := overlay_append_length
  clean := h

theorem Spells.head_ne (h : Spells nul read (c :: text)) : read 0 = c ∧ c ≠ nul :=
  ⟨h.chars 0 (Nat.succ_pos _), fun heq => h.clean (heq ▸ List.mem_cons_self)⟩

/-- The text behind the first character. -/
theorem Spells.tail (h : Spells nul read (c :: text)) : Spells nul (fun k => read (k + 1)) text where
  chars k hk := h.chars (k + 1) (Nat.succ_lt_succ hk)
  ends := h.ends
  clean hmem := h.clean (List.mem_cons_of_mem _ hmem)

/-- What stands in a list in front of the first `nul`, or of its end. -/
theorem Spells.getD [DecidableEq α] (nul : α) (s : List α) :
    Spells nul (fun k => s.getD k nul) (s.takeWhile (· ≠ nul)) := by
  induction s with
  | nil => exact ⟨fun k hk => absurd hk (Nat.not_lt_zero k), rfl, List.not_mem_nil⟩
  | cons c s ih =>
    by_cases hc : c = nul
    · rw [List.takeWhile_cons_of_neg (by simpa using hc)]
      exact ⟨fun k hk => absurd hk (Nat.not_lt_zero k), hc, List.not_mem_nil⟩
    · rw [List.takeWhile_cons_of_pos (by simpa using hc)]
      refine ⟨fun k hk => ?_, ih.ends, fun hmem => ?_⟩
      · cases k with
        | zero => rfl
        | succ k => exact ih.chars k (Nat.lt_of_succ_lt_succ hk)
      · rcases List.mem_cons.mp hmem with rfl | hmem
        · exact hc rfl
        · exact ih.clean hmem

end Spells

/-! ## Stretches that are turned around -/

/-- The stretch from `i` to `j` turned around. -/
def mirror (i j : ℕ) (buf : ℕ → α) : ℕ → α := fun k => if i ≤ k ∧ k ≤ j then buf (i + j - k) else buf k

/-- The cells `i` and `j` exchanged. -/
def swap (i j : ℕ) (buf : ℕ → α) : ℕ → α :=
  Function.update (Function.update buf i (buf j)) j (buf i)

section Mirror

variable {i j : ℕ} {buf : ℕ → α}

theorem mirror_of_le (h : j ≤ i) : mirror i j buf = buf := by
  funext k
  rw [mirror]
  split
  · congr 1
    omega
  · rfl

/-- **The ends are exchanged**, and what is between them is turned around. -/
theorem mirror_swap (h : i < j) : mirror (i + 1) (j - 1) (swap i j buf) = mirror i j buf := by
  funext k
  -- both stretches turn around the same middle
  have hmiddle : i + 1 + (j - 1) - k = i + j - k := by omega
  rw [mirror, mirror, hmiddle, swap]
  rcases eq_or_ne k i with rfl | hi
  · rw [if_neg (by omega), if_pos (by omega), Function.update_of_ne h.ne, Function.update_self,
      Nat.add_sub_cancel_left]
  · rcases eq_or_ne k j with rfl | hj
    · rw [if_neg (by omega), if_pos (by omega), Function.update_self, Nat.add_sub_cancel]
    -- between the ends, or outside
    · by_cases hk : i ≤ k ∧ k ≤ j
      · rw [if_pos (by omega), if_pos hk, Function.update_of_ne (by omega), Function.update_of_ne (by omega)]
      · rw [if_neg (by omega), if_neg hk, Function.update_of_ne hj, Function.update_of_ne hi]

/-- **A text is turned around**, and what stands behind it stays. -/
theorem mirror_overlay (text later : List α) (base : ℕ → α) :
    mirror 0 (text.length - 1) (overlay (text ++ later) base) = overlay (text.reverse ++ later) base := by
  funext k
  rw [mirror]
  by_cases hk : k < text.length
  · rw [if_pos (by omega), overlay_append_of_lt (show 0 + (text.length - 1) - k < text.length by omega),
      overlay_append_of_lt (by rw [List.length_reverse]; exact hk), List.getElem_reverse]
    congr 1
    omega
  · have hlater : overlay (text ++ later) base k = overlay (text.reverse ++ later) base k := by
      rw [overlay, overlay, List.getD_append_right _ _ _ _ (Nat.not_lt.mp hk),
        List.getD_append_right _ _ _ _ (by rw [List.length_reverse]; exact Nat.not_lt.mp hk),
        List.length_reverse]
    -- an empty text is one cell that stays
    split
    · rw [← hlater]
      congr 1
      omega
    · exact hlater

end Mirror

/-! ## Texts that are cut -/

/-- A buffer, and where the next character goes. -/
structure Printed (α : Type*) where
  str : ℕ → α
  i : ℕ

/-- A character is put. -/
def Printed.put (c : α) (out : Printed α) : Printed α := ⟨Function.update out.str out.i c, out.i + 1⟩

/-- A text in a buffer, cut at some room. -/
def cut (base : ℕ → α) (room : ℕ) (text : List α) : Printed α :=
  ⟨overlay (text.take room) base, (text.take room).length⟩

section Cut

variable {base : ℕ → α} {room : ℕ} {text : List α}

theorem cut_i : (cut base room text).i = min room text.length := List.length_take

/-- There is room for a character. -/
theorem cut_put (c : α) (h : (cut base room text).i < room) :
    (cut base room text).put c = cut base room (text ++ [c]) := by
  have hlt : text.length < room := by
    rw [cut_i] at h
    omega
  rw [cut, cut, List.take_of_length_le hlt.le, List.take_of_length_le (by simp; omega), Printed.put,
    update_overlay, List.length_append, List.length_singleton]

/-- There is no room left. -/
theorem cut_append (later : List α) (h : ¬ (cut base room text).i < room) :
    cut base room (text ++ later) = cut base room text := by
  have hle : room ≤ text.length := by
    rw [cut_i] at h
    omega
  rw [cut, cut, List.take_append_of_le_length hle]

end Cut

end TextBuffer
