import Mathlib.Data.List.Basic
import Mathlib.Algebra.Order.Ring.Int

/-!
# Text in rows of a width

A text is laid out in rows, of which a screen shows the last ones. A character that ends a line begins a new
row, and so does one for which its row is too short.

## Main definitions

* `TextPage`, `TextPage.put`: the rows of a text, and a character that is put behind it
* `TextPage.cell`: what a screen of some rows shows

## Main results

* `TextPage.cell_newline`, `TextPage.cell_scroll`: a new row, where the screen has room and where it scrolls
* `TextPage.cell_type`: a character in its row
* `putAll_rows`: the rows hold the characters of the text, and are no longer than the width
-/

namespace WrappedText

variable {α : Type*}

/-- The rows of a text: those that are complete, and the one it ends in. -/
structure TextPage (α : Type*) where
  above : List (List α)
  current : List α

namespace TextPage

variable (p : TextPage α)

def rows : List (List α) := p.above ++ [p.current]

def empty : TextPage α := ⟨[], []⟩

/-- A new row. -/
def newline : TextPage α := ⟨p.above ++ [p.current], []⟩

/-- A character in the row the text ends in. -/
def type (c : α) : TextPage α := ⟨p.above, p.current ++ [c]⟩

/-- A character, where `nl` ends a line and rows have `w` characters at most. -/
def put [DecidableEq α] (w : ℕ) (nl : α) (c : α) : TextPage α :=
  if c = nl then p.newline
  else if w ≤ p.current.length then p.newline.type c
  else p.type c

/-- What a screen of `h` rows shows in a column of a row: the last rows, from its top on. -/
def cell (h r c : ℕ) : Option α := p.rows[p.rows.length - h + r]?.bind (·[c]?)

/-- No row is longer than the width. -/
def Fits (w : ℕ) : Prop := ∀ row ∈ p.rows, row.length ≤ w

variable {p} {w h r c : ℕ} {a nl : α}

@[simp] theorem rows_newline : p.newline.rows = p.rows ++ [[]] := rfl

@[simp] theorem length_rows : p.rows.length = p.above.length + 1 := by
  rw [rows, List.length_append, List.length_singleton]

/-- A new row on a screen that has room for it. -/
theorem cell_newline (hroom : p.rows.length < h) : p.newline.cell h r c = p.cell h r c := by
  rw [cell, cell, rows_newline, List.length_append, List.length_singleton,
    show p.rows.length + 1 - h = 0 by omega, show p.rows.length - h = 0 by omega, Nat.zero_add]
  rcases lt_trichotomy r p.rows.length with hlt | rfl | hgt
  · rw [List.getElem?_append_left hlt]
  · rw [List.getElem?_append_right le_rfl, Nat.sub_self, List.getElem?_eq_none le_rfl]
    rfl
  · rw [List.getElem?_eq_none (by rw [List.length_append, List.length_singleton]; exact hgt),
      List.getElem?_eq_none hgt.le]

/-- A new row on a screen that is full: the others move up. -/
theorem cell_scroll (hfull : h ≤ p.rows.length) (hr : r < h) :
    p.newline.cell h r c = if r + 1 < h then p.cell h (r + 1) c else none := by
  rw [cell, cell, rows_newline, List.length_append, List.length_singleton,
    show p.rows.length + 1 - h + r = p.rows.length - h + (r + 1) by omega]
  split
  · rw [List.getElem?_append_left (by omega)]
  · rw [show p.rows.length - h + (r + 1) = p.rows.length by omega, List.getElem?_append_right le_rfl,
      Nat.sub_self]
    rfl

/-- The row of the screen that the text ends in. -/
def lastRow (p : TextPage α) (h : ℕ) : ℕ := min p.above.length (h - 1)

/-- A character is put behind the text. -/
theorem cell_type (hh : 0 < h) : (p.type a).cell h r c =
    if r = p.lastRow h ∧ c = p.current.length then some a else p.cell h r c := by
  have hlast : r = p.lastRow h ↔ p.rows.length - h + r = p.above.length := by
    rw [lastRow, length_rows]
    omega
  have hlen : (p.type a).rows.length = p.rows.length := by
    rw [length_rows, length_rows]
    rfl
  rw [cell, cell, hlen]
  show (p.above ++ [p.current ++ [a]])[_]?.bind _ = if _ then _ else (p.above ++ [p.current])[_]?.bind _
  rcases lt_trichotomy (p.rows.length - h + r) p.above.length with hlt | heq | hgt
  · rw [List.getElem?_append_left hlt, List.getElem?_append_left hlt,
      if_neg fun hc => hlt.ne (hlast.mp hc.1)]
  · rw [heq, List.getElem?_append_right le_rfl, List.getElem?_append_right le_rfl, Nat.sub_self]
    show (p.current ++ [a])[c]? = if _ then _ else p.current[c]?
    rcases lt_trichotomy c p.current.length with hlt | rfl | hgt
    · rw [List.getElem?_append_left hlt, if_neg fun hc => hlt.ne hc.2]
    · rw [List.getElem?_concat_length, if_pos ⟨hlast.mpr heq, rfl⟩]
    · rw [if_neg fun hc => hgt.ne' hc.2, List.getElem?_eq_none hgt.le, List.getElem?_eq_none]
      rw [List.length_append, List.length_singleton]
      exact hgt
  · rw [if_neg fun hc => hgt.ne' (hlast.mp hc.1), List.getElem?_eq_none, List.getElem?_eq_none]
    · rw [List.length_append, List.length_singleton]
      exact hgt
    · rw [List.length_append, List.length_singleton]
      exact hgt

/-! ## What the rows hold -/

theorem Fits.newline (h : p.Fits w) : p.newline.Fits w := by
  intro row hrow
  rw [rows_newline, List.mem_append, List.mem_singleton] at hrow
  rcases hrow with hrow | rfl
  · exact h row hrow
  · exact Nat.zero_le w

theorem Fits.current (h : p.Fits w) : p.current.length ≤ w :=
  h _ (List.mem_append_right _ (List.mem_singleton_self _))

theorem Fits.type (h : p.Fits w) (hroom : p.current.length < w) : (p.type a).Fits w := by
  intro row hrow
  rcases List.mem_append.mp hrow with hrow | hrow
  · exact h row (List.mem_append_left _ hrow)
  · rw [List.mem_singleton.mp hrow]
    show (p.current ++ [a]).length ≤ w
    rw [List.length_append, List.length_singleton]
    exact hroom

theorem flatten_type : (p.type a).rows.flatten = p.rows.flatten ++ [a] := by
  simp [rows, TextPage.type]

variable [DecidableEq α]

theorem Fits.put (h : p.Fits w) (hw : 0 < w) : (p.put w nl a).Fits w := by
  unfold TextPage.put
  split
  · exact h.newline
  · split
    · exact h.newline.type hw
    · next hroom => exact h.type (not_le.mp hroom)

/-- The rows hold the characters of the text, but for the ends of its lines. -/
theorem flatten_put : (p.put w nl a).rows.flatten = p.rows.flatten ++ if a = nl then [] else [a] := by
  have hnew : p.newline.rows.flatten = p.rows.flatten := by simp [rows, TextPage.newline]
  unfold TextPage.put
  split
  · rw [hnew, List.append_nil]
  · split
    · rw [flatten_type, hnew]
    · exact flatten_type

end TextPage

/-- A text that is put on a page. -/
def putAll [DecidableEq α] (w : ℕ) (nl : α) (text : List α) (p : TextPage α) : TextPage α :=
  text.foldl (fun p c => p.put w nl c) p

/-- **The rows of a text** hold its characters, and are no longer than the width. -/
theorem putAll_rows [DecidableEq α] {w : ℕ} (hw : 0 < w) (nl : α) (text : List α) {p : TextPage α}
    (hp : p.Fits w) : (putAll w nl text p).Fits w ∧
      (putAll w nl text p).rows.flatten = p.rows.flatten ++ text.filter (· ≠ nl) := by
  induction text generalizing p with
  | nil => exact ⟨hp, (List.append_nil _).symm⟩
  | cons c text ih =>
    obtain ⟨hfits, hflatten⟩ := ih (show (p.put w nl c).Fits w from hp.put hw)
    refine ⟨hfits, ?_⟩
    rw [putAll, List.foldl_cons]
    rw [putAll] at hflatten
    rw [hflatten, TextPage.flatten_put, List.append_assoc, List.filter_cons]
    by_cases hc : c = nl <;> simp [hc]

end WrappedText
