import ZohoOs.Lib.CopyRuns
import ZohoOs.Lib.WrappedText
import ZohoOs.Net.Packet

/-!
# The console

`vga.c` prints in the text memory of the screen. A row that is full is only left when the next character
comes, and the screen scrolls by a row. It shows the last 25 rows of the text printed since it was cleared.

## Main definitions

* `Vga`, `vgaClear`, `printNewline`, `printChar`, `vgaPrint`: the code
* `Vga.Shows`: the screen shows a page

## Main results

* `Vga.Shows.printChar`: a character is printed where it is put on the page
* `vgaPrint_shows`: the screen shows the last rows of what was printed
-/

namespace ZohoOs

open CopyRuns WrappedText

/-! ## The code -/

/-- `struct vga_char`. -/
structure VgaChar where
  character : Byte
  color : Byte
  deriving DecidableEq

/-- `NUM_COLS`. -/
def numCols : Nat := 80

/-- `NUM_ROWS`. -/
def numRows : Nat := 25

/-- A character in `color`, which is light gray on black. -/
def vgaChar (c : Byte) : VgaChar := ⟨c, 0x07⟩

/-- `VGA_BUFFER`, `col` and `row`. -/
structure Vga where
  buffer : Nat → VgaChar
  col : Nat
  row : Nat

/-- `vga_clear`. -/
def vgaClear (v : Vga) : Vga :=
  ⟨CopyRun.apply v.buffer ⟨0, numCols * numRows, fun _ => vgaChar 0x20⟩, 0, 0⟩

/-- The rows move up, one after the other. -/
def scrollRows (buffer : Nat → VgaChar) : Nat → Nat → VgaChar
  | 0 => buffer
  | r + 1 =>
    let moved := scrollRows buffer r
    CopyRun.apply moved ⟨r * numCols, numCols, fun c => moved ((r + 1) * numCols + c)⟩

/-- `print_newline`. -/
def printNewline (v : Vga) : Vga :=
  if v.row < numRows - 1 then { v with col := 0, row := v.row + 1 }
  else
    { v with
      col := 0
      buffer := CopyRun.apply (scrollRows v.buffer (numRows - 1))
        ⟨(numRows - 1) * numCols, numCols, fun _ => vgaChar 0x20⟩ }

/-- `print_char`. -/
def printChar (c : Byte) (v : Vga) : Vga :=
  if c = 0x0A then printNewline v
  else
    let v := if v.col ≥ numCols then printNewline v else v
    { v with
      buffer := Function.update v.buffer (v.row * numCols + v.col) (vgaChar c), col := v.col + 1 }

/-- `vga_print`. -/
def vgaPrint (str : List Byte) (v : Vga) : Vga := str.foldl (fun v c => printChar c v) v

/-! ## What the screen shows -/

section Screen

variable {v : Vga} {p : TextPage Byte} {c : Byte}

/-- A cell that shows a character, or none. -/
def shownChar (c : Option Byte) : VgaChar := vgaChar (c.getD 0x20)

/-- **The screen shows a page**, with the cursor behind its text. -/
structure Vga.Shows (v : Vga) (p : TextPage Byte) : Prop where
  row : v.row = p.lastRow numRows
  col : v.col = p.current.length
  fits : p.Fits numCols
  cells : ∀ r < numRows, ∀ c < numCols, v.buffer (r * numCols + c) = shownChar (p.cell numRows r c)

theorem copyRun_apply (m : Nat → VgaChar) (dst n : Nat) (src : Nat → VgaChar) (i : Nat) :
    CopyRun.apply m ⟨dst, n, src⟩ i = if dst ≤ i ∧ i < dst + n then src (i - dst) else m i := rfl

/-- The rows that have moved up. -/
theorem scrollRows_apply (buffer : Nat → VgaChar) (n i : Nat) :
    scrollRows buffer n i = if i < n * numCols then buffer (i + numCols) else buffer i := by
  induction n generalizing i with
  | zero => rw [scrollRows, if_neg (by omega)]
  | succ n ih =>
    have hsucc : (n + 1) * numCols = n * numCols + numCols := Nat.succ_mul _ _
    rw [scrollRows, copyRun_apply]
    by_cases hi : n * numCols ≤ i ∧ i < n * numCols + numCols
    · -- this row is copied from the next one, which has not moved
      rw [if_pos hi, if_pos (by omega), ih, if_neg (by omega)]
      congr 1
      omega
    · rw [if_neg hi, ih]
      by_cases hlt : i < n * numCols
      · rw [if_pos hlt, if_pos (by omega)]
      · rw [if_neg hlt, if_neg (by omega)]

theorem cell_lt {r c : Nat} (hr : r < numRows) (hc : c < numCols) :
    r * numCols + c < numRows * numCols := by
  unfold numRows numCols at *
  omega

/-- **A new row.** -/
theorem Vga.Shows.printNewline (h : v.Shows p) : (printNewline v).Shows p.newline := by
  have hrow := h.row
  unfold TextPage.lastRow at hrow
  have hlen := p.length_rows
  unfold ZohoOs.printNewline
  by_cases hroom : v.row < numRows - 1
  · rw [if_pos hroom]
    refine ⟨?_, rfl, h.fits.newline, fun r hr c hc => ?_⟩
    · show v.row + 1 = min (p.above ++ [p.current]).length (numRows - 1)
      rw [List.length_append, List.length_singleton]
      omega
    · rw [TextPage.cell_newline (by omega)]
      exact h.cells r hr c hc
  · rw [if_neg hroom]
    have hfull : numRows ≤ p.rows.length := by
      unfold numRows at *
      omega
    refine ⟨?_, rfl, h.fits.newline, fun r hr c hc => ?_⟩
    · show v.row = min (p.above ++ [p.current]).length (numRows - 1)
      rw [List.length_append, List.length_singleton]
      omega
    · rw [TextPage.cell_scroll hfull hr]
      dsimp only
      rw [copyRun_apply]
      by_cases hlast : r + 1 < numRows
      · -- a row that has moved up
        have hcell : r * numCols + c + numCols = (r + 1) * numCols + c := by
          rw [Nat.succ_mul]
          omega
        rw [if_pos hlast, if_neg, scrollRows_apply, if_pos, hcell]
        · exact h.cells (r + 1) hlast c hc
        · unfold numRows numCols at *
          omega
        · rintro ⟨hle, -⟩
          unfold numRows numCols at *
          omega
      · rw [if_neg hlast, if_pos]
        · rfl
        · unfold numRows numCols at *
          omega

/-- A character in its row. -/
theorem Vga.Shows.type (h : v.Shows p) (hroom : v.col < numCols) : Vga.Shows
    { v with buffer := Function.update v.buffer (v.row * numCols + v.col) (vgaChar c), col := v.col + 1 }
    (p.type c) := by
  have hcol := h.col
  refine ⟨h.row, ?_, h.fits.type (hcol ▸ hroom), fun r hr k hk => ?_⟩
  · show v.col + 1 = (p.current ++ [c]).length
    rw [List.length_append, List.length_singleton, hcol]
  · rw [TextPage.cell_type (by decide), ← h.row, ← hcol]
    dsimp only
    by_cases hcell : r = v.row ∧ k = v.col
    · rw [if_pos hcell, hcell.1, hcell.2, Function.update_self]
      rfl
    · -- cells of different rows or columns are different
      rw [if_neg hcell, Function.update_of_ne]
      · exact h.cells r hr k hk
      · intro heq
        unfold numCols at *
        omega

/-- **A character is printed** where it is put on the page. -/
theorem Vga.Shows.printChar (h : v.Shows p) (c : Byte) :
    (printChar c v).Shows (p.put numCols 0x0A c) := by
  unfold ZohoOs.printChar TextPage.put
  split
  · exact h.printNewline
  · rw [← h.col]
    by_cases hwrap : v.col ≥ numCols
    · rw [if_pos hwrap]
      simp only [if_pos hwrap]
      exact h.printNewline.type (by rw [h.printNewline.col]; exact Nat.zero_lt_succ _)
    · rw [if_neg hwrap]
      simp only [if_neg hwrap]
      exact h.type (not_le.mp hwrap)

theorem Vga.Shows.print (h : v.Shows p) (str : List Byte) :
    (vgaPrint str v).Shows (putAll numCols 0x0A str p) := by
  induction str generalizing v p with
  | nil => exact h
  | cons c str ih => exact ih (h.printChar c)

theorem vgaClear_shows (v : Vga) : (vgaClear v).Shows TextPage.empty := by
  refine ⟨rfl, rfl, fun row hrow => ?_, fun r hr c hc => ?_⟩
  · obtain rfl := List.mem_singleton.mp hrow
    exact Nat.zero_le _
  · have hlt := cell_lt hr hc
    have hnone : (TextPage.empty : TextPage Byte).cell numRows r c = none := by
      rw [TextPage.cell, Option.bind_eq_none_iff]
      intro row hrow
      obtain rfl := List.mem_singleton.mp (List.mem_of_getElem? hrow)
      rfl
    rw [hnone, vgaClear]
    dsimp only
    rw [copyRun_apply, if_pos ⟨Nat.zero_le _, by rw [Nat.zero_add, Nat.mul_comm numCols]; exact hlt⟩]
    rfl

/-- The rows of a text on the console. -/
def consoleRows (text : List Byte) : List (List Byte) := (putAll numCols 0x0A text TextPage.empty).rows

/-- **The screen shows the last 25 rows** of what was printed since it was cleared; the rows hold its
characters in their order, 80 at most. -/
theorem vgaPrint_shows (v : Vga) (text : List Byte) :
    (∀ r < 25, ∀ c < 80, (vgaPrint text (vgaClear v)).buffer (r * 80 + c) =
      vgaChar (((consoleRows text)[(consoleRows text).length - 25 + r]?.bind (·[c]?)).getD 0x20)) ∧
    (∀ row ∈ consoleRows text, row.length ≤ 80) ∧
    (consoleRows text).flatten = text.filter (· ≠ 0x0A) := by
  have hshows := (vgaClear_shows v).print text
  obtain ⟨hfits, hflatten⟩ := putAll_rows (w := numCols) (by decide) 0x0A text
    (vgaClear_shows v).fits
  exact ⟨hshows.cells, hfits, hflatten⟩

end Screen

end ZohoOs
