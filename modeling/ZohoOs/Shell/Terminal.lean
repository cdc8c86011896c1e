import ZohoOs.Graphics.Font
import ZohoOs.Lib.CopyRuns
import ZohoOs.Memory.Pmm

/-!
# The terminal of the shell

`shell.c`: the characters of the terminal, and the pixels of the window that show them. A character that
is put redraws its cell only, a scroll moves the pixels as they are, and `shell_render_all` draws the
whole terminal again.

## Main definitions

* `Terminal`: the state, with the window's buffer and the cells by index
* `shellPutchar`, `shellClear`, `shellSetWindow`: what changes it
* `Terminal.Rendered`: the buffer shows the cells

## Main results

* `shellRenderAll_eq`: the full rendering changes nothing where the buffer shows the cells
* `Terminal.Rendered.run`: each call keeps that it does
* `terminal_rendered`: in every run, the buffer is the one that the full rendering leaves
-/

namespace ZohoOs

open Raster TextRaster CopyRuns

/-- What the terminal uses of its window. -/
structure ShellWindow where
  w : BitVec 32
  h : BitVec 32
  buffer : Option (Nat → BitVec 32)

/-- The terminal. The cells are `NULL` where `kmalloc` failed. -/
structure Terminal where
  shellWindow : Option ShellWindow
  termRow : BitVec 32
  termCol : BitVec 32
  termCols : BitVec 32
  termRows : BitVec 32
  termCells : Option (Nat → BitVec 8)

def shellCharW : BitVec 32 := 8#32
def shellCharH : BitVec 32 := 8#32
def shellBgColor : BitVec 32 := 0x00000000#32
def shellFgColor : BitVec 32 := 0xFFFFFFFF#32

/-- A change of the window's buffer, where there is one. -/
def Terminal.draw (t : Terminal)
    (f : (w h : BitVec 32) → (Nat → BitVec 32) → Nat → BitVec 32) : Terminal :=
  { t with shellWindow := t.shellWindow.map fun win =>
      { win with buffer := win.buffer.map (f win.w win.h) } }

/-- A pixel of the window. -/
def Terminal.pixel (t : Terminal) (p : Nat) : Option (BitVec 32) :=
  t.shellWindow.bind fun win => win.buffer.map fun buffer => buffer p

/-- The index of a cell. -/
def Terminal.cell (t : Terminal) (row col : BitVec 32) : Nat := (row * t.termCols + col).toNat

/-- `shell_clear_cell_pixels`: the pixels. -/
def shellClearCellPixels (row col w : BitVec 32) (buffer : Nat → BitVec 32) : Nat → BitVec 32 :=
  let px := col * shellCharW
  let py := row * shellCharH
  fill buffer (grid 8 8 fun y x => (py + BitVec.ofNat 32 y).toNat * w.toNat + px.toNat + x)
    shellBgColor

/-- The pixels of a cell in `shell_render_cell`. -/
def cellPixels (c : BitVec 8) (row col w : BitVec 32) (buffer : Nat → BitVec 32) : Nat → BitVec 32 :=
  graphicsDrawChar (shellClearCellPixels row col w buffer) w (col * shellCharW) (row * shellCharH) c
    shellFgColor

/-- `shell_render_cell`. -/
def shellRenderCell (row col : BitVec 32) (t : Terminal) : Terminal :=
  match t.termCells with
  | none => t
  | some cells =>
    if row ≥ t.termRows ∨ col ≥ t.termCols then t
    -- the cell is cleared and its character drawn over it
    else t.draw fun w _ buffer => cellPixels (cells (t.cell row col)) row col w buffer

/-- One cell in the loop of `shell_render_all`. -/
def renderChar (w : BitVec 32) (c : BitVec 8) (row col : BitVec 32) (buffer : Nat → BitVec 32) :
    Nat → BitVec 32 :=
  if c = 0#8 ∨ c = 32#8 then buffer
  else graphicsDrawChar buffer w (col * shellCharW) (row * shellCharH) c shellFgColor

/-- The pixels in `shell_render_all`: all of them are cleared, and the cells are drawn row by row. -/
def allPixels (t : Terminal) (cells : Nat → BitVec 8) (w h : BitVec 32) (buffer : Nat → BitVec 32) :
    Nat → BitVec 32 :=
  (grid t.termCols.toNat t.termRows.toNat Prod.mk).foldl
    (fun buffer cell =>
      let row := BitVec.ofNat 32 cell.1
      let col := BitVec.ofNat 32 cell.2
      renderChar w (cells (t.cell row col)) row col buffer)
    (CopyRun.apply buffer ⟨0, (w * (h - 25#32)).toNat, fun _ => 0#32⟩)

/-- `shell_render_all`. -/
def shellRenderAll (t : Terminal) : Terminal :=
  match t.termCells with
  | none => t
  | some cells => t.draw (allPixels t cells)

/-- The pixels in `shell_scroll_up`: those that are preserved move up by a row of characters, and the
rows that are left at the bottom are cleared. -/
def scrollPixels (w h : BitVec 32) (buffer : Nat → BitVec 32) : Nat → BitVec 32 :=
  let clientH := h - 25#32
  let preservedRows := clientH - shellCharH
  -- `memmove`, counted in pixels
  let bytes := preservedRows.setWidth 64 * w.setWidth 64 * 4#64
  fill
    (CopyRun.apply buffer ⟨0, bytes.toNat / 4, fun p => buffer (p + shellCharH.toNat * w.toNat)⟩)
    (grid w.toNat (clientH.toNat - preservedRows.toNat) fun y x =>
      (preservedRows.toNat + y) * w.toNat + x)
    shellBgColor

/-- The cells in `shell_scroll_up`. -/
def scrollCells (termRows termCols : BitVec 32) (cells : Nat → BitVec 8) : Nat → BitVec 8 :=
  let kept := ((termRows - 1#32) * termCols).toNat
  CopyRun.apply (CopyRun.apply cells ⟨0, kept, fun i => cells (i + termCols.toNat)⟩)
    ⟨kept, termCols.toNat, fun _ => 32#8⟩

/-- The window has a buffer. -/
def Terminal.HasBuffer (t : Terminal) : Prop := ∃ win ∈ t.shellWindow, win.buffer.isSome = true

instance (t : Terminal) : Decidable t.HasBuffer := inferInstanceAs (Decidable (∃ win ∈ _, _))

/-- `shell_scroll_up`. -/
def shellScrollUp (t : Terminal) : Terminal :=
  if t.termRows = 0#32 ∨ ¬ t.HasBuffer then t
  else match t.termCells with
    | none => t
    | some cells =>
      { t with termCells := some (scrollCells t.termRows t.termCols cells) }.draw scrollPixels

/-- `shell_advance_line`. -/
def shellAdvanceLine (t : Terminal) : Terminal :=
  if t.termRows = 0#32 then t
  else if t.termRow + 1#32 ≥ t.termRows then
    shellScrollUp { t with termCol := 0#32, termRow := t.termRows - 1#32 }
  else { t with termCol := 0#32, termRow := t.termRow + 1#32 }

/-- `term_cells[term_row * term_cols + term_col] = c`, and the cell is drawn again. -/
def Terminal.setCell (t : Terminal) (c : BitVec 8) : Terminal :=
  match t.termCells with
  | none => t
  | some cells =>
    shellRenderCell t.termRow t.termCol
      { t with termCells := some (Function.update cells (t.cell t.termRow t.termCol) c) }

/-- `shell_putchar`. -/
def shellPutchar (c : BitVec 8) (t : Terminal) : Terminal :=
  if c = 10#8 then shellAdvanceLine t
  else if c = 8#8 then
    if t.termCol > 0#32 then Terminal.setCell { t with termCol := t.termCol - 1#32 } 32#8 else t
  else
    let t := t.setCell c
    let t := { t with termCol := t.termCol + 1#32 }
    if t.termCols ≠ 0#32 ∧ t.termCol ≥ t.termCols then shellAdvanceLine t else t

/-- All cells are spaces: `memset` of `term_rows * term_cols` bytes. -/
def blankCells (termRows termCols : BitVec 32) (cells : Nat → BitVec 8) : Nat → BitVec 8 :=
  CopyRun.apply cells ⟨0, (termRows * termCols).toNat, fun _ => 32#8⟩

/-- `shell_set_window`. The block is what `kmalloc` returns for the cells, with the bytes it holds;
where it is `NULL`, the spaces go to address 0, and not to the terminal. -/
def shellSetWindow (win : Option ShellWindow) (block : Option (Nat → BitVec 8)) (t : Terminal) :
    Terminal :=
  match win with
  | none => { t with shellWindow := none, termRow := 0#32, termCol := 0#32 }
  | some win =>
    let termCols := win.w / shellCharW
    let termRows := (win.h - 25#32) / shellCharH
    shellRenderAll
      { shellWindow := some win, termRow := 0#32, termCol := 0#32, termCols, termRows
        termCells := block.map (blankCells termRows termCols) }

/-- The `clear` command in `shell_execute`. -/
def shellClear (t : Terminal) : Terminal :=
  let t := match t.termCells with
    | none => t
    | some cells =>
      shellRenderAll { t with termCells := some (blankCells t.termRows t.termCols cells) }
  { t with termRow := 0#32, termCol := 0#32 }

/-- A call that changes the terminal. -/
inductive TerminalCall where
  | putchar (c : BitVec 8)
  | clear
  deriving DecidableEq

def TerminalCall.run (t : Terminal) : TerminalCall → Terminal
  | .putchar c => shellPutchar c t
  | .clear => shellClear t

/-- The terminal after some calls. -/
def terminalRun (t : Terminal) (calls : List TerminalCall) : Terminal :=
  calls.foldl TerminalCall.run t

/-! ## What the buffer shows -/

/-- A window with a character, whose buffer has a pixel for each place below the title and fits into the
memory that `pmm.c` manages. -/
structure HoldsText (w h : BitVec 32) : Prop where
  width : 8 ≤ w.toNat
  height : 33 ≤ h.toNat
  memory : 4 * (w.toNat * (h.toNat - 25)) ≤ maxFrames * 4096

/-- The colours of a character. -/
def shellGlyph (c : BitVec 8) (i j : Nat) : BitVec 32 :=
  if HasPixel c i j then shellFgColor else shellBgColor

/-- The pixels that show the cells. -/
def shownCells (w h : BitVec 32) (cells : Nat → BitVec 8) : Nat → BitVec 32 :=
  picture shellGlyph shellBgColor w.toNat 8 (w.toNat / 8) ((h.toNat - 25) / 8) cells

/-- The terminal has a cell for each block of the window. -/
structure Terminal.Sized (w h : BitVec 32) (t : Terminal) : Prop where
  cols : t.termCols = w / shellCharW
  rows : t.termRows = (h - 25#32) / shellCharH

/-- The buffer shows the cells. -/
structure Terminal.Drawn (w h : BitVec 32) (t : Terminal) : Prop extends t.Sized w h where
  shows : ∃ buffer, t.shellWindow = some ⟨w, h, some buffer⟩ ∧
    ∀ cells ∈ t.termCells, ∀ p < w.toNat * (h.toNat - 25), buffer p = shownCells w h cells p

/-- **The buffer shows the cells**, and the cursor is in the terminal. -/
structure Terminal.Rendered (w h : BitVec 32) (t : Terminal) : Prop extends t.Drawn w h where
  row_lt : t.termRow < t.termRows
  col_lt : t.termCol < t.termCols

section Pixels

variable {w h : BitVec 32} {t : Terminal} {row col : BitVec 32} {cells : Nat → BitVec 8}
  {buffer : Nat → BitVec 32} {p : Nat}

theorem shellGlyph_blank {c : BitVec 8} (hc : c = 0#8 ∨ c = 32#8) (i j : Nat) :
    shellGlyph c i j = shellBgColor := if_neg (not_hasPixel hc i j)

theorem HoldsText.clientH (hw : HoldsText w h) : (h - 25#32).toNat = h.toNat - 25 := by
  have hheight := hw.height
  rw [BitVec.toNat_sub_of_le (BitVec.le_def.mpr (by simp; omega))]
  rfl

theorem HoldsText.pixels_lt (hw : HoldsText w h) : w.toNat * (h.toNat - 25) < 2 ^ 32 := by
  have hmem := hw.memory
  simp only [maxFrames] at hmem
  omega

theorem Terminal.Sized.cols_toNat (ht : t.Sized w h) : t.termCols.toNat = w.toNat / 8 := by
  rw [ht.cols]
  rfl

theorem Terminal.Sized.rows_toNat (ht : t.Sized w h) (hw : HoldsText w h) :
    t.termRows.toNat = (h.toNat - 25) / 8 := by
  rw [ht.rows, BitVec.toNat_udiv, hw.clientH]
  rfl

/-- The block of a cell is in the buffer, and its coordinates do not wrap around. -/
theorem block_of_cell (hrow : row.toNat < (h.toNat - 25) / 8)
    (hcol : col.toNat < w.toNat / 8) :
    (col * shellCharW).toNat = col.toNat * 8 ∧ (row * shellCharH).toNat = row.toNat * 8 ∧
      col.toNat * 8 + 8 ≤ w.toNat ∧ row.toNat * 8 + 8 ≤ h.toNat - 25 := by
  have hwlt := w.isLt
  have hhlt := h.isLt
  refine ⟨?_, ?_, by omega, by omega⟩
  · rw [BitVec.toNat_mul]
    exact Nat.mod_eq_of_lt (by simp [shellCharW]; omega)
  · rw [BitVec.toNat_mul]
    exact Nat.mod_eq_of_lt (by simp [shellCharH]; omega)

theorem shellClearCellPixels_apply (hw : HoldsText w h) (hrow : row.toNat < (h.toNat - 25) / 8)
    (hcol : col.toNat < w.toNat / 8) : shellClearCellPixels row col w buffer p =
      if InCell w.toNat 8 row.toNat col.toNat p then shellBgColor else buffer p := by
  obtain ⟨hx, hy, hwidth, hheight⟩ := block_of_cell hrow hcol
  have hindex : ∀ i < 8, ∀ j < 8, (row * shellCharH + BitVec.ofNat 32 i).toNat * w.toNat +
      (col * shellCharW).toNat + j = (row.toNat * 8 + i) * w.toNat + (col.toNat * 8 + j) := by
    intro i hi j hj
    rw [(block_toNat hx hy hwidth hheight hw.pixels_lt hi hj).2.1, hx, Nat.add_assoc]
  rw [shellClearCellPixels, fill_apply]
  refine if_congr ?_ rfl rfl
  rw [mem_grid]
  constructor
  · rintro ⟨i, hi, j, hj, hp⟩
    rw [hindex i hi j hj, dot_eq_iff hi hj (by omega)] at hp
    exact hp.1
  · intro hcell
    have hi : p / w.toNat % 8 < 8 := Nat.mod_lt _ (by omega)
    have hj : p % w.toNat % 8 < 8 := Nat.mod_lt _ (by omega)
    refine ⟨_, hi, _, hj, ?_⟩
    rw [hindex _ hi _ hj]
    exact (dot_eq_iff hi hj (by omega)).mpr ⟨hcell, rfl, rfl⟩

/-- A cell that is rendered again shows its character. -/
theorem cellPixels_apply (hw : HoldsText w h) (hrow : row.toNat < (h.toNat - 25) / 8)
    (hcol : col.toNat < w.toNat / 8) (c : BitVec 8) : cellPixels c row col w buffer p =
      if InCell w.toNat 8 row.toNat col.toNat p then
        shellGlyph c (p / w.toNat % 8) (p % w.toNat % 8)
      else buffer p := by
  obtain ⟨hx, hy, hwidth, hheight⟩ := block_of_cell hrow hcol
  rw [cellPixels, graphicsDrawChar_apply hx hy hwidth hheight hw.pixels_lt,
    shellClearCellPixels_apply hw hrow hcol]
  by_cases hcell : InCell w.toNat 8 row.toNat col.toNat p
  · rw [if_pos hcell, if_pos hcell, shellGlyph]
    exact if_congr (and_iff_right hcell) rfl rfl
  · rw [if_neg hcell, if_neg hcell, if_neg fun hc => hcell hc.1]

/-- A cell is drawn over the cleared pixels, and blank ones need not be. -/
theorem renderChar_apply (hw : HoldsText w h) (hrow : row.toNat < (h.toNat - 25) / 8)
    (hcol : col.toNat < w.toNat / 8) (c : BitVec 8) : renderChar w c row col buffer p =
      if InCell w.toNat 8 row.toNat col.toNat p ∧ HasPixel c (p / w.toNat % 8) (p % w.toNat % 8)
      then shellFgColor else buffer p := by
  obtain ⟨hx, hy, hwidth, hheight⟩ := block_of_cell hrow hcol
  rw [renderChar]
  split
  · rename_i hc
    rw [if_neg fun hp => not_hasPixel hc _ _ hp.2]
  · exact graphicsDrawChar_apply hx hy hwidth hheight hw.pixels_lt _ _ _ _

/-- The index of a cell of the terminal. -/
theorem Terminal.Sized.cell_eq (ht : t.Sized w h) (hw : HoldsText w h)
    (hrow : row.toNat < (h.toNat - 25) / 8) (hcol : col.toNat < w.toNat / 8) :
    t.cell row col = row.toNat * (w.toNat / 8) + col.toNat := by
  -- there are fewer cells than pixels
  have hlt : row.toNat * (w.toNat / 8) + col.toNat < 2 ^ 32 :=
    Nat.lt_of_lt_of_le (cell_index_lt hrow hcol)
      ((Nat.mul_le_mul (Nat.div_le_self _ _) (Nat.div_le_self _ _)).trans
        (Nat.mul_comm _ w.toNat ▸ hw.pixels_lt.le))
  rw [Terminal.cell, BitVec.toNat_add, BitVec.toNat_mul, ht.cols_toNat, Nat.mod_add_mod]
  exact Nat.mod_eq_of_lt hlt

/-- **The full rendering** shows the cells, whatever the buffer held. -/
theorem allPixels_apply (ht : t.Sized w h) (hw : HoldsText w h) :
    allPixels t cells w h buffer p =
      if p < w.toNat * (h.toNat - 25) then shownCells w h cells p else buffer p := by
  have hcells : ∀ cell ∈ grid t.termCols.toNat t.termRows.toNat Prod.mk,
      cell.1 < (h.toNat - 25) / 8 ∧ cell.2 < w.toNat / 8 := by
    intro cell hcell
    obtain ⟨row, hrow, col, hcol, rfl⟩ := mem_grid.mp hcell
    exact ⟨ht.rows_toNat hw ▸ hrow, ht.cols_toNat ▸ hcol⟩
  have hstep : ∀ (buffer : Nat → BitVec 32) (cell : Nat × Nat), True →
      (cell.1 < (h.toNat - 25) / 8 ∧ cell.2 < w.toNat / 8) →
      renderChar w (cells (t.cell (BitVec.ofNat 32 cell.1) (BitVec.ofNat 32 cell.2)))
        (BitVec.ofNat 32 cell.1) (BitVec.ofNat 32 cell.2) buffer p =
      if InCell w.toNat 8 cell.1 cell.2 p ∧ HasPixel (cells (cell.1 * (w.toNat / 8) + cell.2))
        (p / w.toNat % 8) (p % w.toNat % 8) then shellFgColor else buffer p := by
    rintro buffer ⟨row, col⟩ _ ⟨hrow, hcol⟩
    have hwlt := w.isLt
    have hhlt := h.isLt
    have hrow' : (BitVec.ofNat 32 row).toNat = row :=
      (BitVec.toNat_ofNat ..).trans (Nat.mod_eq_of_lt (by omega))
    have hcol' : (BitVec.ofNat 32 col).toNat = col :=
      (BitVec.toNat_ofNat ..).trans (Nat.mod_eq_of_lt (by omega))
    rw [renderChar_apply hw (hrow'.symm ▸ hrow) (hcol'.symm ▸ hcol),
      ht.cell_eq hw (hrow'.symm ▸ hrow) (hcol'.symm ▸ hcol), hrow', hcol']
  -- the pixels are cleared before any cell is drawn
  have hcleared : CopyRun.apply buffer ⟨0, (w * (h - 25#32)).toNat, fun _ => 0#32⟩ p =
      if p < w.toNat * (h.toNat - 25) then shellBgColor else buffer p := by
    have hn : (w * (h - 25#32)).toNat = w.toNat * (h.toNat - 25) := by
      rw [BitVec.toNat_mul, hw.clientH, Nat.mod_eq_of_lt hw.pixels_lt]
    rw [CopyRun.apply]
    refine if_congr ?_ rfl rfl
    rw [CopyRun.Covers, hn, Nat.zero_add]
    exact and_iff_right (Nat.zero_le p)
  have hfold := foldl_repaint (fun buffer : Nat → BitVec 32 => buffer p) (fun _ => shellFgColor)
    (fun _ => rfl) (fun _ _ _ _ => trivial) hstep trivial hcells
    (s := CopyRun.apply buffer ⟨0, (w * (h - 25#32)).toNat, fun _ => 0#32⟩)
  rw [allPixels, hfold, hcleared, shownCells, picture]
  -- the one cell that the pixel can be in
  have hmem : (p / w.toNat / 8, p % w.toNat / 8) ∈ grid t.termCols.toNat t.termRows.toNat Prod.mk ↔
      p / w.toNat / 8 < (h.toNat - 25) / 8 ∧ p % w.toNat / 8 < w.toNat / 8 := by
    refine ⟨hcells _, fun hc => mem_grid.mpr ⟨_, ?_, _, ?_, rfl⟩⟩
    · exact (ht.rows_toNat hw).symm ▸ hc.1
    · exact ht.cols_toNat.symm ▸ hc.2
  by_cases hin : p / w.toNat / 8 < (h.toNat - 25) / 8 ∧ p % w.toNat / 8 < w.toNat / 8
  · have hp : p < w.toNat * (h.toNat - 25) := by
      have hpos : 0 < w.toNat := Nat.lt_of_lt_of_le (by omega) hw.width
      rw [Nat.mul_comm, ← Nat.div_lt_iff_lt_mul hpos]
      omega
    rw [if_pos hp, if_pos hp, if_pos hin, shellGlyph]
    refine if_congr ⟨?_, fun hc => ⟨_, hmem.mpr hin, ⟨rfl, rfl⟩, hc⟩⟩ rfl rfl
    rintro ⟨cell, _, ⟨hrow, hcol⟩, hc⟩
    rw [← hrow, ← hcol] at hc
    exact hc
  · rw [if_neg hin, if_neg]
    rintro ⟨cell, hcell, ⟨hrow, hcol⟩, _⟩
    exact hin (hrow ▸ hcol ▸ hcells cell hcell)

end Pixels

/-! ## The operations -/

section Operations

variable {w h : BitVec 32} {t : Terminal}

theorem Terminal.draw_eq {buffer : Nat → BitVec 32} (hwin : t.shellWindow = some ⟨w, h, some buffer⟩)
    (f : (w h : BitVec 32) → (Nat → BitVec 32) → Nat → BitVec 32) :
    t.draw f = { t with shellWindow := some ⟨w, h, some (f w h buffer)⟩ } := by
  rw [Terminal.draw, hwin]
  rfl

theorem shellRenderAll_none (hcells : t.termCells = none) : shellRenderAll t = t := by
  rw [shellRenderAll, hcells]

theorem shellRenderAll_some {cells : Nat → BitVec 8} (hcells : t.termCells = some cells) :
    shellRenderAll t = t.draw (allPixels t cells) := by
  rw [shellRenderAll, hcells]

theorem shellRenderAll_frame (t : Terminal) :
    ∃ window, shellRenderAll t = { t with shellWindow := window } := by
  unfold shellRenderAll
  split
  · exact ⟨_, rfl⟩
  · exact ⟨_, rfl⟩

/-- After the full rendering the buffer shows the cells. -/
theorem shellRenderAll_drawn (ht : t.Sized w h) (hw : HoldsText w h) {buffer : Nat → BitVec 32}
    (hwin : t.shellWindow = some ⟨w, h, some buffer⟩) : (shellRenderAll t).Drawn w h := by
  cases hcells : t.termCells with
  | none =>
    rw [shellRenderAll_none hcells]
    exact ⟨ht, _, hwin, fun cells hc => by simp [hcells] at hc⟩
  | some cells =>
    rw [shellRenderAll_some hcells, Terminal.draw_eq hwin]
    refine ⟨⟨ht.cols, ht.rows⟩, _, rfl, fun cells' hc p hp => ?_⟩
    obtain rfl : cells = cells' := Option.some.inj (hcells.symm.trans hc)
    rw [allPixels_apply ht hw, if_pos hp]

/-- **The full rendering changes nothing** where the buffer shows the cells. -/
theorem shellRenderAll_eq (ht : t.Drawn w h) (hw : HoldsText w h) : shellRenderAll t = t := by
  obtain ⟨buffer, hwin, hshown⟩ := ht.shows
  cases hcells : t.termCells with
  | none => exact shellRenderAll_none hcells
  | some cells =>
    have hsame : allPixels t cells w h buffer = buffer := by
      funext p
      rw [allPixels_apply ht.toSized hw]
      split
      · rename_i hp
        exact (hshown cells hcells p hp).symm
      · rfl
    rw [shellRenderAll_some hcells, Terminal.draw_eq hwin, hsame, ← hwin]

/-- A cell that is set changes its character, and the pixels. -/
theorem setCell_frame (t : Terminal) (c : BitVec 8) : ∃ window cells,
    t.setCell c = { t with shellWindow := window, termCells := cells } := by
  unfold Terminal.setCell
  cases t.termCells with
  | none => exact ⟨_, _, rfl⟩
  | some cells =>
    simp only [shellRenderCell]
    split
    · exact ⟨_, _, rfl⟩
    · exact ⟨_, _, rfl⟩

/-- The cell under the cursor is redrawn with its new character. -/
theorem setCell_some {buffer : Nat → BitVec 32} {cells : Nat → BitVec 8}
    (hwin : t.shellWindow = some ⟨w, h, some buffer⟩) (hcells : t.termCells = some cells)
    (hrow : t.termRow < t.termRows) (hcol : t.termCol < t.termCols) (c : BitVec 8) :
    t.setCell c = { t with
      shellWindow := some ⟨w, h, some (cellPixels c t.termRow t.termCol w buffer)⟩
      termCells := some (Function.update cells (t.cell t.termRow t.termCol) c) } := by
  have hin : ¬ (t.termRow ≥ t.termRows ∨ t.termCol ≥ t.termCols) := by
    rw [not_or]
    exact ⟨BitVec.not_le.mpr hrow, BitVec.not_le.mpr hcol⟩
  simp only [Terminal.setCell, hcells, shellRenderCell, if_neg hin, Terminal.draw, hwin,
    Option.map_some, Terminal.cell, Function.update_self]

/-- **A cell is set** under the cursor: the buffer shows it, as it shows the others. -/
theorem Terminal.Drawn.setCell (ht : t.Drawn w h) (hw : HoldsText w h) (hrow : t.termRow < t.termRows)
    (hcol : t.termCol < t.termCols) (c : BitVec 8) : (t.setCell c).Drawn w h := by
  obtain ⟨buffer, hwin, hshown⟩ := ht.shows
  cases hcells : t.termCells with
  | none =>
    rw [Terminal.setCell, hcells]
    exact ht
  | some cells =>
    have hrow' : t.termRow.toNat < (h.toNat - 25) / 8 := ht.rows_toNat hw ▸ BitVec.lt_def.mp hrow
    have hcol' : t.termCol.toNat < w.toNat / 8 := ht.cols_toNat ▸ BitVec.lt_def.mp hcol
    rw [setCell_some hwin hcells hrow hcol, ht.cell_eq hw hrow' hcol']
    refine ⟨⟨ht.cols, ht.rows⟩, _, rfl, fun cells' hc p hp => ?_⟩
    obtain rfl := Option.some.inj hc
    rw [cellPixels_apply hw hrow' hcol', shownCells]
    split
    · rename_i hin
      rw [picture_of_inCell hrow' hcol' hin, Function.update_self]
    · rename_i hin
      rw [picture_update hcol' c hin]
      exact hshown cells hcells p hp

/-- The pixels after a scroll. -/
theorem scrollPixels_apply (hw : HoldsText w h) {buffer : Nat → BitVec 32} {p : Nat}
    (hp : p < w.toNat * (h.toNat - 25)) : scrollPixels w h buffer p =
      if p < (h.toNat - 25 - 8) * w.toNat then buffer (p + 8 * w.toNat) else shellBgColor := by
  have hwidth := hw.width
  have hheight := hw.height
  have hlt := hw.pixels_lt
  have hpreserved : (h - 25#32 - shellCharH).toNat = h.toNat - 25 - 8 := by
    rw [BitVec.toNat_sub_of_le, hw.clientH]
    · rfl
    · rw [BitVec.le_def, hw.clientH]
      simp only [shellCharH, BitVec.toNat_ofNat]
      omega
  have hbytes : ((h - 25#32 - shellCharH).setWidth 64 * w.setWidth 64 * 4#64).toNat / 4 =
      (h.toNat - 25 - 8) * w.toNat := by
    have hle : (h.toNat - 25 - 8) * w.toNat ≤ w.toNat * (h.toNat - 25) :=
      (Nat.mul_comm _ _).trans_le (Nat.mul_le_mul_left _ (Nat.sub_le _ _))
    rw [BitVec.toNat_mul, BitVec.toNat_mul, BitVec.toNat_setWidth_of_le (by omega),
      BitVec.toNat_setWidth_of_le (by omega), hpreserved]
    simp only [BitVec.toNat_ofNat]
    omega
  rw [scrollPixels, fill_apply]
  -- the rows at the bottom
  have hbottom : p ∈ grid w.toNat ((h - 25#32).toNat - (h - 25#32 - shellCharH).toNat)
      (fun y x => ((h - 25#32 - shellCharH).toNat + y) * w.toNat + x) ↔
      ¬ p < (h.toNat - 25 - 8) * w.toNat := by
    rw [mem_grid, hpreserved, hw.clientH, Nat.not_lt]
    constructor
    · rintro ⟨y, _, x, _, rfl⟩
      exact (Nat.mul_le_mul_right _ (Nat.le_add_right _ y)).trans (Nat.le_add_right _ x)
    · intro hge
      have hrow : h.toNat - 25 - 8 ≤ p / w.toNat :=
        (Nat.le_div_iff_mul_le (by omega)).mpr hge
      have hrow' : p / w.toNat < h.toNat - 25 := Nat.div_lt_of_lt_mul hp
      refine ⟨p / w.toNat - (h.toNat - 25 - 8), by omega, p % w.toNat,
        Nat.mod_lt _ (by omega), ?_⟩
      rw [Nat.add_sub_cancel' hrow, Nat.div_add_mod']
  by_cases hmoved : p < (h.toNat - 25 - 8) * w.toNat
  · rw [if_neg (fun hc => hbottom.mp hc hmoved), if_pos hmoved, CopyRun.apply,
      if_pos ⟨Nat.zero_le p, by rw [hbytes, Nat.zero_add]; exact hmoved⟩]
    rfl
  · rw [if_pos (hbottom.mpr hmoved), if_neg hmoved]

/-- The cells after a scroll. -/
theorem scrollCells_apply (ht : t.Sized w h) (hw : HoldsText w h) (cells : Nat → BitVec 8) :
    (∀ i < ((h.toNat - 25) / 8 - 1) * (w.toNat / 8),
      scrollCells t.termRows t.termCols cells i = cells (i + w.toNat / 8)) ∧
    ∀ i, ((h.toNat - 25) / 8 - 1) * (w.toNat / 8) ≤ i → i < (h.toNat - 25) / 8 * (w.toNat / 8) →
      scrollCells t.termRows t.termCols cells i = 32#8 := by
  have hheight := hw.height
  have hpos : 1 ≤ (h.toNat - 25) / 8 := Nat.div_pos (by omega) (by omega)
  -- the number of cells that are kept does not wrap
  have hkept : ((t.termRows - 1#32) * t.termCols).toNat =
      ((h.toNat - 25) / 8 - 1) * (w.toNat / 8) := by
    have hle : ((h.toNat - 25) / 8 - 1) * (w.toNat / 8) ≤ (h.toNat - 25) * w.toNat :=
      Nat.mul_le_mul ((Nat.sub_le _ _).trans (Nat.div_le_self _ _)) (Nat.div_le_self _ _)
    have hlt := hw.pixels_lt
    rw [Nat.mul_comm] at hlt
    rw [BitVec.toNat_mul, BitVec.toNat_sub_of_le, ht.rows_toNat hw, ht.cols_toNat]
    · exact Nat.mod_eq_of_lt (hle.trans_lt hlt)
    · rw [BitVec.le_def, ht.rows_toNat hw]
      exact hpos
  have hrows : ((h.toNat - 25) / 8 - 1) * (w.toNat / 8) + w.toNat / 8 =
      (h.toNat - 25) / 8 * (w.toNat / 8) := by
    rw [← Nat.succ_mul, Nat.succ_eq_add_one, Nat.sub_add_cancel hpos]
  rw [scrollCells, hkept, ht.cols_toNat]
  constructor
  · intro i hi
    rw [CopyRun.apply, if_neg fun hc => Nat.not_le.mpr hi hc.1, CopyRun.apply,
      if_pos ⟨Nat.zero_le i, by rw [Nat.zero_add]; exact hi⟩]
    rfl
  · intro i hi hi'
    rw [CopyRun.apply, if_pos ⟨hi, hi'.trans_eq hrows.symm⟩]

/-- **A scroll** moves the pixels as it moves the cells. -/
theorem shownCells_scroll (ht : t.Sized w h) (hw : HoldsText w h) (cells : Nat → BitVec 8) {p : Nat}
    (hp : p < w.toNat * (h.toNat - 25)) :
    shownCells w h (scrollCells t.termRows t.termCols cells) p =
      if p < (h.toNat - 25 - 8) * w.toNat then shownCells w h cells (p + 8 * w.toNat)
      else shellBgColor := by
  have hheight := hw.height
  have hblank : ∀ i j, shellGlyph 32#8 i j = shellBgColor := shellGlyph_blank (Or.inr rfl)
  obtain ⟨hmove, hlast⟩ := scrollCells_apply ht hw cells
  exact picture_scroll hblank (by omega) (by omega) rfl hmove hlast hp

theorem shellScrollUp_frame (t : Terminal) : ∃ window cells,
    shellScrollUp t = { t with shellWindow := window, termCells := cells } := by
  unfold shellScrollUp
  split
  · exact ⟨_, _, rfl⟩
  · split
    · exact ⟨_, _, rfl⟩
    · exact ⟨_, _, rfl⟩

theorem shellScrollUp_some {buffer : Nat → BitVec 32} {cells : Nat → BitVec 8}
    (hwin : t.shellWindow = some ⟨w, h, some buffer⟩) (hcells : t.termCells = some cells)
    (hrows : t.termRows ≠ 0#32) : shellScrollUp t = { t with
      shellWindow := some ⟨w, h, some (scrollPixels w h buffer)⟩
      termCells := some (scrollCells t.termRows t.termCols cells) } := by
  have hgo : ¬ (t.termRows = 0#32 ∨ ¬ t.HasBuffer) := by
    rw [not_or, not_not]
    exact ⟨hrows, _, hwin, rfl⟩
  simp only [shellScrollUp, if_neg hgo, hcells, Terminal.draw, hwin, Option.map_some]

theorem Terminal.Drawn.scrollUp (ht : t.Drawn w h) (hw : HoldsText w h) (hrows : t.termRows ≠ 0#32) :
    (shellScrollUp t).Drawn w h := by
  obtain ⟨buffer, hwin, hshown⟩ := ht.shows
  cases hcells : t.termCells with
  | none =>
    have hsame : shellScrollUp t = t := by simp only [shellScrollUp, hcells, ite_self]
    exact hsame.symm ▸ ht
  | some cells =>
    rw [shellScrollUp_some hwin hcells hrows]
    refine ⟨⟨ht.cols, ht.rows⟩, _, rfl, fun cells' hc p hp => ?_⟩
    obtain rfl := Option.some.inj hc
    rw [scrollPixels_apply hw hp, shownCells_scroll ht.toSized hw cells hp]
    split
    · rename_i hmoved
      refine hshown cells hcells _ ?_
      have hheight := hw.height
      have hsum : (h.toNat - 25 - 8) * w.toNat + 8 * w.toNat = (h.toNat - 25) * w.toNat := by
        rw [← Nat.add_mul, Nat.sub_add_cancel (by omega)]
      rw [Nat.mul_comm w.toNat]
      omega
    · rfl

/-- A new line keeps that the buffer shows the cells, and takes the cursor to the first column. -/
theorem Terminal.Drawn.advanceLine (ht : t.Drawn w h) (hw : HoldsText w h)
    (hrow : t.termRow < t.termRows) : (shellAdvanceLine t).Rendered w h := by
  have hpos : t.termRows ≠ 0#32 := fun h0 => BitVec.not_lt_zero (h0 ▸ hrow)
  have hcol : 0#32 < t.termCols := by
    rw [BitVec.lt_def, ht.cols_toNat]
    exact Nat.div_pos hw.width (by omega)
  rw [shellAdvanceLine, if_neg hpos]
  split
  · have hdrawn := Terminal.Drawn.scrollUp
      (t := { t with termCol := 0#32, termRow := t.termRows - 1#32 }) ⟨⟨ht.cols, ht.rows⟩, ht.shows⟩
      hw hpos
    obtain ⟨window, cells, hscroll⟩ :=
      shellScrollUp_frame { t with termCol := 0#32, termRow := t.termRows - 1#32 }
    rw [hscroll] at hdrawn ⊢
    refine ⟨hdrawn, ?_, hcol⟩
    rw [BitVec.lt_def] at hrow ⊢
    bv_omega
  · rename_i hlt
    exact ⟨⟨⟨ht.cols, ht.rows⟩, ht.shows⟩, BitVec.not_le.mp hlt, hcol⟩

/-- `shell_putchar` keeps that the buffer shows the cells. -/
theorem Terminal.Rendered.putchar (ht : t.Rendered w h) (hw : HoldsText w h) (c : BitVec 8) :
    (shellPutchar c t).Rendered w h := by
  have hset := fun (t : Terminal) (ht : t.Rendered w h) (c : BitVec 8) =>
    ht.toDrawn.setCell hw ht.row_lt ht.col_lt c
  unfold shellPutchar
  split
  · exact ht.toDrawn.advanceLine hw ht.row_lt
  · split
    · split
      · rename_i hpos
        -- one column back, which is in the row
        have hback : Terminal.Rendered w h { t with termCol := t.termCol - 1#32 } := by
          refine ⟨⟨⟨ht.cols, ht.rows⟩, ht.shows⟩, ht.row_lt, ?_⟩
          have hcol := ht.col_lt
          bv_omega
        have hdrawn := hset _ hback 32#8
        obtain ⟨window, cells, hframe⟩ := setCell_frame { t with termCol := t.termCol - 1#32 } 32#8
        rw [hframe] at hdrawn ⊢
        exact ⟨hdrawn, hback.row_lt, hback.col_lt⟩
      · exact ht
    · have hdrawn := hset _ ht c
      obtain ⟨window, cells, hframe⟩ := setCell_frame t c
      rw [hframe] at hdrawn ⊢
      simp only
      split
      · exact Terminal.Drawn.advanceLine ⟨⟨hdrawn.cols, hdrawn.rows⟩, hdrawn.shows⟩ hw ht.row_lt
      · rename_i hstay
        refine ⟨⟨⟨hdrawn.cols, hdrawn.rows⟩, hdrawn.shows⟩, ht.row_lt, ?_⟩
        have hcol := ht.col_lt
        rw [not_and] at hstay
        exact BitVec.not_le.mp (hstay fun h0 => BitVec.not_lt_zero (h0 ▸ hcol))

/-- The `clear` command draws all cells again. -/
theorem Terminal.Rendered.clear (ht : t.Rendered w h) (hw : HoldsText w h) :
    (shellClear t).Rendered w h := by
  have hrow : 0#32 < t.termRows := by
    have hlt := ht.row_lt
    bv_omega
  have hcol : 0#32 < t.termCols := by
    have hlt := ht.col_lt
    bv_omega
  obtain ⟨buffer, hwin, _⟩ := ht.shows
  unfold shellClear
  cases hcells : t.termCells with
  | none => exact ⟨⟨⟨ht.cols, ht.rows⟩, ht.shows⟩, hrow, hcol⟩
  | some cells =>
    have hdrawn := shellRenderAll_drawn
      (t := { t with termCells := some (blankCells t.termRows t.termCols cells) })
      ⟨ht.cols, ht.rows⟩ hw hwin
    obtain ⟨window, hframe⟩ :=
      shellRenderAll_frame { t with termCells := some (blankCells t.termRows t.termCols cells) }
    simp only
    rw [hframe] at hdrawn ⊢
    exact ⟨⟨⟨ht.cols, ht.rows⟩, hdrawn.shows⟩, hrow, hcol⟩

/-- `shell_set_window` draws all cells. -/
theorem shellSetWindow_rendered (hw : HoldsText w h) (buffer : Nat → BitVec 32)
    (block : Option (Nat → BitVec 8)) (t : Terminal) :
    (shellSetWindow (some ⟨w, h, some buffer⟩) block t).Rendered w h := by
  let fresh : Terminal :=
    { shellWindow := some ⟨w, h, some buffer⟩, termRow := 0#32, termCol := 0#32
      termCols := w / shellCharW, termRows := (h - 25#32) / shellCharH
      termCells := block.map (blankCells ((h - 25#32) / shellCharH) (w / shellCharW)) }
  have hsized : fresh.Sized w h := ⟨rfl, rfl⟩
  have hwidth := hw.width
  have hheight := hw.height
  have hrow : fresh.termRow < fresh.termRows := by
    rw [BitVec.lt_def, hsized.rows_toNat hw]
    exact Nat.div_pos (by omega) (by omega)
  have hcol : fresh.termCol < fresh.termCols := by
    rw [BitVec.lt_def, hsized.cols_toNat]
    exact Nat.div_pos hwidth (by omega)
  have hdrawn := shellRenderAll_drawn hsized hw rfl
  obtain ⟨window, hframe⟩ := shellRenderAll_frame fresh
  have hset : shellSetWindow (some ⟨w, h, some buffer⟩) block t = shellRenderAll fresh := rfl
  rw [hset]
  rw [hframe] at hdrawn ⊢
  exact ⟨hdrawn, hrow, hcol⟩

theorem Terminal.Rendered.run (ht : t.Rendered w h) (hw : HoldsText w h) (call : TerminalCall) :
    (call.run t).Rendered w h := by
  cases call with
  | putchar c => exact ht.putchar hw c
  | clear => exact ht.clear hw

/-- In every run, the buffer shows the cells. -/
theorem Terminal.Rendered.runs (ht : t.Rendered w h) (hw : HoldsText w h) (calls : List TerminalCall) :
    (terminalRun t calls).Rendered w h := by
  induction calls generalizing t with
  | nil => exact ht
  | cons call calls ih => exact ih (ht.run hw call)

/-! ### The cells stay allocated -/

theorem setCell_isSome (t : Terminal) (c : BitVec 8) :
    (t.setCell c).termCells.isSome = t.termCells.isSome := by
  unfold Terminal.setCell
  cases hcells : t.termCells with
  | none => exact congrArg Option.isSome hcells
  | some cells =>
    simp only [shellRenderCell]
    split <;> rfl

theorem shellAdvanceLine_isSome (t : Terminal) :
    (shellAdvanceLine t).termCells.isSome = t.termCells.isSome := by
  unfold shellAdvanceLine shellScrollUp
  split
  · rfl
  · split
    · cases hcells : t.termCells with
      | none => simp only [ite_self]
      | some cells =>
        simp only
        split <;> rfl
    · rfl

theorem shellPutchar_isSome (t : Terminal) (c : BitVec 8) :
    (shellPutchar c t).termCells.isSome = t.termCells.isSome := by
  unfold shellPutchar
  split
  · exact shellAdvanceLine_isSome t
  · split
    · split
      · exact setCell_isSome _ _
      · rfl
    · simp only
      split
      · exact (shellAdvanceLine_isSome _).trans (setCell_isSome t c)
      · exact setCell_isSome t c

theorem shellClear_isSome (t : Terminal) :
    (shellClear t).termCells.isSome = t.termCells.isSome := by
  unfold shellClear
  cases hcells : t.termCells with
  | none => exact congrArg Option.isSome hcells
  | some cells => rfl

theorem terminalRun_isSome (t : Terminal) (calls : List TerminalCall) :
    (terminalRun t calls).termCells.isSome = t.termCells.isSome := by
  induction calls generalizing t with
  | nil => rfl
  | cons call calls ih =>
    refine (ih _).trans ?_
    cases call with
    | putchar c => exact shellPutchar_isSome t c
    | clear => exact shellClear_isSome t

theorem Terminal.Drawn.pixel_eq (ht : t.Drawn w h) {cells : Nat → BitVec 8}
    (hcells : t.termCells = some cells) {p : Nat} (hp : p < w.toNat * (h.toNat - 25)) :
    t.pixel p = some (shownCells w h cells p) := by
  obtain ⟨buffer, hwin, hshown⟩ := ht.shows
  rw [Terminal.pixel, hwin]
  exact congrArg some (hshown cells hcells p hp)

/-- The full rendering draws the same pixels over any others. -/
theorem Terminal.Drawn.pixel_shellRenderAll (ht : t.Drawn w h) (hw : HoldsText w h)
    (hcells : t.termCells ≠ none) (other : Nat → BitVec 32) {p : Nat}
    (hp : p < w.toNat * (h.toNat - 25)) :
    (shellRenderAll { t with shellWindow := some ⟨w, h, some other⟩ }).pixel p = t.pixel p := by
  obtain ⟨cells, hcells⟩ := Option.ne_none_iff_exists'.mp hcells
  let redrawn : Terminal := { t with shellWindow := some ⟨w, h, some other⟩ }
  have hdrawn : (shellRenderAll redrawn).Drawn w h :=
    shellRenderAll_drawn (t := redrawn) ⟨ht.cols, ht.rows⟩ hw rfl
  obtain ⟨window, hframe⟩ := shellRenderAll_frame redrawn
  have hcells' : (shellRenderAll redrawn).termCells = some cells := by
    rw [hframe]
    exact hcells
  rw [hdrawn.pixel_eq hcells' hp, ht.pixel_eq hcells hp]

/-- **The incremental rendering is the full one**: after any calls the cursor is in the terminal, the
full rendering changes nothing, and over any other pixels it draws those that the buffer has. -/
theorem terminal_rendered (hw : HoldsText w h) (buffer : Nat → BitVec 32)
    (block : Option (Nat → BitVec 8)) (t : Terminal) (calls : List TerminalCall) :
    let t' := terminalRun (shellSetWindow (some ⟨w, h, some buffer⟩) block t) calls
    t'.termRow < t'.termRows ∧ t'.termCol < t'.termCols ∧ shellRenderAll t' = t' ∧
      (t'.termCells ≠ none → ∀ other, ∀ p < w.toNat * (h.toNat - 25),
        (shellRenderAll { t' with shellWindow := some ⟨w, h, some other⟩ }).pixel p =
          t'.pixel p) := by
  have ht := (shellSetWindow_rendered hw buffer block t).runs hw calls
  exact ⟨ht.row_lt, ht.col_lt, shellRenderAll_eq ht.toDrawn hw,
    fun hcells other _ hp => ht.toDrawn.pixel_shellRenderAll hw hcells other hp⟩

/-- A window of 20 by 50 pixels, with margins: two columns and three rows. -/
theorem terminal_rendered_margins : HoldsText 20#32 50#32 ∧
    ∀ calls : List TerminalCall,
      let t := terminalRun (shellSetWindow (some ⟨20#32, 50#32, some fun _ => 7#32⟩)
        (some fun _ => 0#8) ⟨none, 0#32, 0#32, 0#32, 0#32, none⟩) calls
      t.termRow < t.termRows ∧ t.termCol < t.termCols ∧ shellRenderAll t = t ∧
        (t.termCells ≠ none → ∀ other, ∀ p < (20#32).toNat * ((50#32).toNat - 25),
          (shellRenderAll { t with shellWindow := some ⟨20#32, 50#32, some other⟩ }).pixel p =
            t.pixel p) :=
  have hw : HoldsText 20#32 50#32 := ⟨by decide, by decide, by decide⟩
  ⟨hw, fun calls => terminal_rendered hw _ _ _ calls⟩

end Operations

end ZohoOs
