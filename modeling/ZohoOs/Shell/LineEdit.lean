import ZohoOs.Lib.ScrollText
import ZohoOs.Lib.TransitionSystem
import ZohoOs.Shell.Terminal

/-!
# The line that is edited

`shell_input` edits a line in `input_buffer`, and `shell_putchar` shows it in the cells of the terminal,
over the ends of rows and over scrolls. A backspace in the first column takes a character from the buffer
and none from the screen.

## Main definitions

* `LineEditor`, `shellInput`: the buffer next to the terminal
* `lineStep`: what is typed, with the rows that have scrolled since the prompt
* `LineEditor.Shown`: the cells from the end of the prompt to the cursor spell the buffer

## Main results

* `putchar_typed`, `putchar_backspace`: what a character does to the cells and to the cursor
* `lineRun_shown`: the line on the screen is the one in the buffer, just if no backspace is typed in the
  first column
-/

namespace ZohoOs

open ScrollText TransitionSystem

/-- `MAX_BUFFER`. -/
def maxBuffer : Nat := 256

/-- The terminal, `input_buffer` and `buffer_idx`. -/
structure LineEditor where
  terminal : Terminal
  inputBuffer : Nat → BitVec 8
  bufferIdx : Nat

/-- `shell_print`. -/
def shellPrint (str : List (BitVec 8)) (t : Terminal) : Terminal :=
  str.foldl (fun t c => shellPutchar c t) t

/-- `"zoho> "`. -/
def shellPrompt : List (BitVec 8) := [122#8, 111#8, 104#8, 111#8, 62#8, 32#8]

/-- What `shell_execute` does to the terminal. -/
abbrev ShellExecute := (Nat → BitVec 8) → Terminal → Terminal

/-- `shell_input`, for what the commands do to the terminal. -/
def shellInput (shellExecute : ShellExecute) (c : BitVec 8) (s : LineEditor) :
    LineEditor :=
  if c = 10#8 ∨ c = 13#8 then
    let terminal := shellPutchar 10#8 s.terminal
    let inputBuffer := Function.update s.inputBuffer s.bufferIdx 0#8
    -- an empty line prints the prompt itself; after a command `shell_execute` has printed it
    { terminal :=
        if s.bufferIdx > 0 then shellExecute inputBuffer terminal else shellPrint shellPrompt terminal
      inputBuffer, bufferIdx := 0 }
  else if c = 8#8 then
    if s.bufferIdx > 0 then
      { s with bufferIdx := s.bufferIdx - 1, terminal := shellPutchar 8#8 s.terminal }
    else s
  -- the last byte stays free for the one that ends the line
  else if s.bufferIdx < maxBuffer - 1 then
    { inputBuffer := Function.update s.inputBuffer s.bufferIdx c, bufferIdx := s.bufferIdx + 1
      terminal := shellPutchar c s.terminal }
  else s

/-! ## The cursor -/

/-- The index of the cell under the cursor. -/
def Terminal.cursor (t : Terminal) : Nat := t.cell t.termRow t.termCol

/-- The cursor is in the last cell, and the next character scrolls. -/
def Terminal.AtEnd (t : Terminal) : Prop :=
  t.termRow + 1#32 ≥ t.termRows ∧ t.termCol + 1#32 ≥ t.termCols

instance (t : Terminal) : Decidable t.AtEnd := inferInstanceAs (Decidable (_ ∧ _))

section Cursor

variable {w h : BitVec 32} {t : Terminal} {cells : Nat → BitVec 8}

theorem Terminal.Rendered.row_toNat (ht : t.Rendered w h) (hw : HoldsText w h) :
    t.termRow.toNat < (h.toNat - 25) / 8 := ht.rows_toNat hw ▸ BitVec.lt_def.mp ht.row_lt

theorem Terminal.Rendered.col_toNat (ht : t.Rendered w h) : t.termCol.toNat < w.toNat / 8 :=
  ht.cols_toNat ▸ BitVec.lt_def.mp ht.col_lt

theorem Terminal.Rendered.cursor_eq (ht : t.Rendered w h) (hw : HoldsText w h) :
    t.cursor = t.termRow.toNat * (w.toNat / 8) + t.termCol.toNat :=
  ht.cell_eq hw (ht.row_toNat hw) ht.col_toNat

/-- The coordinates of the next cell do not wrap around. -/
theorem Terminal.Rendered.succ_toNat (ht : t.Rendered w h) :
    (t.termRow + 1#32).toNat = t.termRow.toNat + 1 ∧
      (t.termCol + 1#32).toNat = t.termCol.toNat + 1 := by
  have hrow := ht.row_lt
  have hcol := ht.col_lt
  constructor <;> bv_omega

/-- The ways in which a character moves the cursor: to the next column, to the next row, or to the last
row again after a scroll. -/
theorem putchar_cases (ht : t.Rendered w h) (hcells : t.termCells = some cells) {c : BitVec 8}
    (hc : c ≠ 10#8) (hc' : c ≠ 8#8) : ∃ window,
    (t.termCol + 1#32 < t.termCols ∧ shellPutchar c t = { t with
      shellWindow := window, termCol := t.termCol + 1#32
      termCells := some (Function.update cells t.cursor c) }) ∨
    (t.termCol + 1#32 ≥ t.termCols ∧ t.termRow + 1#32 < t.termRows ∧ shellPutchar c t = { t with
      shellWindow := window, termCol := 0#32, termRow := t.termRow + 1#32
      termCells := some (Function.update cells t.cursor c) }) ∨
    (t.AtEnd ∧ shellPutchar c t = { t with
      shellWindow := window, termCol := 0#32, termRow := t.termRows - 1#32
      termCells := some
        (scrollCells t.termRows t.termCols (Function.update cells t.cursor c)) }) := by
  obtain ⟨buffer, hwin, -⟩ := ht.shows
  have hrows : t.termRows ≠ 0#32 := fun h0 => BitVec.not_lt_zero (h0 ▸ ht.row_lt)
  have hcols : t.termCols ≠ 0#32 := fun h0 => BitVec.not_lt_zero (h0 ▸ ht.col_lt)
  have hset := setCell_some hwin hcells ht.row_lt ht.col_lt c
  simp only [shellPutchar, if_neg hc, if_neg hc', hset]
  by_cases hwrap : t.termCol + 1#32 ≥ t.termCols
  · rw [if_pos ⟨hcols, hwrap⟩, shellAdvanceLine, if_neg hrows]
    by_cases hlast : t.termRow + 1#32 ≥ t.termRows
    -- the last row: the cells move up by a row
    · rw [if_pos hlast]
      exact ⟨_, Or.inr (Or.inr ⟨⟨hlast, hwrap⟩, shellScrollUp_some
        (t := ⟨some ⟨w, h, some (cellPixels c t.termRow t.termCol w buffer)⟩, t.termRows - 1#32, 0#32,
          t.termCols, t.termRows, some (Function.update cells t.cursor c)⟩) rfl rfl hrows⟩)⟩
    · rw [if_neg hlast]
      exact ⟨_, Or.inr (Or.inl ⟨hwrap, BitVec.not_le.mp hlast, rfl⟩)⟩
  · rw [if_neg fun hc => hwrap hc.2]
    exact ⟨_, Or.inl ⟨BitVec.not_le.mp hwrap, rfl⟩⟩

/-- **A character that is typed** is put under the cursor, which moves to the next cell; behind the last
cell the terminal scrolls. -/
theorem putchar_typed (ht : t.Rendered w h) (hw : HoldsText w h) (hcells : t.termCells = some cells)
    {c : BitVec 8} (hc : c ≠ 10#8) (hc' : c ≠ 8#8) :
    ∃ cells', (shellPutchar c t).termCells = some cells' ∧
      (¬ t.AtEnd → (shellPutchar c t).cursor = t.cursor + 1 ∧
        cells' = Function.update cells t.cursor c) ∧
      (t.AtEnd → (shellPutchar c t).cursor + w.toNat / 8 = t.cursor + 1 ∧
        (shellPutchar c t).cursor = ((h.toNat - 25) / 8 - 1) * (w.toNat / 8) ∧
        ∀ i < ((h.toNat - 25) / 8 - 1) * (w.toNat / 8),
          cells' i = Function.update cells t.cursor c (i + w.toNat / 8)) := by
  have hcursor := (ht.putchar hw c).cursor_eq hw
  obtain ⟨hrow, hcol⟩ := ht.succ_toNat
  have hrows := ht.rows_toNat hw
  have hcols := ht.cols_toNat
  have hrow' := ht.row_toNat hw
  have hcol' := ht.col_toNat
  have hold := ht.cursor_eq hw
  obtain ⟨window, ⟨hlt, heq⟩ | ⟨hwrap, hlt, heq⟩ | ⟨hend, heq⟩⟩ := putchar_cases ht hcells hc hc'
  · rw [heq] at hcursor ⊢
    refine ⟨_, rfl, fun _ => ⟨?_, rfl⟩, fun hend => absurd hend.2 (BitVec.not_le.mpr hlt)⟩
    rw [hcursor, hold]
    simp only [hcol]
    omega
  · rw [heq] at hcursor ⊢
    refine ⟨_, rfl, fun _ => ⟨?_, rfl⟩, fun hend => absurd hend.1 (BitVec.not_le.mpr hlt)⟩
    -- the last column, so the next cell is the first of the next row
    have hlast : w.toNat / 8 = t.termCol.toNat + 1 := by
      rw [ge_iff_le, BitVec.le_def] at hwrap
      omega
    rw [hcursor, hold]
    simp only [hrow, Nat.succ_mul]
    have hzero : (0#32).toNat = 0 := rfl
    omega
  · rw [heq] at hcursor ⊢
    refine ⟨_, rfl, fun hne => absurd hend hne, fun _ => ?_⟩
    obtain ⟨hlastRow, hlastCol⟩ := hend
    rw [ge_iff_le, BitVec.le_def] at hlastRow hlastCol
    -- the cell that was under the cursor is now the last of the row above
    have htop : (t.termRows - 1#32).toNat = (h.toNat - 25) / 8 - 1 := by
      rw [BitVec.toNat_sub_of_le (BitVec.le_def.mpr (by simp; omega)), hrows]
      rfl
    have hrowEq : t.termRow.toNat = (h.toNat - 25) / 8 - 1 := by omega
    have hnew : Terminal.cursor { t with
        shellWindow := window, termCol := 0#32, termRow := t.termRows - 1#32
        termCells := some (scrollCells t.termRows t.termCols (Function.update cells t.cursor c)) } =
        ((h.toNat - 25) / 8 - 1) * (w.toNat / 8) := by
      rw [hcursor]
      exact (congrArg (fun r => r * (w.toNat / 8)) htop)
    refine ⟨?_, hnew, (scrollCells_apply ht.toSized hw _).1⟩
    rw [hnew, hold, hrowEq]
    omega

/-- **A backspace** behind the first column takes the cursor back by a cell. -/
theorem putchar_backspace (ht : t.Rendered w h) (hw : HoldsText w h) (hcells : t.termCells = some cells)
    (hcol : t.termCol ≠ 0#32) :
    (shellPutchar 8#8 t).cursor + 1 = t.cursor ∧
      (shellPutchar 8#8 t).termCells =
        some (Function.update cells (shellPutchar 8#8 t).cursor 32#8) := by
  have hpos : t.termCol > 0#32 := by bv_omega
  have hlt : t.termCol - 1#32 < t.termCols := by
    have hcol' := ht.col_lt
    bv_omega
  have hback : (t.termCol - 1#32).toNat + 1 = t.termCol.toNat := by bv_omega
  obtain ⟨buffer, hwin, -⟩ := ht.shows
  have hset := setCell_some (t := { t with termCol := t.termCol - 1#32 }) hwin hcells ht.row_lt hlt 32#8
  -- the cell is blanked, and the cursor stays on it
  have heq : shellPutchar 8#8 t = Terminal.setCell { t with termCol := t.termCol - 1#32 } 32#8 := by
    rw [shellPutchar, if_neg (by decide), if_pos rfl, if_pos hpos]
  have hcursor := (ht.putchar hw 8#8).cursor_eq hw
  rw [heq, hset] at hcursor ⊢
  refine ⟨?_, rfl⟩
  rw [hcursor, ht.cursor_eq hw]
  simp only
  omega

/-- In the first column a backspace does nothing. -/
theorem putchar_backspace_margin (hcol : t.termCol = 0#32) : shellPutchar 8#8 t = t := by
  rw [shellPutchar, if_neg (by decide), if_pos rfl, hcol]
  rfl

end Cursor

/-! ## The line on the screen -/

/-- The cells before the first one of the screen that `shell_input` leaves, where `top` were before the
first one of the screen: a character that is typed in the last cell scrolls by a row. -/
def LineEditor.topAfter (s : LineEditor) (c : BitVec 8) (top : Nat) : Nat :=
  if c ≠ 8#8 ∧ s.bufferIdx < maxBuffer - 1 ∧ s.terminal.AtEnd then top + s.terminal.termCols.toNat
  else top

/-- A character or a backspace is typed. The cells that have scrolled off since the prompt are counted. -/
def lineStep (shellExecute : ShellExecute) (u : LineEditor × Nat) (c : BitVec 8)
    (v : LineEditor × Nat) : Prop :=
  (c ≠ 10#8 ∧ c ≠ 13#8) ∧ v = (shellInput shellExecute c u.1, u.1.topAfter c u.2)

/-- **The line on the screen is the one in the buffer**: from the end of the prompt to the cursor there is a
cell for each character of the buffer, and those that are on the screen show it. -/
structure LineEditor.Shown (promptEnd top : Nat) (s : LineEditor) : Prop where
  cursor : top + s.terminal.cursor = promptEnd + s.bufferIdx
  cells : ∃ cells, s.terminal.termCells = some cells ∧
    Spells cells top promptEnd s.bufferIdx s.inputBuffer

/-- A backspace in the first column, with characters in the buffer. -/
def LineEditor.BackspaceAtMargin (s : LineEditor) (c : BitVec 8) : Prop :=
  c = 8#8 ∧ s.bufferIdx > 0 ∧ s.terminal.termCol = 0#32

instance LineEditor.decidableBackspaceAtMargin (s : LineEditor) (c : BitVec 8) :
    Decidable (s.BackspaceAtMargin c) := inferInstanceAs (Decidable (_ ∧ _))

/-- A character that makes the end of the prompt scroll off the screen. -/
def LineEditor.LosesPrompt (promptEnd top : Nat) (s : LineEditor) (c : BitVec 8) : Prop :=
  promptEnd < s.topAfter c top

section Line

variable {w h : BitVec 32} {shellExecute : ShellExecute} {promptEnd : Nat}

/-- What typing keeps. -/
structure Typing (w h : BitVec 32) (promptEnd : Nat) (u : LineEditor × Nat) : Prop where
  rendered : u.1.terminal.Rendered w h
  shown : u.1.Shown promptEnd u.2

theorem shellInput_backspace (shellExecute : ShellExecute) {s : LineEditor}
    (hpos : s.bufferIdx > 0) (top : Nat) :
    shellInput shellExecute 8#8 s =
        { s with bufferIdx := s.bufferIdx - 1, terminal := shellPutchar 8#8 s.terminal } ∧
      s.topAfter 8#8 top = top := by
  rw [shellInput, if_neg (by decide), if_pos rfl, if_pos hpos, LineEditor.topAfter,
    if_neg fun hc => hc.1 rfl]
  exact ⟨rfl, rfl⟩

theorem shellInput_typed (shellExecute : ShellExecute) {s : LineEditor} {c : BitVec 8}
    (hc : c ≠ 10#8 ∧ c ≠ 13#8) (hc' : c ≠ 8#8)
    (hroom : s.bufferIdx < maxBuffer - 1) (top : Nat) :
    shellInput shellExecute c s =
        ⟨shellPutchar c s.terminal, Function.update s.inputBuffer s.bufferIdx c, s.bufferIdx + 1⟩ ∧
      s.topAfter c top = if s.terminal.AtEnd then top + s.terminal.termCols.toNat else top := by
  rw [shellInput, if_neg (not_or.mpr hc), if_neg hc', if_pos hroom, LineEditor.topAfter]
  exact ⟨rfl, if_congr ⟨fun h => h.2.2, fun h => ⟨hc', hroom, h⟩⟩ rfl rfl⟩

/-- Nothing is erased from an empty line, and nothing is typed into a full one. -/
theorem shellInput_ignored (shellExecute : ShellExecute) {s : LineEditor} {c : BitVec 8}
    (hc : c ≠ 10#8 ∧ c ≠ 13#8)
    (hfull : c = 8#8 ∧ ¬ s.bufferIdx > 0 ∨ c ≠ 8#8 ∧ ¬ s.bufferIdx < maxBuffer - 1) (top : Nat) :
    shellInput shellExecute c s = s ∧ s.topAfter c top = top := by
  rw [shellInput, if_neg (not_or.mpr hc), LineEditor.topAfter]
  obtain ⟨hback, hempty⟩ | ⟨hback, hfull⟩ := hfull
  · rw [if_pos hback, if_neg hempty, if_neg fun hc => hc.1 hback]
    exact ⟨rfl, rfl⟩
  · rw [if_neg hback, if_neg hfull, if_neg fun hc => hfull hc.2.1]
    exact ⟨rfl, rfl⟩

/-- **What is typed keeps the line**, where it is not a backspace in the first column. -/
theorem Typing.step (hw : HoldsText w h) {s : LineEditor} {top : Nat} {v : LineEditor × Nat}
    {c : BitVec 8} (hu : Typing w h promptEnd (s, top)) (hstep : lineStep shellExecute (s, top) c v)
    (hmargin : ¬ s.BackspaceAtMargin c) : Typing w h promptEnd v := by
  obtain ⟨hline, rfl⟩ := hstep
  have hrendered : s.terminal.Rendered w h := hu.rendered
  have hcursor : top + s.terminal.cursor = promptEnd + s.bufferIdx := hu.shown.cursor
  obtain ⟨cells, hcells, hspells⟩ :
      ∃ cells, s.terminal.termCells = some cells ∧
        Spells cells top promptEnd s.bufferIdx s.inputBuffer := hu.shown.cells
  by_cases hback : c = 8#8
  · by_cases hpos : s.bufferIdx > 0
    · obtain rfl := hback
      have hcol : s.terminal.termCol ≠ 0#32 := fun h0 => hmargin ⟨rfl, hpos, h0⟩
      obtain ⟨hcursor', hcells'⟩ := putchar_backspace hrendered hw hcells hcol
      have hnew : top + (shellPutchar 8#8 s.terminal).cursor = promptEnd + (s.bufferIdx - 1) := by
        omega
      -- the cell that is blanked is behind what is left of the line
      have hlast : Spells cells top promptEnd (s.bufferIdx - 1 + 1) s.inputBuffer := by
        rw [Nat.sub_add_cancel hpos]
        exact hspells
      rw [(shellInput_backspace shellExecute hpos top).1, (shellInput_backspace shellExecute hpos top).2]
      exact ⟨hrendered.putchar hw 8#8, hnew, _, hcells', hlast.erase hnew _⟩
    · obtain ⟨hsame, htop⟩ := shellInput_ignored shellExecute hline (Or.inl ⟨hback, hpos⟩) top
      rw [hsame, htop]
      exact hu
  · by_cases hroom : s.bufferIdx < maxBuffer - 1
    · obtain ⟨hinput, htop⟩ := shellInput_typed shellExecute hline hback hroom top
      obtain ⟨cells', hcells', hstay, hscroll⟩ := putchar_typed hrendered hw hcells hline.1 hback
      have hput := hspells.put hcursor c
      rw [hinput, htop]
      by_cases hend : s.terminal.AtEnd
      · -- the screen scrolls, and the line goes up with it
        rw [if_pos hend, hrendered.cols_toNat]
        obtain ⟨hcursor', hlast, hmove⟩ := hscroll hend
        have hnew : top + w.toNat / 8 + (shellPutchar c s.terminal).cursor =
            promptEnd + (s.bufferIdx + 1) := by
          omega
        exact ⟨hrendered.putchar hw c, hnew, cells', hcells', hput.scroll hmove (by omega)⟩
      · rw [if_neg hend]
        obtain ⟨hcursor', hupdate⟩ := hstay hend
        have hnew : top + (shellPutchar c s.terminal).cursor = promptEnd + (s.bufferIdx + 1) := by
          omega
        exact ⟨hrendered.putchar hw c, hnew, cells', hcells', hupdate ▸ hput⟩
    · obtain ⟨hsame, htop⟩ := shellInput_ignored shellExecute hline (Or.inr ⟨hback, hroom⟩) top
      rw [hsame, htop]
      exact hu

/-- A backspace in the first column takes a character from the buffer, and none from the screen. -/
theorem Typing.backspaceAtMargin {s : LineEditor} {top : Nat} {v : LineEditor × Nat} {c : BitVec 8}
    (hu : Typing w h promptEnd (s, top)) (hstep : lineStep shellExecute (s, top) c v)
    (hmargin : s.BackspaceAtMargin c) : ¬ v.1.Shown promptEnd v.2 := by
  obtain ⟨-, rfl⟩ := hstep
  obtain ⟨rfl, hpos, hcol⟩ := hmargin
  obtain ⟨hinput, htop⟩ := shellInput_backspace shellExecute hpos top
  intro hshown
  have hold : top + s.terminal.cursor = promptEnd + s.bufferIdx := hu.shown.cursor
  have hnew : top + (shellPutchar 8#8 s.terminal).cursor = promptEnd + (s.bufferIdx - 1) := by
    have hcursor := hshown.cursor
    rw [hinput, htop] at hcursor
    exact hcursor
  rw [putchar_backspace_margin hcol] at hnew
  omega

theorem lineStep_unique {u v v' : LineEditor × Nat} {c : BitVec 8}
    (hv : lineStep shellExecute u c v) (hv' : lineStep shellExecute u c v') : v = v' :=
  hv.2.trans hv'.2.symm

end Line

/-- The terminal after the prompt, with an empty buffer. -/
def promptState (t : Terminal) (inputBuffer : Nat → BitVec 8) : LineEditor × Nat :=
  (⟨t, inputBuffer, 0⟩, 0)

/-- **The line on the screen is the one in the buffer**, in every state, just if no backspace is typed in
the first column of a line that is not empty. All of the line is on the screen, in every state, just if in
addition no character makes the end of the prompt scroll off. -/
theorem lineRun_shown {w h : BitVec 32} (hw : HoldsText w h) (pixels : Nat → BitVec 32)
    (block : Nat → BitVec 8) (t₀ : Terminal) (calls : List TerminalCall) (inputBuffer : Nat → BitVec 8)
    (shellExecute : ShellExecute) {t : Terminal}
    (ht : t = terminalRun (shellSetWindow (some ⟨w, h, some pixels⟩) (some block) t₀) calls)
    {typed : List (BitVec 8)} {u : LineEditor × Nat}
    (hrun : Run (lineStep shellExecute) (promptState t inputBuffer) typed u) :
    ((∀ pre v, pre <+: typed → Run (lineStep shellExecute) (promptState t inputBuffer) pre v →
        v.1.Shown t.cursor v.2) ↔
      ∀ pre v c, pre ++ [c] <+: typed →
        Run (lineStep shellExecute) (promptState t inputBuffer) pre v → ¬ v.1.BackspaceAtMargin c) ∧
    ((∀ pre v, pre <+: typed → Run (lineStep shellExecute) (promptState t inputBuffer) pre v →
        v.1.Shown t.cursor v.2 ∧ v.2 ≤ t.cursor) ↔
      ∀ pre v c, pre ++ [c] <+: typed →
        Run (lineStep shellExecute) (promptState t inputBuffer) pre v →
        ¬ (v.1.BackspaceAtMargin c ∨ v.1.LosesPrompt t.cursor v.2 c)) := by
  -- the terminal was set up and has printed the prompt
  have hrendered : t.Rendered w h :=
    ht ▸ (shellSetWindow_rendered hw pixels (some block) t₀).runs hw calls
  obtain ⟨cells, hcells⟩ : ∃ cells, t.termCells = some cells := by
    rw [← Option.isSome_iff_exists, ht, terminalRun_isSome]
    rfl
  have hstart : Typing w h t.cursor (promptState t inputBuffer) :=
    ⟨hrendered, by rw [promptState, Nat.zero_add, Nat.add_zero], cells, hcells, Spells.zero⟩
  -- what a key does is determined, so the line shows after each key or ends to do so at one of them
  have hunique : ∀ (s : LineEditor × Nat) c v v', lineStep shellExecute s c v →
      lineStep shellExecute s c v' → v = v' := fun _ _ _ _ => lineStep_unique
  constructor
  · exact Run.always_iff (J := Typing w h t.cursor) hunique (fun _ hs => hs.shown)
      (fun _ _ _ hs hstep hok => hs.step hw hstep hok)
      (fun _ _ _ hs hstep hmargin => hs.backspaceAtMargin hstep hmargin) hstart hrun
  -- with the prompt: the cursor has not been scrolled past it either
  · refine Run.always_iff (J := fun s => Typing w h t.cursor s ∧ s.2 ≤ t.cursor) hunique
      (fun _ hs => ⟨hs.1.shown, hs.2⟩) ?_ ?_ ⟨hstart, Nat.zero_le _⟩ hrun
    · rintro s c v ⟨hs, -⟩ hstep hok
      rw [not_or] at hok
      refine ⟨hs.step hw hstep hok.1, ?_⟩
      rw [hstep.2]
      exact Nat.le_of_not_lt hok.2
    · rintro s c v ⟨hs, -⟩ hstep (hmargin | hloses) ⟨hshown, htop⟩
      · exact hs.backspaceAtMargin hstep hmargin hshown
      · rw [hstep.2] at htop
        exact Nat.not_lt.mpr htop hloses

/-- A terminal of seven columns and three rows, in which the prompt leaves one column. -/
def narrowPrompt : Terminal :=
  terminalRun (shellSetWindow (some ⟨56#32, 50#32, some fun _ => 0#32⟩) (some fun _ => 0#8)
    ⟨none, 0#32, 0#32, 0#32, 0#32, none⟩) (shellPrompt.map .putchar)

/-- Two characters and a backspace in the second row, which the screen follows. -/
theorem lineRun_shown_narrow : ∃ u,
    Run (lineStep fun _ t => t) (promptState narrowPrompt fun _ => 0#8) [97#8, 98#8, 8#8] u ∧
    ∀ pre v, pre <+: [97#8, 98#8, 8#8] →
      Run (lineStep fun _ t => t) (promptState narrowPrompt fun _ => 0#8) pre v →
      v.1.Shown narrowPrompt.cursor v.2 := by
  have hw : HoldsText 56#32 50#32 := ⟨by decide, by decide, by decide⟩
  have hrun : Run (lineStep fun _ t => t) (promptState narrowPrompt fun _ => 0#8)
      [97#8, 98#8, 8#8] _ :=
    Run.cons ⟨by decide, rfl⟩ (Run.cons ⟨by decide, rfl⟩ (Run.cons ⟨by decide, rfl⟩ (Run.nil _)))
  have hmargin : Allowed (fun v c => ¬ v.1.BackspaceAtMargin c)
      (fun c u => (shellInput (fun _ t => t) c u.1, u.1.topAfter c u.2))
      (promptState narrowPrompt fun _ => 0#8) [97#8, 98#8, 8#8] := by decide +kernel
  refine ⟨_, hrun, (lineRun_shown hw _ _ _ _ _ _ rfl hrun).1.mpr fun pre v c hpre hv => ?_⟩
  exact hmargin.at_prefix (fun _ _ _ hstep => hstep.2) hpre hv

/-- A character that fills the first row, and a backspace, which the screen does not follow. -/
theorem line_not_shown : ∃ u,
    Run (lineStep fun _ t => t) (promptState narrowPrompt fun _ => 0#8) [97#8, 8#8] u ∧
    ¬ u.1.Shown narrowPrompt.cursor u.2 := by
  have hrun : Run (lineStep fun _ t => t) (promptState narrowPrompt fun _ => 0#8) [97#8, 8#8] _ :=
    Run.cons ⟨by decide, rfl⟩ (Run.cons ⟨by decide, rfl⟩ (Run.nil _))
  exact ⟨_, hrun, fun hshown => absurd hshown.cursor (by decide +kernel)⟩

end ZohoOs
