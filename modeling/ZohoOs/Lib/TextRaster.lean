import Mathlib.Algebra.Order.Ring.Int
import Mathlib.Logic.Function.Basic
import ZohoOs.Lib.Raster

/-!
# Text on a raster

A grid of cells, `cols` in a row, is drawn on a raster of `w` dots in a row. Each cell is drawn as a
block of `b` by `b` dots. The width and the height of the raster need not be multiples of `b`: the dots
beyond the last cells are of the background.

## Main definitions

* `InCell w b row col p`: the dot is in the block of a cell
* `picture`: the raster that shows the cells
* `fill`: dots of one colour

## Main results

* `picture_update`: a change of one cell changes the dots of its block only
* `picture_scroll`: the cells move up by a row as the dots move up by `b` rows
-/

namespace TextRaster

variable {α β : Type*}

/-- Many dots get the same colour. -/
def fill (m : ℕ → β) (dots : List ℕ) (color : β) : ℕ → β :=
  dots.foldl (fun m p => Function.update m p color) m

theorem fill_apply (m : ℕ → β) (dots : List ℕ) (color : β) (p : ℕ) :
    fill m dots color p = if p ∈ dots then color else m p := by
  unfold fill
  induction dots generalizing m with
  | nil => rw [if_neg List.not_mem_nil, List.foldl_nil]
  | cons q dots ih =>
    rw [List.foldl_cons, ih, Function.update_apply]
    by_cases hq : p = q
    · rw [if_pos hq, ite_self, if_pos (List.mem_cons.mpr (Or.inl hq))]
    · rw [if_neg hq]
      exact if_congr (by rw [List.mem_cons, or_iff_right hq]) rfl rfl

/-- The dot is in the block of a cell. -/
def InCell (w b row col p : ℕ) : Prop := p / w / b = row ∧ p % w / b = col

instance (w b row col p : ℕ) : Decidable (InCell w b row col p) := inferInstanceAs (Decidable (_ ∧ _))

section Index

variable {w b row col i j p : ℕ}

/-- The row and the column of a dot, from its place in its block. -/
theorem dot_eq_iff (hi : i < b) (hj : j < b) (hw : col * b + j < w) :
    (row * b + i) * w + (col * b + j) = p ↔
      InCell w b row col p ∧ p / w % b = i ∧ p % w % b = j := by
  have hw' : 0 < w := Nat.lt_of_le_of_lt (Nat.zero_le _) hw
  have hb : 0 < b := Nat.lt_of_le_of_lt (Nat.zero_le _) hi
  constructor
  · rintro rfl
    have hdiv : ((row * b + i) * w + (col * b + j)) / w = row * b + i := by
      rw [Nat.mul_comm _ w, Nat.mul_add_div hw', Nat.div_eq_of_lt hw, Nat.add_zero]
    have hmod : ((row * b + i) * w + (col * b + j)) % w = col * b + j := by
      rw [Nat.mul_comm _ w, Nat.mul_add_mod, Nat.mod_eq_of_lt hw]
    have hblock : ∀ k l, l < b → (k * b + l) / b = k ∧ (k * b + l) % b = l := by
      intro k l hl
      rw [Nat.mul_comm k b, Nat.mul_add_div hb, Nat.div_eq_of_lt hl, Nat.mul_add_mod,
        Nat.mod_eq_of_lt hl, Nat.add_zero]
      exact ⟨rfl, rfl⟩
    rw [InCell, hdiv, hmod]
    exact ⟨⟨(hblock row i hi).1, (hblock col j hj).1⟩, (hblock row i hi).2, (hblock col j hj).2⟩
  · rintro ⟨⟨rfl, rfl⟩, rfl, rfl⟩
    rw [Nat.div_add_mod', Nat.div_add_mod', Nat.div_add_mod']

end Index

/-! ## The picture of the cells -/

section Picture

variable (glyph : α → ℕ → ℕ → β) (bg : β) (w b cols rows : ℕ)

/-- **The raster that shows the cells.** -/
def picture (cells : ℕ → α) (p : ℕ) : β :=
  if p / w / b < rows ∧ p % w / b < cols then
    glyph (cells (p / w / b * cols + p % w / b)) (p / w % b) (p % w % b)
  else bg

variable {glyph bg w b cols rows} {cells cells' : ℕ → α} {row col p : ℕ}

theorem picture_of_inCell (hrow : row < rows) (hcol : col < cols) (hp : InCell w b row col p) :
    picture glyph bg w b cols rows cells p =
      glyph (cells (row * cols + col)) (p / w % b) (p % w % b) := by
  obtain ⟨rfl, rfl⟩ := hp
  rw [picture, if_pos ⟨hrow, hcol⟩]

/-- Cells of a grid have indices of their own. -/
theorem cell_index_inj {row' col' : ℕ} (hcol : col < cols) (hcol' : col' < cols)
    (h : row' * cols + col' = row * cols + col) : row' = row ∧ col' = col := by
  have hpos : 0 < cols := Nat.lt_of_le_of_lt (Nat.zero_le _) hcol
  have hdiv := congrArg (· / cols) h
  have hmod := congrArg (· % cols) h
  simp only [Nat.mul_comm _ cols, Nat.mul_add_div hpos, Nat.div_eq_of_lt hcol,
    Nat.div_eq_of_lt hcol', Nat.add_zero] at hdiv
  simp only [Nat.mul_comm _ cols, Nat.mul_add_mod, Nat.mod_eq_of_lt hcol,
    Nat.mod_eq_of_lt hcol'] at hmod
  exact ⟨hdiv, hmod⟩

theorem cell_index_lt (hrow : row < rows) (hcol : col < cols) : row * cols + col < rows * cols := by
  have hle : (row + 1) * cols ≤ rows * cols := Nat.mul_le_mul_right _ hrow
  rw [Nat.succ_mul] at hle
  omega

/-- **A change of one cell** changes the dots of its block only. -/
theorem picture_update (hcol : col < cols) (c : α) (hp : ¬ InCell w b row col p) :
    picture glyph bg w b cols rows (Function.update cells (row * cols + col) c) p =
      picture glyph bg w b cols rows cells p := by
  unfold picture
  split
  · rename_i h
    rw [Function.update_of_ne]
    exact fun he => hp (cell_index_inj hcol h.2 he)
  · rfl

/-- **The cells move up by a row**, with blank ones in the last row, as the dots move up by `b` rows,
with dots of the background in the last `b` rows. -/
theorem picture_scroll {h : ℕ} {blank : α} (hblank : ∀ i j, glyph blank i j = bg) (hb : 0 < b)
    (hbh : b ≤ h) (hrows : rows = h / b)
    (hmove : ∀ i < (rows - 1) * cols, cells' i = cells (i + cols))
    (hlast : ∀ i, (rows - 1) * cols ≤ i → i < rows * cols → cells' i = blank) (hp : p < w * h) :
    picture glyph bg w b cols rows cells' p =
      if p < (h - b) * w then picture glyph bg w b cols rows cells (p + b * w) else bg := by
  have hw : 0 < w := by
    rcases Nat.eq_zero_or_pos w with rfl | hw
    · simp at hp
    · exact hw
  have hpos : 0 < rows := hrows ▸ Nat.div_pos hbh hb
  -- a block down is a row of characters down, at the same place in it
  have hdown : (p + b * w) / w = p / w + b := Nat.add_mul_div_right p b hw
  have hblock : (p / w + b) / b = p / w / b + 1 := Nat.add_div_right _ hb
  have hin : (p / w + b) % b = p / w % b := Nat.add_mod_right _ _
  have hside : (p + b * w) % w = p % w := Nat.add_mul_mod_self_right p b w
  unfold picture
  rw [hdown, hblock, hin, hside]
  by_cases hcol : p % w / b < cols
  · rcases Nat.lt_trichotomy (p / w / b + 1) rows with hlt | hlast' | hgt
    · -- a row that moves up: its dots are not in the last rows of dots
      have hcell : p / w / b * cols + p % w / b < (rows - 1) * cols :=
        cell_index_lt (by omega) hcol
      have hmoved : p < (h - b) * w := by
        rw [← Nat.div_lt_iff_lt_mul hw]
        have hle : (p / w / b + 2) * b ≤ h := by
          rw [← Nat.le_div_iff_mul_le hb, ← hrows]
          omega
        have hlt' := Nat.lt_div_mul_add (a := p / w) hb
        rw [Nat.add_mul] at hle
        omega
      rw [if_pos ⟨by omega, hcol⟩, if_pos hmoved, if_pos ⟨hlt, hcol⟩, hmove _ hcell,
        Nat.succ_mul]
      congr 2
      omega
    · -- the last row
      have hle : (rows - 1) * cols ≤ p / w / b * cols + p % w / b := by
        rw [show rows - 1 = p / w / b by omega]
        exact Nat.le_add_right _ _
      have hbelow : ¬ (p / w / b + 1 < rows ∧ p % w / b < cols) := fun hc => by omega
      rw [if_neg hbelow, ite_self, if_pos ⟨by omega, hcol⟩,
        hlast _ hle (cell_index_lt (by omega) hcol), hblank]
    -- below the last row there is no text, neither before nor after
    · have hout : ¬ (p / w / b < rows ∧ p % w / b < cols) := fun hc => by omega
      have hbelow : ¬ (p / w / b + 1 < rows ∧ p % w / b < cols) := fun hc => by omega
      rw [if_neg hout, if_neg hbelow, ite_self]
  · have hout : ∀ k, ¬ (k < rows ∧ p % w / b < cols) := fun _ hc => hcol hc.2
    rw [if_neg (hout _), if_neg (hout _), ite_self]

end Picture

end TextRaster
