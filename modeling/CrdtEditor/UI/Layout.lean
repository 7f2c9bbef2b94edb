import CrdtEditor.Editor.Viewport

/-!
# UI/Layout — pixels and positions

`EditorWidget::document_to_screen`, `screen_to_document_position` and `ensure_cursor_visible`.  Every
character has a cell; a pixel of the cell of a position leads back to the position
(`screenToDocumentPosition_of_mem`), and the cell of the caret is in the window once it was made visible
(`Viewport.shows_ensureCursorVisible`).

Pixels are unbounded integers here.  `Viewport.Exact` says that no `int` of the source overflows where it
computes the place of a position: so it is for every cell in the window (`Viewport.Shows.exact`), and for
every position whose line and column times the size of a cell are `int`s (`Viewport.exact_of_le`).
-/

namespace CrdtEditor

/-- What `QFontMetrics` reports: the advance of an `M`, the height of a line and the ascent. -/
structure FontMetrics where
  charWidth : ℤ
  lineHeight : ℤ
  ascent : ℤ

/-- `static_cast<int>` of a `size_t`. -/
def castInt (n : ℕ) : ℤ := Int.bmod n (2 ^ 32)

theorem castInt_of_lt {n : ℕ} (h : n < 2 ^ 31) : castInt n = n :=
  Int.bmod_eq_of_le (by omega) (by omega)

theorem castInt_succ {n : ℕ} (h : n + 1 < 2 ^ 31) : castInt (n + 1) = castInt n + 1 := by
  rw [castInt_of_lt h, castInt_of_lt (by omega)]
  push_cast
  rfl

namespace Viewport

/-- `EditorWidget::document_to_screen`. -/
def documentToScreen (v : Viewport) (m : FontMetrics) (line column : ℕ) : ℤ × ℤ :=
  (textX + (castInt column - castInt v.firstColumn.toNat) * m.charWidth,
   textY + (castInt line - castInt v.firstLine.toNat) * m.lineHeight)

/-- `EditorWidget::screen_to_document_position`. -/
def screenToDocumentPosition (v : Viewport) (m : FontMetrics) (x y : ℤ) : ℕ × ℕ :=
  let relativeX := x - textX
  let relativeY := y - textY
  if relativeX < 0 ∨ relativeY < 0 then (0, 0)
  else
    ((v.firstLine + UInt64.ofInt (relativeY.tdiv m.lineHeight)).toNat,
     (v.firstColumn + UInt64.ofInt (relativeX.tdiv m.charWidth)).toNat)

/-- Either half of `ensure_cursor_visible`: the offset of an axis that shows a position. -/
def revealed (offset visible position : UInt64) : UInt64 :=
  if position < offset then position
  else if offset + visible ≤ position then position - visible + 1
  else offset

/-- `EditorWidget::ensure_cursor_visible`, for a window of a size. -/
def ensureCursorVisible (v : Viewport) (d : Document) (anchor : ElementID) (m : FontMetrics)
    (height width : ℤ) : Except Exn Viewport := do
  let (line, column) ← d.getCursorPosition anchor
  if m.lineHeight ≤ 0 then return v
  let visibleLines := visibleCells height textY m.lineHeight
  let visibleColumns := visibleCells width textX m.charWidth
  return ((v.setFirstLine (revealed v.firstLine visibleLines (UInt64.ofNat line))).setFirstColumn
    (revealed v.firstColumn visibleColumns (UInt64.ofNat column)))

/-! ## A pixel leads back to its position -/

section

variable {v : Viewport} {m : FontMetrics} {line column : ℕ}

/-- One axis. -/
theorem cell_eq {offset : UInt64} {margin cell pixel : ℤ} {position : ℕ} (hcell : 0 < cell)
    (hle : offset.toNat ≤ position) (hlt : position < 2 ^ 31)
    (hlow : margin + (castInt position - castInt offset.toNat) * cell ≤ pixel)
    (hhigh : pixel < margin + (castInt position - castInt offset.toNat) * cell + cell) :
    0 ≤ pixel - margin ∧
      (offset + UInt64.ofInt ((pixel - margin).tdiv cell)).toNat = position := by
  rw [castInt_of_lt hlt, castInt_of_lt (hle.trans_lt hlt)] at hlow hhigh
  set n : ℕ := position - offset.toNat with hn
  have hdiff : (position : ℤ) - (offset.toNat : ℤ) = n := by omega
  rw [hdiff] at hlow hhigh
  have hpos : 0 ≤ (n : ℤ) * cell := mul_nonneg (Int.natCast_nonneg n) hcell.le
  have hnonneg : 0 ≤ pixel - margin := by linarith
  have hdiv : (pixel - margin).tdiv cell = n := by
    rw [Int.tdiv_eq_ediv_of_nonneg hnonneg]
    refine (Int.ediv_eq_iff_of_pos hcell).mpr ⟨?_, ?_⟩ <;> linarith
  refine ⟨hnonneg, ?_⟩
  have hofInt : UInt64.ofInt (n : ℤ) = UInt64.ofNat n := by
    rw [UInt64.ofInt, Int.emod_eq_of_lt (Int.natCast_nonneg n) (by omega), Int.toNat_natCast]
  rw [hdiv, hofInt, UInt64.toNat_add, UInt64.toNat_ofNat_of_lt' (by rw [UInt64.size]; omega),
    Nat.mod_eq_of_lt (by omega)]
  omega

/-- **A pixel of the cell of a position leads back to the position.** -/
theorem screenToDocumentPosition_of_mem (hchar : 0 < m.charWidth) (hline : 0 < m.lineHeight)
    (hfirstLine : v.firstLine.toNat ≤ line) (hfirstColumn : v.firstColumn.toNat ≤ column)
    (hl : line < 2 ^ 31) (hc : column < 2 ^ 31) {x y : ℤ}
    (hx : (v.documentToScreen m line column).1 ≤ x ∧
      x < (v.documentToScreen m line column).1 + m.charWidth)
    (hy : (v.documentToScreen m line column).2 ≤ y ∧
      y < (v.documentToScreen m line column).2 + m.lineHeight) :
    v.screenToDocumentPosition m x y = (line, column) := by
  obtain ⟨hx0, hcolumn⟩ := cell_eq hchar hfirstColumn hc hx.1 hx.2
  obtain ⟨hy0, hline'⟩ := cell_eq hline hfirstLine hl hy.1 hy.2
  rw [screenToDocumentPosition, if_neg (not_or.mpr ⟨hx0.not_gt, hy0.not_gt⟩), hline', hcolumn]

end

/-! ## The caret is in the window -/

/-- The position is in the part of the axis that is shown. -/
structure Revealed (offset visible position : UInt64) : Prop where
  le : offset ≤ position
  lt : position.toNat < offset.toNat + visible.toNat

theorem revealed_spec {offset visible : UInt64} (hvisible : 1 ≤ visible.toNat)
    (hsum : offset.toNat + visible.toNat < 2 ^ 64) (position : UInt64) :
    Revealed (revealed offset visible position) visible position := by
  have hadd : (offset + visible).toNat = offset.toNat + visible.toNat := by
    rw [UInt64.toNat_add, Nat.mod_eq_of_lt hsum]
  rw [revealed]
  by_cases hlt : position < offset
  · rw [if_pos hlt]
    exact ⟨le_rfl, by omega⟩
  rw [if_neg hlt]
  by_cases hle : offset + visible ≤ position
  · rw [if_pos hle]
    have hvle : visible.toNat ≤ position.toNat := by
      have := UInt64.le_iff_toNat_le.mp hle
      omega
    have hone : (1 : UInt64).toNat = 1 := rfl
    have hsub : (position - visible + 1).toNat = position.toNat - visible.toNat + 1 := by
      have := position.toNat_lt
      rw [UInt64.toNat_add, UInt64.toNat_sub_of_le _ _ (UInt64.le_iff_toNat_le.mpr hvle), hone,
        Nat.mod_eq_of_lt (by omega)]
    exact ⟨UInt64.le_iff_toNat_le.mpr (by omega), by omega⟩
  · rw [if_neg hle]
    refine ⟨not_lt.mp hlt, ?_⟩
    have := UInt64.lt_iff_toNat_lt.mp (not_le.mp hle)
    omega

/-- How many whole cells there are in an extent that has one. -/
theorem toNat_visibleCells_eq {extent margin cell : ℤ} (hcell : 0 < cell)
    (hfits : cell ≤ extent - margin) (hextent : extent - margin < 2 ^ 31) :
    ((visibleCells extent margin cell).toNat : ℤ) = (extent - margin) / cell := by
  have hmax : max 1 (extent - margin) = extent - margin := max_eq_right (by omega)
  have hone : 1 ≤ (extent - margin) / cell := (Int.le_ediv_iff_mul_le hcell).mpr (by omega)
  have hle : (extent - margin) / cell ≤ extent - margin := Int.ediv_le_self _ (by omega)
  rw [visibleCells, hmax, UInt64.toNat_ofNat_of_lt' (by rw [UInt64.size]; omega),
    Int.toNat_of_nonneg (by omega)]

theorem toNat_visibleCells {extent margin cell : ℤ} (hcell : 0 < cell) (hfits : cell ≤ extent - margin)
    (hextent : extent - margin < 2 ^ 31) :
    1 ≤ (visibleCells extent margin cell).toNat ∧ (visibleCells extent margin cell).toNat < 2 ^ 31 ∧
      (visibleCells extent margin cell).toNat * cell ≤ extent - margin := by
  have hcast := toNat_visibleCells_eq hcell hfits hextent
  have hone : 1 ≤ (extent - margin) / cell := (Int.le_ediv_iff_mul_le hcell).mpr (by omega)
  have hle : (extent - margin) / cell ≤ extent - margin := Int.ediv_le_self _ (by omega)
  refine ⟨by omega, by omega, ?_⟩
  rw [hcast]
  exact Int.ediv_mul_le _ hcell.ne'

/-- The window has a cell, and its size is an `int`. -/
structure Roomy (m : FontMetrics) (height width : ℤ) : Prop where
  charWidth : 0 < m.charWidth
  lineHeight : 0 < m.lineHeight
  line : m.lineHeight ≤ height - textY
  column : m.charWidth ≤ width - textX
  height : height < 2 ^ 31
  width : width < 2 ^ 31

instance (m : FontMetrics) (height width : ℤ) : Decidable (Roomy m height width) :=
  decidable_of_iff (0 < m.charWidth ∧ 0 < m.lineHeight ∧ m.lineHeight ≤ height - textY ∧
      m.charWidth ≤ width - textX ∧ height < 2 ^ 31 ∧ width < 2 ^ 31)
    ⟨fun ⟨hc, hl, hline, hcolumn, hh, hw⟩ => ⟨hc, hl, hline, hcolumn, hh, hw⟩,
      fun h => ⟨h.charWidth, h.lineHeight, h.line, h.column, h.height, h.width⟩⟩

/-- **The cell of a position is in the window.** -/
structure Shows (v : Viewport) (m : FontMetrics) (height width : ℤ) (line column : ℕ) : Prop where
  left : textX ≤ (v.documentToScreen m line column).1
  right : (v.documentToScreen m line column).1 + m.charWidth ≤ width
  top : textY ≤ (v.documentToScreen m line column).2
  bottom : (v.documentToScreen m line column).2 + m.lineHeight ≤ height

/-- One axis. -/
theorem cell_mem {offset : UInt64} {extent margin cell : ℤ} {position : ℕ} (hcell : 0 < cell)
    (hfits : cell ≤ extent - margin) (hextent : extent - margin < 2 ^ 31) (hlt : position < 2 ^ 31)
    (h : Revealed offset (visibleCells extent margin cell) (UInt64.ofNat position)) :
    margin ≤ margin + (castInt position - castInt offset.toNat) * cell ∧
      margin + (castInt position - castInt offset.toNat) * cell + cell ≤ extent := by
  obtain ⟨-, -, hcells⟩ := toNat_visibleCells hcell hfits hextent
  have hposition : (UInt64.ofNat position).toNat = position :=
    UInt64.toNat_ofNat_of_lt' (by rw [UInt64.size]; omega)
  have hle := UInt64.le_iff_toNat_le.mp h.le
  have hin := h.lt
  rw [hposition] at hle hin
  rw [castInt_of_lt hlt, castInt_of_lt (hle.trans_lt hlt)]
  have hnonneg : (0 : ℤ) ≤ position - offset.toNat := by omega
  have hsucc : ((position : ℤ) - offset.toNat) + 1 ≤ (visibleCells extent margin cell).toNat := by
    omega
  have hmul := mul_le_mul_of_nonneg_right hsucc hcell.le
  have hpos := mul_nonneg hnonneg hcell.le
  constructor <;> linarith

/-- The caret is made visible on both axes. -/
theorem shows_of_revealed {v : Viewport} {m : FontMetrics} {height width : ℤ} {line column : ℕ}
    (hroomy : Roomy m height width) (hl : line < 2 ^ 31) (hc : column < 2 ^ 31)
    (hline : Revealed v.firstLine (visibleCells height textY m.lineHeight) (UInt64.ofNat line))
    (hcolumn : Revealed v.firstColumn (visibleCells width textX m.charWidth) (UInt64.ofNat column)) :
    v.Shows m height width line column := by
  have htextX : textX = 5 := rfl
  have htextY : textY = 5 := rfl
  have hh := hroomy.height
  have hw := hroomy.width
  obtain ⟨hleft, hright⟩ := cell_mem hroomy.charWidth hroomy.column (by omega) hc hcolumn
  obtain ⟨htop, hbottom⟩ := cell_mem hroomy.lineHeight hroomy.line (by omega) hl hline
  exact ⟨hleft, hright, htop, hbottom⟩

/-! ## No `int` overflows -/

/-- A value of the type `int`. -/
def IsInt (n : ℤ) : Prop := -2 ^ 31 ≤ n ∧ n < 2 ^ 31

/-- One axis of `document_to_screen` in the arithmetic of `int`: the difference, the product, the sum. -/
structure ExactAxis (margin cell : ℤ) (offset : UInt64) (position : ℕ) : Prop where
  difference : IsInt (castInt position - castInt offset.toNat)
  product : IsInt ((castInt position - castInt offset.toNat) * cell)
  sum : IsInt (margin + (castInt position - castInt offset.toNat) * cell)

/-- **The place of a position is computed without an overflow.** -/
structure Exact (v : Viewport) (m : FontMetrics) (line column : ℕ) : Prop where
  column : ExactAxis textX m.charWidth v.firstColumn column
  line : ExactAxis textY m.lineHeight v.firstLine line

/-- One axis: the product is less than the number of cells allows. -/
theorem exactAxis_of_le {offset : UInt64} {margin cell : ℤ} {position n : ℕ} (hmargin : 0 ≤ margin)
    (hcell : 0 < cell) (hposition : position ≤ n) (hoffset : offset.toNat ≤ n)
    (hn : margin + n * cell < 2 ^ 31) : ExactAxis margin cell offset position := by
  have hle : (n : ℤ) ≤ n * cell := le_mul_of_one_le_right (Int.natCast_nonneg n) hcell
  have hdifference : castInt position - castInt offset.toNat = (position : ℤ) - offset.toNat := by
    rw [castInt_of_lt (by omega), castInt_of_lt (by omega)]
  have hlow : -(n * cell) ≤ ((position : ℤ) - offset.toNat) * cell := by
    rw [← neg_mul]
    exact mul_le_mul_of_nonneg_right (by omega) hcell.le
  have hhigh : ((position : ℤ) - offset.toNat) * cell ≤ n * cell :=
    mul_le_mul_of_nonneg_right (by omega) hcell.le
  constructor
  · rw [hdifference]
    constructor <;> omega
  · rw [hdifference]
    constructor <;> linarith
  · rw [hdifference]
    constructor <;> linarith

/-- A text that is not too long is placed exactly. -/
theorem exact_of_le {v : Viewport} {m : FontMetrics} {line column n : ℕ} (hchar : 0 < m.charWidth)
    (hheight : 0 < m.lineHeight) (hline : line ≤ n) (hcolumn : column ≤ n)
    (hfirstLine : v.firstLine.toNat ≤ n) (hfirstColumn : v.firstColumn.toNat ≤ n)
    (hwidth : textX + n * m.charWidth < 2 ^ 31) (hdepth : textY + n * m.lineHeight < 2 ^ 31) :
    v.Exact m line column where
  column := exactAxis_of_le (by decide) hchar hcolumn hfirstColumn hwidth
  line := exactAxis_of_le (by decide) hheight hline hfirstLine hdepth

/-- The offsets are `int`s. -/
structure Small (v : Viewport) : Prop where
  line : v.firstLine.toNat < 2 ^ 31
  column : v.firstColumn.toNat < 2 ^ 31

/-- One axis of a cell that is shown. -/
theorem exactAxis_of_mem {offset : UInt64} {extent margin cell : ℤ} {position : ℕ}
    (hmargin : 0 ≤ margin) (hcell : 0 < cell) (hextent : extent < 2 ^ 31) (hposition : position < 2 ^ 31)
    (hoffset : offset.toNat < 2 ^ 31)
    (hlow : margin ≤ margin + (castInt position - castInt offset.toNat) * cell)
    (hhigh : margin + (castInt position - castInt offset.toNat) * cell + cell ≤ extent) :
    ExactAxis margin cell offset position := by
  constructor
  · rw [castInt_of_lt hposition, castInt_of_lt hoffset]
    constructor <;> omega
  · constructor <;> linarith
  · constructor <;> linarith

/-- **A cell in the window is placed exactly.** -/
theorem Shows.exact {v : Viewport} {m : FontMetrics} {height width : ℤ} {line column : ℕ}
    (h : v.Shows m height width line column) (hroomy : Roomy m height width) (hsmall : v.Small)
    (hl : line < 2 ^ 31) (hc : column < 2 ^ 31) : v.Exact m line column where
  column := exactAxis_of_mem (by decide) hroomy.charWidth hroomy.width hc hsmall.column h.left h.right
  line := exactAxis_of_mem (by decide) hroomy.lineHeight hroomy.height hl hsmall.line h.top h.bottom

/-- **`ensure_cursor_visible` shows the caret.** -/
theorem shows_ensureCursorVisible {v : Viewport} {d : Document} {anchor : ElementID} {m : FontMetrics}
    {height width : ℤ} {line column : ℕ} (hroomy : Roomy m height width) (hsmall : v.Small)
    (hposition : d.getCursorPosition anchor = .ok (line, column)) (hl : line < 2 ^ 31)
    (hc : column < 2 ^ 31) :
    ∃ w, v.ensureCursorVisible d anchor m height width = .ok w ∧ w.Small ∧
      w.Shows m height width line column := by
  have htextX : textX = 5 := rfl
  have htextY : textY = 5 := rfl
  have hh := hroomy.height
  have hw := hroomy.width
  have hfirstLine := hsmall.line
  have hfirstColumn := hsmall.column
  obtain ⟨hlines, hlines', -⟩ := toNat_visibleCells hroomy.lineHeight hroomy.line (by omega)
  obtain ⟨hcolumns, hcolumns', -⟩ := toNat_visibleCells hroomy.charWidth hroomy.column (by omega)
  have hline := revealed_spec hlines (show v.firstLine.toNat + _ < 2 ^ 64 by omega)
    (UInt64.ofNat line)
  have hcolumn := revealed_spec hcolumns (show v.firstColumn.toNat + _ < 2 ^ 64 by omega)
    (UInt64.ofNat column)
  set w := (v.setFirstLine (revealed v.firstLine (visibleCells height textY m.lineHeight)
    (UInt64.ofNat line))).setFirstColumn (revealed v.firstColumn
      (visibleCells width textX m.charWidth) (UInt64.ofNat column))
  have hsmall' : ∀ {offset : UInt64} {position : ℕ}, position < 2 ^ 31 →
      offset ≤ UInt64.ofNat position → offset.toNat < 2 ^ 31 := fun {offset position} hlt hle => by
    have := UInt64.le_iff_toNat_le.mp hle
    rw [UInt64.toNat_ofNat_of_lt' (by rw [UInt64.size]; omega)] at this
    omega
  refine ⟨w, ?_, ⟨hsmall' hl hline.le, hsmall' hc hcolumn.le⟩,
    shows_of_revealed (v := w) hroomy hl hc hline hcolumn⟩
  rw [ensureCursorVisible, hposition]
  simp only [bind, Except.bind, if_neg hroomy.lineHeight.not_ge]
  rfl

end Viewport

end CrdtEditor
