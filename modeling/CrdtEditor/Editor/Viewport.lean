import CrdtEditor.Document.Coordinates

/-!
# Editor/Viewport — the part of the text that is shown

`UI/viewport.cpp` and `EditorWidget::clamp_viewport`.  Clamping is a law about two axes, each on its
own: the offset becomes the smaller of itself and what the text leaves past the visible part.  The code
returns once the lines fit, so the columns follow the law only if the lines do not fit or the column was
in range anyhow: `clamped_iff`.
-/

namespace CrdtEditor

/-- `Viewport`: the line and the column of the text in its corner. -/
@[ext]
structure Viewport where
  firstLine : UInt64
  firstColumn : UInt64
  deriving DecidableEq, Repr

namespace Viewport

/-- A viewport as it is constructed. -/
def initial : Viewport := ⟨0, 0⟩

/-- `set_first_line`, whatever the line. -/
def setFirstLine (v : Viewport) (line : UInt64) : Viewport := { v with firstLine := line }

def setFirstColumn (v : Viewport) (column : UInt64) : Viewport := { v with firstColumn := column }

/-- Either scrolling function on its offset: `static_cast<size_t>` extends the sign.  The least `int`
has no negation, and is left to wrap around here. -/
def scrolled (offset : UInt64) (amount : Int32) : UInt64 :=
  if amount < 0 then
    let distance := (-amount).toInt64.toUInt64
    if distance > offset then 0 else offset - distance
  else offset + amount.toInt64.toUInt64

def scrollLines (v : Viewport) (amount : Int32) : Viewport :=
  { v with firstLine := scrolled v.firstLine amount }

def scrollColumns (v : Viewport) (amount : Int32) : Viewport :=
  { v with firstColumn := scrolled v.firstColumn amount }

/-- `Viewport::clamp`. -/
def clamp (v : Viewport) (documentLines visibleLines documentColumns visibleColumns : UInt64) :
    Viewport :=
  if visibleLines = 0 ∨ documentLines ≤ visibleLines then
    -- the early return: the columns are left alone
    { v with firstLine := 0 }
  else
    let v := { v with firstLine := min v.firstLine (documentLines - visibleLines) }
    if visibleColumns = 0 ∨ documentColumns ≤ visibleColumns then { v with firstColumn := 0 }
    else { v with firstColumn := min v.firstColumn (documentColumns - visibleColumns) }

/-- The calls that change a viewport. -/
inductive Call
  | setFirstLine (line : UInt64)
  | setFirstColumn (column : UInt64)
  | scrollLines (amount : Int32)
  | scrollColumns (amount : Int32)
  | clamp (documentLines visibleLines documentColumns visibleColumns : UInt64)

def call (v : Viewport) : Call → Viewport
  | .setFirstLine line => v.setFirstLine line
  | .setFirstColumn column => v.setFirstColumn column
  | .scrollLines amount => v.scrollLines amount
  | .scrollColumns amount => v.scrollColumns amount
  | .clamp documentLines visibleLines documentColumns visibleColumns =>
    v.clamp documentLines visibleLines documentColumns visibleColumns

/-- The viewport that a sequence of calls leads to. -/
def after (calls : List Call) : Viewport := calls.foldl call initial

/-! ## The law of clamping -/

/-- The largest offset in range on an axis. -/
def limit (document visible : UInt64) : UInt64 :=
  if visible = 0 ∨ document ≤ visible then 0 else document - visible

/-- What clamping makes of a viewport `v`: both offsets in range, none increased, one that was in range
kept, and nothing left to clamp. -/
structure Clamped (documentLines visibleLines documentColumns visibleColumns : UInt64)
    (v w : Viewport) : Prop where
  line_le : w.firstLine ≤ limit documentLines visibleLines
  column_le : w.firstColumn ≤ limit documentColumns visibleColumns
  line_le_line : w.firstLine ≤ v.firstLine
  column_le_column : w.firstColumn ≤ v.firstColumn
  line_eq : v.firstLine ≤ limit documentLines visibleLines → w.firstLine = v.firstLine
  column_eq : v.firstColumn ≤ limit documentColumns visibleColumns → w.firstColumn = v.firstColumn
  clamp_eq : w.clamp documentLines visibleLines documentColumns visibleColumns = w

section

variable (v : Viewport) (documentLines visibleLines documentColumns visibleColumns : UInt64)

/-- **The lines follow the law** on either branch. -/
theorem firstLine_clamp :
    (v.clamp documentLines visibleLines documentColumns visibleColumns).firstLine
      = min v.firstLine (limit documentLines visibleLines) := by
  have hzero : min v.firstLine 0 = 0 := min_eq_right UInt64.zero_le
  simp only [clamp, limit]
  split_ifs <;> simp only [hzero]

/-- The columns follow their law if the lines do not fit. -/
theorem firstColumn_clamp :
    (v.clamp documentLines visibleLines documentColumns visibleColumns).firstColumn
      = if visibleLines = 0 ∨ documentLines ≤ visibleLines then v.firstColumn
        else min v.firstColumn (limit documentColumns visibleColumns) := by
  have hzero : min v.firstColumn 0 = 0 := min_eq_right UInt64.zero_le
  simp only [clamp, limit]
  split_ifs <;> simp only [hzero]

/-- Clamping twice is clamping once. -/
theorem clamp_clamp :
    (v.clamp documentLines visibleLines documentColumns visibleColumns).clamp
        documentLines visibleLines documentColumns visibleColumns
      = v.clamp documentLines visibleLines documentColumns visibleColumns := by
  ext
  · rw [firstLine_clamp, firstLine_clamp, min_assoc, min_self]
  · rw [firstColumn_clamp, firstColumn_clamp]
    split_ifs
    · rfl
    · rw [min_assoc, min_self]

variable {v documentLines visibleLines documentColumns visibleColumns}

/-- Of the whole law only the bound of the columns is in question. -/
theorem clamped_of_column_le
    (h : (v.clamp documentLines visibleLines documentColumns visibleColumns).firstColumn
      ≤ limit documentColumns visibleColumns) :
    Clamped documentLines visibleLines documentColumns visibleColumns v
      (v.clamp documentLines visibleLines documentColumns visibleColumns) where
  line_le := (firstLine_clamp ..).trans_le (min_le_right _ _)
  column_le := h
  line_le_line := (firstLine_clamp ..).trans_le (min_le_left _ _)
  column_le_column := by
    rw [firstColumn_clamp]
    split_ifs
    · exact le_rfl
    · exact min_le_left _ _
  line_eq hle := (firstLine_clamp ..).trans (min_eq_left hle)
  column_eq hle := by
    rw [firstColumn_clamp]
    split_ifs
    · rfl
    · exact min_eq_left hle
  clamp_eq := clamp_clamp ..

end

/-- **What clamping bounds**, whatever calls lead to the viewport: both axes, if the lines do not fit or
the first column was in range before. -/
theorem clamped_iff (calls : List Call)
    (documentLines visibleLines documentColumns visibleColumns : UInt64) :
    Clamped documentLines visibleLines documentColumns visibleColumns (after calls)
        ((after calls).clamp documentLines visibleLines documentColumns visibleColumns) ↔
      ¬ (visibleLines = 0 ∨ documentLines ≤ visibleLines) ∨
        (after calls).firstColumn ≤ limit documentColumns visibleColumns := by
  constructor
  · intro h
    by_cases hfit : visibleLines = 0 ∨ documentLines ≤ visibleLines
    · have hle := h.column_le
      rw [firstColumn_clamp, if_pos hfit] at hle
      exact Or.inr hle
    · exact Or.inl hfit
  · intro h
    refine clamped_of_column_le ?_
    rw [firstColumn_clamp]
    split_ifs with hfit
    · exact h.resolve_left (not_not_intro hfit)
    · exact min_le_right _ _

/-- One line of three characters in a window of ten by ten: the viewport keeps its seventh column. -/
theorem not_clamped_of_fitting_lines :
    ¬ Clamped 1 10 3 10 (after [.setFirstColumn 7]) ((after [.setFirstColumn 7]).clamp 1 10 3 10) :=
  fun h => absurd h.column_le (by decide)

/-! ## The widget -/

/-- How many cells of a size there are in an extent, less the margin in front of the text. -/
def visibleCells (extent margin cell : ℤ) : UInt64 :=
  UInt64.ofNat (max 1 (extent - margin) / cell).toNat

/-- `TEXT_X` and `TEXT_Y`, the margins of the text. -/
def textX : ℤ := 5

def textY : ℤ := 5

/-- `EditorWidget::clamp_viewport`, for the sizes that Qt reports. -/
def clampViewport (v : Viewport) (d : Document) (height width lineHeight charWidth : ℤ) :
    Except Exn Viewport := do
  if lineHeight ≤ 0 ∨ charWidth ≤ 0 then return v
  let documentLines ← d.getLineCount
  let documentColumns ← d.getMaxLineLength
  return v.clamp (UInt64.ofNat documentLines) (visibleCells height textY lineHeight)
    (UInt64.ofNat documentColumns) (visibleCells width textX charWidth)

/-- The limit of an axis with a cell on it is a cell of it. -/
theorem limit_lt {document : UInt64} (h : 0 < document) (visible : UInt64) :
    limit document visible < document := by
  rw [limit]
  split_ifs with hfit
  · exact h
  · rw [not_or, not_le] at hfit
    rw [UInt64.lt_iff_toNat_lt, UInt64.toNat_sub_of_le _ _ hfit.2.le]
    have hpos : visible.toNat ≠ 0 := fun hz => hfit.1 (UInt64.toNat_inj.mp hz)
    have hlt := UInt64.lt_iff_toNat_lt.mp hfit.2
    omega

/-- The line a clamped viewport begins with is a line of the text, and no column is skipped. -/
theorem exists_clampViewport (v : Viewport) {d : Document} (ht : d.IsTree)
    {height width lineHeight charWidth : ℤ} (hline : 0 < lineHeight) (hchar : 0 < charWidth)
    (hlt : (Text.lines d.text).length < 2 ^ 64) :
    ∃ w, v.clampViewport d height width lineHeight charWidth = .ok w ∧
      w.firstLine.toNat < (Text.lines d.text).length ∧ w.firstColumn ≤ v.firstColumn := by
  obtain ⟨columns, hcolumns, -⟩ := ht.getMaxLineLength_eq
  set visible := visibleCells height textY lineHeight
  refine ⟨v.clamp (UInt64.ofNat (Text.lines d.text).length) visible (UInt64.ofNat columns)
    (visibleCells width textX charWidth), ?_, ?_, ?_⟩
  · simp only [clampViewport, not_or.mpr ⟨hline.not_ge, hchar.not_ge⟩, if_false,
      ht.getLineCount_eq, hcolumns]
    rfl
  · have hcount : (UInt64.ofNat (Text.lines d.text).length).toNat = (Text.lines d.text).length :=
      UInt64.toNat_ofNat_of_lt hlt
    have hpos : 0 < UInt64.ofNat (Text.lines d.text).length := by
      rw [UInt64.lt_iff_toNat_lt, hcount]
      exact List.length_pos_of_ne_nil (List.splitOn_ne_nil _ _)
    have hle : (v.clamp (UInt64.ofNat (Text.lines d.text).length) visible (UInt64.ofNat columns)
        (visibleCells width textX charWidth)).firstLine
        ≤ limit (UInt64.ofNat (Text.lines d.text).length) visible :=
      (firstLine_clamp ..).trans_le (min_le_right _ _)
    have hlimit := UInt64.lt_iff_toNat_lt.mp (hle.trans_lt (limit_lt hpos visible))
    rwa [hcount] at hlimit
  · rw [firstColumn_clamp]
    split_ifs
    · exact le_rfl
    · exact min_le_left _ _

end Viewport

end CrdtEditor
