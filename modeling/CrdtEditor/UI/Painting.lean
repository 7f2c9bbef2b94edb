import CrdtEditor.Session.Marked
import CrdtEditor.UI.EditorWidget

/-!
# UI/Painting — what the window shows

`EditorWidget::paintEvent`, less pens, colours and the alignment of labels.  The four loops read the
document element by element; what they draw is the picture of the marked editor that the session is: the
selected characters, all characters and the caret, each in the cell of its position (`paintEvent_eq`).
-/

open scoped List

namespace CrdtEditor

open Text

/-- A call of the painter.  A label is a rectangle filled and the id of a client in it. -/
inductive Stroke
  | fillRect (x y width height : ℤ)
  | drawText (x y : ℤ) (c : UInt8)
  | drawLine (x₁ y₁ x₂ y₂ : ℤ)
  | drawLabel (x y width height : ℤ) (label : Str)
  deriving DecidableEq, Repr

namespace EditorWidget

/-- The loop of `draw_document`, at a place of the window. -/
def drawDocumentFrom (v : Viewport) (m : FontMetrics) : ℤ × ℤ → Str → List Stroke
  | _, [] => []
  | (x, y), c :: text =>
    if c = newline then
      drawDocumentFrom v m
        (Viewport.textX - castInt v.firstColumn.toNat * m.charWidth, y + m.lineHeight) text
    else
      .drawText x (y + m.ascent) c :: drawDocumentFrom v m (x + m.charWidth, y) text

def drawDocument (w : EditorWidget) (m : FontMetrics) : Except Exn (List Stroke) := do
  let text ← w.session.doc.render
  return drawDocumentFrom w.viewport m
    (Viewport.textX - castInt w.viewport.firstColumn.toNat * m.charWidth,
      Viewport.textY - castInt w.viewport.firstLine.toNat * m.lineHeight) text

/-- One turn of the loop of `draw_selection`. -/
def drawSelected (w : EditorWidget) (m : FontMetrics) (id : ElementID) :
    Except Exn (Option Stroke) := do
  let c ← w.session.doc.getCharacter id
  if c = newline then return none
  let predecessor ← w.session.doc.visiblePredecessor id
  let (line, column) ← w.session.doc.getCursorPosition predecessor
  let position := w.viewport.documentToScreen m line column
  return some (.fillRect position.1 position.2 m.charWidth m.lineHeight)

def drawSelection (w : EditorWidget) (m : FontMetrics) : Except Exn (List Stroke) := do
  match ← w.session.cursor.normalizedRange w.session.doc with
  | none => return []
  | some range =>
    let selected ← w.session.doc.getVisibleRange range
    let strokes ← selected.mapM (w.drawSelected m)
    return strokes.reduceOption

def drawLocalCursor (w : EditorWidget) (m : FontMetrics) : Except Exn (List Stroke) := do
  if !w.cursorVisible then return []
  let (line, column) ← w.session.doc.getCursorPosition w.session.cursor.anchor
  let position := w.viewport.documentToScreen m line column
  return [.drawLine position.1 position.2 position.1 (position.2 + m.lineHeight)]

/-- The line and the label of the caret of another client; `advance` is the width of a label. -/
def remoteCursor (m : FontMetrics) (advance : Str → ℤ) (clientId : Str) (position : ℤ × ℤ) :
    List Stroke :=
  [.drawLine position.1 position.2 position.1 (position.2 + m.lineHeight),
    .drawLabel (position.1 - (advance clientId).tdiv 2) (position.2 + m.lineHeight)
      (advance clientId + 8) m.lineHeight clientId]

/-- The body of the `try` of `draw_remote_cursors`. -/
def tryRemoteCursor (w : EditorWidget) (m : FontMetrics) (advance : Str → ℤ)
    (e : Sigma fun _ : Str => ElementID) : Except Exn (List Stroke) := do
  match ← w.session.doc.resolveCursorAnchor e.2 with
  | none => return []
  | some resolved =>
    let (line, column) ← w.session.doc.getCursorPosition resolved
    return remoteCursor m advance e.1 (w.viewport.documentToScreen m line column)

/-- One turn of the loop: a `runtime_error` is reported and passed over. -/
def drawRemoteCursor (w : EditorWidget) (m : FontMetrics) (advance : Str → ℤ)
    (e : Sigma fun _ : Str => ElementID) : Except Exn (List Stroke) :=
  match w.tryRemoteCursor m advance e with
  | .error (.runtimeError _) => .ok []
  | r => r

def drawRemoteCursors (w : EditorWidget) (m : FontMetrics) (advance : Str → ℤ) :
    Except Exn (List Stroke) := do
  let strokes ← w.session.remoteCursors.entries.mapM (w.drawRemoteCursor m advance)
  return strokes.flatten

def paintEvent (w : EditorWidget) (m : FontMetrics) (advance : Str → ℤ) :
    Except Exn (List Stroke) := do
  let selection ← w.drawSelection m
  let document ← w.drawDocument m
  let remote ← w.drawRemoteCursors m advance
  let cursor ← w.drawLocalCursor m
  return selection ++ document ++ remote ++ cursor

end EditorWidget

/-! ## The picture of a marked editor -/

namespace Viewport

/-- The corner of the cell behind the first `k` characters. -/
def corner (v : Viewport) (m : FontMetrics) (text : Str) (k : ℕ) : ℤ × ℤ :=
  v.documentToScreen m (position (text.take k)).1 (position (text.take k)).2

/-- A character in the cell of its position; a newline has no glyph. -/
def glyph (v : Viewport) (m : FontMetrics) (c : (ℕ × ℕ) × UInt8) : Option Stroke :=
  if c.2 = newline then none
  else some (.drawText (v.documentToScreen m c.1.1 c.1.2).1
    ((v.documentToScreen m c.1.1 c.1.2).2 + m.ascent) c.2)

/-- The cell of a selected character. -/
def highlight (v : Viewport) (m : FontMetrics) (c : (ℕ × ℕ) × UInt8) : Option Stroke :=
  if c.2 = newline then none
  else some (.fillRect (v.documentToScreen m c.1.1 c.1.2).1 (v.documentToScreen m c.1.1 c.1.2).2
    m.charWidth m.lineHeight)

/-- The caret at the left of a cell. -/
def caret (m : FontMetrics) (corner : ℤ × ℤ) : Stroke :=
  .drawLine corner.1 corner.2 corner.1 (corner.2 + m.lineHeight)

end Viewport

namespace MarkedEditor

/-- The characters between two numbers, with their positions. -/
def part (e : MarkedEditor) (span : ℕ × ℕ) : List ((ℕ × ℕ) × UInt8) :=
  ((placed e.text).take span.2).drop span.1

/-- **The picture**: the selected characters, all characters, the carets of others, and the caret. -/
def picture (e : MarkedEditor) (v : Viewport) (m : FontMetrics) (advance : Str → ℤ)
    (others : List (Str × ℕ)) (blink : Bool) : List Stroke :=
  (e.part e.span).filterMap (v.highlight m) ++ (placed e.text).filterMap (v.glyph m) ++
    others.flatMap (fun o => EditorWidget.remoteCursor m advance o.1 (v.corner m e.text o.2)) ++
    (if blink then [Viewport.caret m (v.corner m e.text e.caret)] else [])

end MarkedEditor

namespace EditorWidget

variable {m : FontMetrics} {w : EditorWidget} {received : List Operation}

/-! ## The four loops -/

/-- The cell one line below, at the margin. -/
theorem documentToScreen_newline (v : Viewport) (m : FontMetrics) {line : ℕ} (column : ℕ)
    (h : line + 1 < 2 ^ 31) : v.documentToScreen m (line + 1) 0 =
      (Viewport.textX - castInt v.firstColumn.toNat * m.charWidth,
        (v.documentToScreen m line column).2 + m.lineHeight) := by
  rw [Viewport.documentToScreen, Viewport.documentToScreen, castInt_succ h]
  refine Prod.ext ?_ ?_
  · change _ + (castInt 0 - _) * _ = _
    rw [show castInt 0 = 0 from rfl]
    ring
  · change _ + _ * _ = _ + _ * _ + _
    ring

/-- The cell to the right. -/
theorem documentToScreen_succ (v : Viewport) (m : FontMetrics) (line : ℕ) {column : ℕ}
    (h : column + 1 < 2 ^ 31) : v.documentToScreen m line (column + 1) =
      ((v.documentToScreen m line column).1 + m.charWidth,
        (v.documentToScreen m line column).2) := by
  rw [Viewport.documentToScreen, Viewport.documentToScreen, castInt_succ h]
  refine Prod.ext ?_ rfl
  change _ + _ * _ = _ + _ * _ + _
  ring

/-- The loop of `draw_document` keeps the place of the next character. -/
theorem drawDocumentFrom_eq (v : Viewport) (m : FontMetrics) : ∀ (text : Str) (p : ℕ × ℕ),
    p.1 + p.2 + text.length < 2 ^ 31 →
    drawDocumentFrom v m (v.documentToScreen m p.1 p.2) text =
      (placedFrom p text).filterMap (v.glyph m)
  | [], _, _ => rfl
  | c :: text, p, hlt => by
      rw [List.length_cons] at hlt
      have hrest := drawDocumentFrom_eq v m text (advance p c)
      by_cases hc : c = newline
      · have hadvance : advance p c = (p.1 + 1, 0) := by rw [advance, if_pos hc]
        rw [hadvance, documentToScreen_newline v m p.2 (by omega)] at hrest
        have hglyph : v.glyph m (p, c) = none := if_pos hc
        rw [placedFrom, List.filterMap_cons_none hglyph, hadvance, ← hrest (by dsimp only; omega),
          drawDocumentFrom, if_pos hc]
      · have hadvance : advance p c = (p.1, p.2 + 1) := by rw [advance, if_neg hc]
        rw [hadvance, documentToScreen_succ v m p.1 (by omega)] at hrest
        have hglyph : v.glyph m (p, c) = some (.drawText (v.documentToScreen m p.1 p.2).1
            ((v.documentToScreen m p.1 p.2).2 + m.ascent) c) := if_neg hc
        rw [placedFrom, List.filterMap_cons_some hglyph, hadvance, ← hrest (by dsimp only; omega)]
        change (if c = newline then _ else _) = _
        rw [if_neg hc]
        rfl

/-- **`draw_document`** draws every character in the cell of its position. -/
theorem Kept.drawDocument_eq (h : w.Kept m received) :
    w.drawDocument m = .ok ((placed w.session.doc.text).filterMap (w.viewport.glyph m)) := by
  have hlt := h.text
  rw [drawDocument, h.sound.tree.render_eq_text, placed, ← drawDocumentFrom_eq w.viewport m _ (0, 0) (by
    rw [Nat.zero_add, Nat.zero_add]; omega)]
  have hcorner : w.viewport.documentToScreen m 0 0 =
      (Viewport.textX - castInt w.viewport.firstColumn.toNat * m.charWidth,
        Viewport.textY - castInt w.viewport.firstLine.toNat * m.lineHeight) := by
    rw [Viewport.documentToScreen, show castInt 0 = 0 from rfl]
    refine Prod.ext ?_ ?_ <;> dsimp only <;> ring
  rw [hcorner]
  rfl

/-- One turn of the loop of `draw_selection` fills the cell of its character. -/
theorem Kept.drawSelected_eq (h : w.Kept m received) {k : ℕ} {x : ElementID} {c : (ℕ × ℕ) × UInt8}
    (hx : w.session.doc.anchors.tail[k]? = some x) (hc : (placed w.session.doc.text)[k]? = some c) :
    w.drawSelected m x = .ok (w.viewport.highlight m c) := by
  have hd := h.sound.tree
  have hx' : w.session.doc.anchors[k + 1]? = some x := by rwa [List.getElem?_tail] at hx
  have hchar : w.session.doc.text[k]? = some (w.session.doc.charOf x) := by
    rw [EditorSession.text_eq_map, List.getElem?_map, hx]
    rfl
  rw [getElem?_placed, hchar] at hc
  obtain rfl := Option.some.inj hc
  obtain ⟨y, hy, hy'⟩ := hd.visiblePredecessor_getElem? hx'
  have hmem := hd.mem_of_mem_anchors (List.mem_of_getElem? hx')
  have hposition := hd.getCursorPosition_getElem? hy'
  rw [Nat.add_sub_cancel] at hposition
  rw [drawSelected, Document.getCharacter_of_mem hmem, hy, Viewport.highlight]
  change (if w.session.doc.charOf x = newline then (Except.ok none : Except Exn (Option Stroke)) else
    w.session.doc.getCursorPosition y >>= fun p => _) = _
  by_cases hnewline : w.session.doc.charOf x = newline
  · rw [if_pos hnewline, if_pos hnewline]
  · rw [if_neg hnewline, if_neg hnewline, hposition]
    rfl

/-- **`draw_selection`** fills the cells of the selected characters. -/
theorem Kept.drawSelection_eq (h : w.Kept m received) :
    w.drawSelection m =
      .ok ((w.session.marked.part w.session.marked.span).filterMap (w.viewport.highlight m)) := by
  have hlength : w.session.doc.anchors.tail.length = (placed w.session.doc.text).length := by
    rw [List.length_tail, Document.IsTree.length_anchors, placed, length_placedFrom]
    rfl
  have hall : List.Forall₂ (fun x c => w.drawSelected m x = .ok (w.viewport.highlight m c))
      w.session.doc.anchors.tail (placed w.session.doc.text) :=
    List.forall₂_of_length_eq_of_get hlength fun k hk hk' =>
      h.drawSelected_eq (List.getElem?_eq_getElem hk) (List.getElem?_eq_getElem hk')
  have hstrokes : w.session.handler.selected.mapM (w.drawSelected m) =
      .ok ((w.session.marked.part w.session.marked.span).map (w.viewport.highlight m)) :=
    Except.mapM_of_forall₂ (List.forall₂_map_right_iff.mpr
      (List.forall₂_drop _ (List.forall₂_take _ hall)))
  rw [drawSelection]
  obtain ⟨hrange, hnone⟩ | ⟨range, hrange, hvisible⟩ := h.sound.placed.exists_visibleRange
  · rw [hnone] at hstrokes
    have hpart : (w.session.marked.part w.session.marked.span).map (w.viewport.highlight m) = [] :=
      (Except.ok.inj hstrokes).symm
    rw [List.map_eq_nil_iff.mp hpart]
    exact congrArg (· >>= _) hrange
  · have hrange' : w.session.cursor.normalizedRange w.session.doc = .ok (some range) := hrange
    have hvisible' : w.session.doc.getVisibleRange range = .ok w.session.handler.selected := hvisible
    rw [hrange']
    change (w.session.doc.getVisibleRange range >>= fun selected => _) = _
    rw [hvisible']
    change (w.session.handler.selected.mapM (w.drawSelected m) >>= fun strokes => _) = _
    rw [hstrokes]
    exact congrArg Except.ok List.filterMap_map

/-! ## The carets -/

/-- **`draw_local_cursor`** draws the caret in the corner of its cell. -/
theorem Kept.drawLocalCursor_eq (h : w.Kept m received) :
    w.drawLocalCursor m = .ok (if w.cursorVisible then
      [Viewport.caret m (w.viewport.corner m w.session.doc.text w.session.marked.caret)] else []) := by
  have hposition : w.session.doc.getCursorPosition w.session.cursor.anchor =
      .ok (position (w.session.doc.text.take w.session.marked.caret)) :=
    h.sound.tree.getCursorPosition_getElem? h.sound.placed.getElem?_caret
  rw [drawLocalCursor, hposition]
  cases w.cursorVisible <;> rfl

/-- Where the carets of other clients stand: behind the characters that are visible up to the element that
the entry of each in `remote_cursors` names. -/
def carets (w : EditorWidget) : List (Str × ℕ) :=
  w.session.remoteCursors.entries.map fun e => (e.1, w.session.doc.visibleThrough e.2)

/-- **`draw_remote_cursors`** draws the carets of the others; none is passed over. -/
theorem Kept.drawRemoteCursors_eq (h : w.Kept m received) (advance : Str → ℤ) :
    w.drawRemoteCursors m advance = .ok (w.carets.flatMap fun c =>
      remoteCursor m advance c.1 (w.viewport.corner m w.session.doc.text c.2)) := by
  have hcursor : ∀ e ∈ w.session.remoteCursors.entries, w.drawRemoteCursor m advance e =
      .ok (remoteCursor m advance e.1
        (w.viewport.corner m w.session.doc.text (w.session.doc.visibleThrough e.2))) := fun e he => by
    have hmem := h.sound.remote e.1 e.2 (UMap.mem_entries.mp he)
    obtain ⟨x, hx, hget⟩ := h.sound.tree.resolveCursorAnchor_getElem? hmem
    have hposition := h.sound.tree.getCursorPosition_getElem? hget
    have hstrokes : w.tryRemoteCursor m advance e = .ok (remoteCursor m advance e.1
        (w.viewport.corner m w.session.doc.text (w.session.doc.visibleThrough e.2))) := by
      rw [tryRemoteCursor, hx]
      change (w.session.doc.getCursorPosition x >>= fun p => _) = _
      rw [hposition]
      rfl
    rw [drawRemoteCursor, hstrokes]
  rw [drawRemoteCursors, Except.mapM_eq_ok hcursor, carets, List.flatMap_map]
  exact congrArg Except.ok List.flatMap_def.symm

/-- **`paintEvent` draws the picture** of the marked editor that the session is, and never throws. -/
theorem paintEvent_eq {c : EditorWidget × List Operation} (h : Reached m c) (advance : Str → ℤ) :
    c.1.paintEvent m advance =
      .ok (c.1.session.marked.picture c.1.viewport m advance c.1.carets c.1.cursorVisible) := by
  have hk := h.kept
  rw [paintEvent, hk.drawSelection_eq, hk.drawDocument_eq, hk.drawRemoteCursors_eq advance,
    hk.drawLocalCursor_eq]
  rfl

/-- **Every cell of the text is placed exactly** while as many cells as the text has characters, or the
viewport is scrolled, are no more pixels than an `int` counts. -/
theorem Kept.exact (h : w.Kept m received) {n : ℕ} (hn : w.session.doc.text.length ≤ n)
    (hfirstLine : w.viewport.firstLine.toNat ≤ n) (hfirstColumn : w.viewport.firstColumn.toNat ≤ n)
    (hwidth : Viewport.textX + n * m.charWidth < 2 ^ 31)
    (hdepth : Viewport.textY + n * m.lineHeight < 2 ^ 31) (k : ℕ) :
    w.viewport.Exact m (position (w.session.doc.text.take k)).1
      (position (w.session.doc.text.take k)).2 := by
  have hle := (position_le (w.session.doc.text.take k)).trans (List.length_take_le' _ _)
  exact Viewport.exact_of_le h.roomy.charWidth h.roomy.lineHeight (by omega) (by omega) hfirstLine
    hfirstColumn hwidth hdepth

/-- Two lines of two letters, the second line selected from its end, and another client behind `B`. -/
def paintedEvents : List Event :=
  [.keyPress .text false [65, 66], .keyPress .return false [13], .keyPress .text false [67, 68],
    .receive ⟨.cursorUpdate, str "b", .cursorUpdate ⟨2, str "a"⟩⟩, .networkTimer, .keyPress .up true []]

def paintedWidget : EditorWidget × List Operation := after sampleMetrics (str "a") 200 200 paintedEvents

theorem paintEvent_eq_twoLines :
    paintedWidget.1.paintEvent sampleMetrics (fun label => 7 * label.length) =
        .ok (paintedWidget.1.session.marked.picture paintedWidget.1.viewport sampleMetrics
          (fun label => 7 * label.length) paintedWidget.1.carets paintedWidget.1.cursorVisible) ∧
      paintedWidget.1.session.marked.picture paintedWidget.1.viewport sampleMetrics
          (fun label => 7 * label.length) paintedWidget.1.carets paintedWidget.1.cursorVisible =
        [.fillRect 5 19 7 14, .fillRect 12 19 7 14, .drawText 5 16 65, .drawText 12 16 66,
          .drawText 5 30 67, .drawText 12 30 68, .drawLine 19 5 19 19,
          .drawLabel 16 19 15 14 (str "b"), .drawLine 19 5 19 19] :=
  ⟨paintEvent_eq ⟨str "a", 200, 200, paintedEvents, by decide, by decide, by decide +kernel, rfl⟩ _,
    by decide +kernel⟩

end EditorWidget

end CrdtEditor
