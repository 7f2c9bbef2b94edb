import CrdtEditor.Session.Marked
import CrdtEditor.UI.EditorWidget

/-!
# UI/Mouse — clicking and dragging on the text

Whatever led to a window, a click on a pixel of the cell of a position puts the caret there, unless the
position is scrolled past the top or the left edge, and scrolls nothing if the cell is in the window
(`EditorWidget.click`).
Dragging from one cell to another and deleting takes out the text between them: `drag_backspace`.
-/

namespace CrdtEditor

open Text

namespace MarkedEditor

/-- The position nearest to a position of the text is that position. -/
theorem nearest_position {text : Str} {k : ℕ} (hk : k ≤ text.length) :
    nearest text (position (text.take k)).1 (position (text.take k)).2 = k := by
  obtain ⟨n, hn, hc, hoff⟩ := position_take hk
  have hlt : (position (text.take k)).1 < (lines text).length := by
    by_contra hge
    rw [lineLength, List.getElem?_eq_none (not_lt.mp hge)] at hn
    cases hn
  rw [nearest, min_eq_left (Nat.le_sub_one_of_lt hlt), hn, Option.getD_some, min_eq_left hc]
  exact hoff

end MarkedEditor

namespace Viewport

/-- A pixel of the cell of a position. -/
structure OnCell (v : Viewport) (m : FontMetrics) (line column : ℕ) (x y : ℤ) : Prop where
  left : (v.documentToScreen m line column).1 ≤ x
  right : x < (v.documentToScreen m line column).1 + m.charWidth
  top : (v.documentToScreen m line column).2 ≤ y
  bottom : y < (v.documentToScreen m line column).2 + m.lineHeight

variable {v : Viewport} {m : FontMetrics} {height width : ℤ} {line column : ℕ}

/-- One axis: a cell that is shown is not scrolled away, and nothing is scrolled to show it. -/
theorem revealed_of_cell {offset : UInt64} {extent margin cell : ℤ} {position : ℕ} (hcell : 0 < cell)
    (hfits : cell ≤ extent - margin) (hextent : extent - margin < 2 ^ 31) (hlt : position < 2 ^ 31)
    (hoffset : offset.toNat < 2 ^ 31)
    (hlow : margin ≤ margin + (castInt position - castInt offset.toNat) * cell)
    (hhigh : margin + (castInt position - castInt offset.toNat) * cell + cell ≤ extent) :
    offset.toNat ≤ position ∧
      revealed offset (visibleCells extent margin cell) (UInt64.ofNat position) = offset := by
  rw [castInt_of_lt hlt, castInt_of_lt hoffset] at hlow hhigh
  have hposition : (UInt64.ofNat position).toNat = position :=
    UInt64.toNat_ofNat_of_lt' (by rw [UInt64.size]; omega)
  have hnonneg : (0 : ℤ) ≤ position - offset.toNat := by
    by_contra hneg
    have := mul_neg_of_neg_of_pos (not_le.mp hneg) hcell
    linarith
  have hle : offset.toNat ≤ position := by omega
  obtain ⟨-, hbound, -⟩ := toNat_visibleCells hcell hfits hextent
  -- the cells up to the position fit into the extent
  have hcells : (position : ℤ) - offset.toNat + 1 ≤ (visibleCells extent margin cell).toNat := by
    rw [toNat_visibleCells_eq hcell hfits hextent]
    refine (Int.le_ediv_iff_mul_le hcell).mpr ?_
    linarith
  refine ⟨hle, ?_⟩
  have hsum : (offset + visibleCells extent margin cell).toNat =
      offset.toNat + (visibleCells extent margin cell).toNat := by
    rw [UInt64.toNat_add, Nat.mod_eq_of_lt (by omega)]
  have hnot : ¬ UInt64.ofNat position < offset := by
    rw [UInt64.lt_iff_toNat_lt, hposition]
    omega
  have hnot' : ¬ offset + visibleCells extent margin cell ≤ UInt64.ofNat position := by
    rw [UInt64.le_iff_toNat_le, hposition, hsum]
    omega
  rw [revealed, if_neg hnot, if_neg hnot']

/-- A cell that is shown is not scrolled away. -/
theorem Shows.le (h : v.Shows m height width line column) (hroomy : Roomy m height width)
    (hsmall : v.Small) (hl : line < 2 ^ 31) (hc : column < 2 ^ 31) :
    v.firstLine.toNat ≤ line ∧ v.firstColumn.toNat ≤ column := by
  have hh := hroomy.height
  have hw := hroomy.width
  have htextX : textX = 5 := rfl
  have htextY : textY = 5 := rfl
  exact ⟨(revealed_of_cell hroomy.lineHeight hroomy.line (by omega) hl hsmall.line h.top h.bottom).1,
    (revealed_of_cell hroomy.charWidth hroomy.column (by omega) hc hsmall.column h.left h.right).1⟩

/-- **A caret whose cell is shown scrolls nothing.** -/
theorem Shows.ensureCursorVisible (h : v.Shows m height width line column)
    (hroomy : Roomy m height width) (hsmall : v.Small) (hl : line < 2 ^ 31) (hc : column < 2 ^ 31)
    {d : Document} {anchor : ElementID}
    (hposition : d.getCursorPosition anchor = .ok (line, column)) :
    v.ensureCursorVisible d anchor m height width = .ok v := by
  have hh := hroomy.height
  have hw := hroomy.width
  have htextX : textX = 5 := rfl
  have htextY : textY = 5 := rfl
  have hline := (revealed_of_cell hroomy.lineHeight hroomy.line (by omega) hl hsmall.line h.top
    h.bottom).2
  have hcolumn := (revealed_of_cell hroomy.charWidth hroomy.column (by omega) hc hsmall.column h.left
    h.right).2
  rw [Viewport.ensureCursorVisible, hposition]
  simp only [bind, Except.bind, if_neg hroomy.lineHeight.not_ge, hline, hcolumn]
  rfl

end Viewport

namespace EditorWidget

open Except (leaving)

variable {m : FontMetrics} {w : EditorWidget} {received : List Operation}

/-! ## Any events leave a tree -/

/-- The document of the widget is a tree. -/
def Rooted (w : EditorWidget) : Prop := w.session.Rooted

theorem Rooted.clampViewport (h : w.Rooted) : (w.clampViewport m).Ends Rooted Rooted :=
  Except.ends_leaving_bind (fun _ _ => h) h

theorem Rooted.ensureCursorVisible (h : w.Rooted) : (w.ensureCursorVisible m).Ends Rooted Rooted :=
  Except.ends_leaving_bind (fun _ _ => h) h

theorem rooted_onSession {r : EditorSession.Result}
    (h : r.Ends EditorSession.Rooted EditorSession.Rooted) :
    (w.onSession r).Ends Rooted Rooted := by
  cases r with
  | ok s => exact h
  | error e => exact h

/-- **One event**, whatever it is and however it ends. -/
theorem Rooted.event (h : w.Rooted) (e : Event) : (w.event m e).Ends Rooted Rooted := by
  cases e with
  | keyPress key shift text =>
    have hcommands : ((key.commands shift text).foldlM EditorSession.handleEditorCommand
        w.session).Ends EditorSession.Rooted EditorSession.Rooted :=
      Except.ends_foldlM (I := fun _ => EditorSession.Rooted)
        (fun command _ s hs => hs.handleEditorCommand command) h
    refine (rooted_onSession hcommands).bind fun w₁ h₁ => ?_
    have hput : (w₁.put w₁.session.queueCursorUpdate).resetCursorBlink.Rooted := h₁
    exact hput.clampViewport.bind fun w₂ h₂ => h₂.ensureCursorVisible
  | mousePress button x y =>
    refine Except.ends_ite (fun _ => h) fun _ => ?_
    refine Except.ends_leaving_bind (fun anchor _ => ?_) h
    cases anchor with
    | none => exact h
    | some anchor =>
      have hset : (w.session.setPosition anchor).Ends EditorSession.Rooted EditorSession.Rooted :=
        Except.ends_leaving_bind (fun _ _ => h) h
      refine (rooted_onSession hset).bind fun w₁ h₁ => ?_
      exact Rooted.ensureCursorVisible h₁
  | mouseMove x y =>
    refine Except.ends_ite (fun _ => h) fun _ => ?_
    refine Except.ends_leaving_bind (fun anchor _ => ?_) h
    cases anchor with
    | none => exact h
    | some anchor => exact Rooted.ensureCursorVisible h
  | mouseRelease button =>
    change (w.mouseReleaseEvent button).Rooted
    rw [mouseReleaseEvent]
    split <;> exact h
  | wheel delta =>
    change (w.wheelEvent m delta).Ends Rooted Rooted
    rw [wheelEvent]
    refine Rooted.clampViewport ?_
    split
    · exact h
    split
    · exact h
    · exact h
  | resize height width =>
    have hsize : { w with height := height, width := width }.Rooted := h
    exact hsize.clampViewport.bind fun w₁ h₁ => h₁.ensureCursorVisible
  | networkTimer => exact rooted_onSession (EditorSession.Rooted.input h .flush)
  | cursorBlinkTimer => exact h
  | receive message => exact h

/-- A widget that any events lead to, honest or not. -/
def Led (m : FontMetrics) (w : EditorWidget) : Prop :=
  ∃ (clientId : Str) (height width : ℤ) (events : List Event),
    w = (after m clientId height width events).1

/-- **Any events leave a tree.** -/
theorem Led.rooted (h : w.Led m) : w.Rooted := by
  obtain ⟨clientId, height, width, events, rfl⟩ := h
  induction events using List.reverseRecOn with
  | nil => exact Document.isTree_empty
  | append_singleton events e ih =>
    rw [after, List.foldl_append]
    exact (Rooted.event ih e).state

/-! ## A click -/

/-- The widget of a click behind the anchor number `k`, before the viewport follows. -/
def clicked (w : EditorWidget) (x : ElementID) (k : ℕ) : EditorWidget :=
  { w with
    session := ({ w.session with cursor := w.session.clicked x k } : EditorSession).queueCursorUpdate
    selecting := true
    cursorVisible := true }

/-- The widget of a drag. -/
def dragged (w : EditorWidget) (x : ElementID) : EditorWidget :=
  { w with
    session := { w.session with cursor := w.session.dragged x }
    cursorVisible := true }

/-- The anchor a pixel points at. -/
def pointed (w : EditorWidget) (m : FontMetrics) (x y : ℤ) : ℕ :=
  MarkedEditor.nearest w.session.doc.text (w.viewport.screenToDocumentPosition m x y).1
    (w.viewport.screenToDocumentPosition m x y).2

/-- The mouse points at an anchor, and the viewport can follow the caret there. -/
theorem Rooted.exists_pointed (h : w.Rooted) (x y : ℤ) :
    ∃ a v, w.session.doc.anchors[w.pointed m x y]? = some a ∧
      w.session.anchorNear (w.viewport.screenToDocumentPosition m x y).1
        (w.viewport.screenToDocumentPosition m x y).2 = .ok (some a) ∧
      w.viewport.ensureCursorVisible w.session.doc a m w.height w.width = .ok v := by
  obtain ⟨a, ha, hnear⟩ := EditorSession.exists_anchorNear h
    (w.viewport.screenToDocumentPosition m x y).1 (w.viewport.screenToDocumentPosition m x y).2
  obtain ⟨v, hv⟩ : ∃ v, w.viewport.ensureCursorVisible w.session.doc a m w.height w.width = .ok v := by
    rw [Viewport.ensureCursorVisible, h.getCursorPosition_getElem? ha]
    simp only [bind, Except.bind]
    split <;> exact ⟨_, rfl⟩
  exact ⟨a, v, ha, hnear, hv⟩

theorem ensureCursorVisible_eq {v : Viewport}
    (hv : w.viewport.ensureCursorVisible w.session.doc w.session.cursor.anchor m w.height w.width =
      .ok v) : w.ensureCursorVisible m = .ok { w with viewport := v } := by
  rw [EditorWidget.ensureCursorVisible, hv]
  rfl

/-- **A click returns**, and puts the caret behind the anchor it points at. -/
theorem Rooted.mousePressEvent (h : w.Rooted) (x y : ℤ) :
    ∃ a v, w.session.doc.anchors[w.pointed m x y]? = some a ∧
      w.viewport.ensureCursorVisible w.session.doc a m w.height w.width = .ok v ∧
      w.mousePressEvent m .left x y =
        .ok { w.clicked a (w.pointed m x y) with viewport := v } := by
  obtain ⟨a, v, ha, hnear, hv⟩ := h.exists_pointed (m := m) x y
  refine ⟨a, v, ha, hv, ?_⟩
  rw [EditorWidget.mousePressEvent]
  simp only [hnear, EditorSession.setPosition_eq h ha, leaving, bind, Except.bind, onSession]
  exact ensureCursorVisible_eq (w := w.clicked a (w.pointed m x y)) hv

/-- A drag likewise. -/
theorem Rooted.mouseMoveEvent (h : w.Rooted) (hselecting : w.selecting = true) (x y : ℤ) :
    ∃ a v, w.session.doc.anchors[w.pointed m x y]? = some a ∧
      w.viewport.ensureCursorVisible w.session.doc a m w.height w.width = .ok v ∧
      w.mouseMoveEvent m x y = .ok { w.dragged a with viewport := v } := by
  obtain ⟨a, v, ha, hnear, hv⟩ := h.exists_pointed (m := m) x y
  refine ⟨a, v, ha, hv, ?_⟩
  rw [EditorWidget.mouseMoveEvent, hselecting]
  simp only [hnear, leaving, bind, Except.bind]
  exact ensureCursorVisible_eq (w := w.dragged a) hv

/-- A pixel of the cell of a position points at the anchor behind it. -/
theorem pointed_of_onCell {k : ℕ} (hk : k ≤ w.session.doc.text.length) {line column : ℕ}
    (hp : position (w.session.doc.text.take k) = (line, column)) (hchar : 0 < m.charWidth)
    (hline : 0 < m.lineHeight) (hle : w.viewport.firstLine.toNat ≤ line)
    (hle' : w.viewport.firstColumn.toNat ≤ column) (hl : line < 2 ^ 31) (hc : column < 2 ^ 31) {x y : ℤ}
    (hcell : w.viewport.OnCell m line column x y) : w.pointed m x y = k := by
  have hscreen := Viewport.screenToDocumentPosition_of_mem hchar hline hle hle' hl hc
    ⟨hcell.left, hcell.right⟩ ⟨hcell.top, hcell.bottom⟩
  have hnearest := MarkedEditor.nearest_position hk
  rw [hp] at hnearest
  rw [pointed, hscreen]
  exact hnearest

/-- **A click on the cell of a position puts the caret there**, whatever led to the window: the events
need not be honest.  The position is not scrolled past the top or the left edge: a pixel of a cell that
reaches into the margin there is taken for the beginning of the text.  If the cell is in the window nothing
is scrolled, so the caret is drawn where the click was, and its place is computed exactly. -/
theorem click (h : w.Led m) {k : ℕ} {line column : ℕ} {x y : ℤ} (hchar : 0 < m.charWidth)
    (hline : 0 < m.lineHeight) (hk : k ≤ w.session.doc.text.length)
    (hp : position (w.session.doc.text.take k) = (line, column)) (hl : line < 2 ^ 31)
    (hc : column < 2 ^ 31) (hle : w.viewport.firstLine.toNat ≤ line)
    (hle' : w.viewport.firstColumn.toNat ≤ column) (hcell : w.viewport.OnCell m line column x y) :
    ∃ w', w.mousePressEvent m .left x y = .ok w' ∧ w'.session.doc = w.session.doc ∧
      w.session.doc.anchors[k]? = some w'.session.cursor.anchor ∧
      w'.session.doc.getCursorPosition w'.session.cursor.anchor = .ok (line, column) ∧
      (Viewport.Roomy m w.height w.width → w.viewport.Small →
        w.viewport.Shows m w.height w.width line column →
          w'.viewport = w.viewport ∧ w.viewport.Exact m line column) := by
  have h := h.rooted
  obtain ⟨a, v, ha, hv, hpress⟩ := h.mousePressEvent (m := m) x y
  rw [pointed_of_onCell hk hp hchar hline hle hle' hl hc hcell] at ha hpress
  have hposition := h.getCursorPosition_getElem? ha
  rw [hp] at hposition
  refine ⟨_, hpress, rfl, ha, hposition, fun hroomy hsmall hshows => ⟨?_, ?_⟩⟩
  · exact Except.ok.inj (hv.symm.trans (hshows.ensureCursorVisible hroomy hsmall hl hc hposition))
  · exact hshows.exact hroomy hsmall hl hc

/-- The pixel 15, 10 is on the cell behind the first character. -/
theorem click_sample : ∃ w', sampleWidget.1.mousePressEvent sampleMetrics .left 15 10 = .ok w' ∧
    w'.session.doc = sampleWidget.1.session.doc ∧
    sampleWidget.1.session.doc.anchors[1]? = some w'.session.cursor.anchor ∧
    w'.session.doc.getCursorPosition w'.session.cursor.anchor = .ok (0, 1) ∧
    (Viewport.Roomy sampleMetrics sampleWidget.1.height sampleWidget.1.width →
      sampleWidget.1.viewport.Small →
      sampleWidget.1.viewport.Shows sampleMetrics sampleWidget.1.height sampleWidget.1.width 0 1 →
      w'.viewport = sampleWidget.1.viewport ∧ sampleWidget.1.viewport.Exact sampleMetrics 0 1) :=
  click ⟨str "a", 20, 75, sampleEvents, rfl⟩ (by decide) (by decide) (by decide +kernel)
    (by decide +kernel) (by decide) (by decide) (by decide +kernel) (by decide +kernel)
    ⟨by decide +kernel, by decide +kernel, by decide +kernel, by decide +kernel⟩

/-! ## A drag -/

/-- A window that shows the cell of a position points at it there, and is not scrolled by a caret behind
it. -/
theorem Kept.pointed_of_shows (h : w.Kept m received) {k : ℕ} {p : ℕ × ℕ}
    (hk : k ≤ w.session.doc.text.length) (hp : position (w.session.doc.text.take k) = p)
    (hshows : w.viewport.Shows m w.height w.width p.1 p.2) {x y : ℤ}
    (hcell : w.viewport.OnCell m p.1 p.2 x y) :
    w.pointed m x y = k ∧ ∀ {a v}, w.session.doc.anchors[k]? = some a →
      w.viewport.ensureCursorVisible w.session.doc a m w.height w.width = .ok v → v = w.viewport := by
  have htext := h.text
  have hle := (position_le (w.session.doc.text.take k)).trans (List.length_take_le' _ _)
  rw [hp] at hle
  have hl : p.1 < 2 ^ 31 := by omega
  have hc : p.2 < 2 ^ 31 := by omega
  have hsmall : w.viewport.Small := ⟨h.line, h.column⟩
  obtain ⟨hfirst, hfirst'⟩ := hshows.le h.roomy hsmall hl hc
  refine ⟨pointed_of_onCell hk hp h.roomy.charWidth h.roomy.lineHeight hfirst hfirst' hl hc hcell,
    fun {a v} ha hv => ?_⟩
  have hposition := h.sound.tree.getCursorPosition_getElem? ha
  rw [hp] at hposition
  exact Except.ok.inj (hv.symm.trans (hshows.ensureCursorVisible h.roomy hsmall hl hc hposition))

/-- **A click on a cell that is shown** scrolls nothing. -/
theorem Kept.press (h : w.Kept m received) {k : ℕ} {p : ℕ × ℕ} (hk : k ≤ w.session.doc.text.length)
    (hp : position (w.session.doc.text.take k) = p)
    (hshows : w.viewport.Shows m w.height w.width p.1 p.2) {x y : ℤ}
    (hcell : w.viewport.OnCell m p.1 p.2 x y) :
    ∃ a, w.session.doc.anchors[k]? = some a ∧ w.mousePressEvent m .left x y = .ok (w.clicked a k) ∧
      (w.clicked a k).Kept m received := by
  obtain ⟨hpointed, hstays⟩ := h.pointed_of_shows hk hp hshows hcell
  obtain ⟨a, v, ha, hv, hpress⟩ := Rooted.mousePressEvent (m := m) h.sound.tree x y
  rw [hpointed] at ha hpress
  obtain rfl := hstays ha hv
  have hmoved : EditorSession.Sound received { w.session with cursor := w.session.clicked a k } :=
    h.sound.congr rfl rfl rfl rfl rfl (List.mem_of_getElem? ha)
  exact ⟨a, ha, hpress, ⟨hmoved.queueOutgoingMessage _, h.text, h.roomy, h.column⟩, h.line⟩

/-- **A drag to a cell that is shown** likewise. -/
theorem Kept.drag (h : w.Kept m received) (hselecting : w.selecting = true) {k : ℕ} {p : ℕ × ℕ}
    (hk : k ≤ w.session.doc.text.length) (hp : position (w.session.doc.text.take k) = p)
    (hshows : w.viewport.Shows m w.height w.width p.1 p.2) {x y : ℤ}
    (hcell : w.viewport.OnCell m p.1 p.2 x y) :
    ∃ a, w.session.doc.anchors[k]? = some a ∧ w.mouseMoveEvent m x y = .ok (w.dragged a) ∧
      (w.dragged a).Kept m received := by
  obtain ⟨hpointed, hstays⟩ := h.pointed_of_shows hk hp hshows hcell
  obtain ⟨a, v, ha, hv, hmove⟩ := Rooted.mouseMoveEvent (m := m) h.sound.tree hselecting x y
  rw [hpointed] at ha
  obtain rfl := hstays ha hv
  have hmoved : EditorSession.Sound received { w.session with cursor := w.session.dragged a } :=
    h.sound.congr rfl rfl rfl rfl rfl (List.mem_of_getElem? ha)
  exact ⟨a, ha, hmove, ⟨hmoved, h.text, h.roomy, h.column⟩, h.line⟩

/-- **Backspace with a selection**, in the window. -/
theorem Kept.backspace (h : w.Kept m received) (hs : w.session.marked.selects = true) (shift : Bool)
    (text : List UInt16) :
    ∃ w', w.keyPressEvent m .backspace shift text = .ok w' ∧
      w'.session.marked = w.session.marked.cut.rememberColumn := by
  obtain ⟨t, ht, -, hmarked⟩ := h.sound.refines ⟨.backspace, 0⟩ (by decide) fun hn => absurd rfl hn
  have hcut : w.session.marked.run ⟨.backspace, 0⟩ = w.session.marked.cut.rememberColumn := by
    rw [MarkedEditor.run, if_pos ⟨hs, Or.inl rfl⟩]
  rw [hcut] at hmarked
  have hafter : (sessionAfter m (w, received) (.keyPress .backspace shift text)).1 =
      t.queueCursorUpdate := by
    rw [sessionAfter]
    change ((EditorSession.step (EditorSession.step (w.session, received)
      (.command ⟨.backspace, 0⟩)) .queueCursorUpdate).1) = _
    rw [EditorSession.step_of_ok (i := .command ⟨.backspace, 0⟩) ht]
    rfl
  have hlength : t.doc.text.length ≤ w.session.doc.text.length := by
    have htext : t.doc.text = w.session.doc.text.take w.session.marked.span.1 ++
        w.session.doc.text.drop w.session.marked.span.2 :=
      congrArg (fun e : MarkedEditor => e.text) hmarked
    obtain ⟨hlo, hhi, -⟩ := h.sound.placed.span_le
    have hle : w.session.marked.span.1 ≤ w.session.marked.span.2 := hlo.trans hhi
    rw [htext, List.length_append, List.length_take, List.length_drop]
    omega
  have hallows : Allows m (w, received) (.keyPress .backspace shift text) := by
    refine ⟨⟨⟨by decide, fun hn => absurd rfl hn⟩, trivial, trivial⟩, ?_, trivial⟩
    rw [hafter]
    exact hlength.trans_lt h.text
  obtain ⟨w', hw', hsession, -⟩ := h.keyPressEvent hallows
  exact ⟨w', hw', by rw [hsession, hafter]; exact hmarked⟩

/-- **Dragging from one cell to another and deleting takes out the text between them**, in any window an
honest run led to, if no selection was begun before.  Nothing is scrolled on the way. -/
theorem drag_backspace (h : Reached m (w, received)) {i j : ℕ} {p q : ℕ × ℕ} {x y x' y' : ℤ}
    (hi : i ≤ w.session.doc.text.length) (hj : j ≤ w.session.doc.text.length) (hij : i ≠ j)
    (hp : position (w.session.doc.text.take i) = p) (hq : position (w.session.doc.text.take j) = q)
    (hunset : w.session.cursor.selectionAnchor = none)
    (hshows : w.viewport.Shows m w.height w.width p.1 p.2)
    (hshows' : w.viewport.Shows m w.height w.width q.1 q.2) (hcell : w.viewport.OnCell m p.1 p.2 x y)
    (hcell' : w.viewport.OnCell m q.1 q.2 x' y') (shift : Bool) (text : List UInt16) :
    ∃ w₁ w₂ w₃, w.mousePressEvent m .left x y = .ok w₁ ∧ w₁.viewport = w.viewport ∧
      w₁.mouseMoveEvent m x' y' = .ok w₂ ∧ w₂.viewport = w.viewport ∧
      w₂.keyPressEvent m .backspace shift text = .ok w₃ ∧
      w₃.session.doc.text = w.session.doc.text.take (min i j) ++ w.session.doc.text.drop (max i j) ∧
      w₃.session.marked.caret = min i j ∧ w₃.session.marked.mark = .unset := by
  obtain ⟨a, ha, hpress, hkept₁⟩ := h.kept.press hi hp hshows hcell
  obtain ⟨b, hb, hdrag, hkept₂⟩ := hkept₁.drag rfl hj hq hshows' hcell'
  have hmark : w.session.handler.mark = .unset := InputHandler.mark_of_none hunset
  have hmarked₁ : (w.clicked a i).session.marked =
      ({ w.session.marked with caret := i } : MarkedEditor).rememberColumn :=
    EditorSession.marked_clicked h.kept.sound.tree ha
  have hmarked₂ := hkept₁.sound.marked_dragged hb
  have hextended : (w.clicked a i).session.marked.extended = .behind i := by
    have hmark₁ : (w.clicked a i).session.marked.mark = .unset := by
      rw [hmarked₁]
      exact hmark
    rw [MarkedEditor.extended, MarkedEditor.selects, hmark₁, hmarked₁]
    rfl
  rw [hextended, hmarked₁] at hmarked₂
  have hselects : ((w.clicked a i).dragged b).session.marked.selects = true := by
    rw [show ((w.clicked a i).dragged b).session.marked = _ from hmarked₂]
    exact decide_eq_true hij
  obtain ⟨w₃, hw₃, hmarked₃⟩ := hkept₂.backspace hselects shift text
  rw [show ((w.clicked a i).dragged b).session.marked = _ from hmarked₂] at hmarked₃
  refine ⟨_, _, w₃, hpress, rfl, hdrag, rfl, hw₃, ?_, ?_, ?_⟩
  · exact congrArg (fun e : MarkedEditor => e.text) hmarked₃
  · exact congrArg (fun e : MarkedEditor => e.caret) hmarked₃
  · exact congrArg MarkedEditor.mark hmarked₃

/-- Two lines in a window of the smallest size. -/
def twoLines : EditorWidget × List Operation :=
  after sampleMetrics (str "a") 600 800
    [.keyPress .text false [65, 66], .keyPress .return false [13], .keyPress .text false [67]]

theorem reached_twoLines : Reached sampleMetrics twoLines :=
  ⟨str "a", 600, 800, _, by decide, by decide, by decide +kernel, rfl⟩

/-- From behind the last character to behind the first. -/
theorem drag_backspace_twoLines : ∃ w₁ w₂ w₃,
    twoLines.1.mousePressEvent sampleMetrics .left 13 20 = .ok w₁ ∧
      w₁.viewport = twoLines.1.viewport ∧
      w₁.mouseMoveEvent sampleMetrics 15 6 = .ok w₂ ∧ w₂.viewport = twoLines.1.viewport ∧
      w₂.keyPressEvent sampleMetrics .backspace false [8] = .ok w₃ ∧
      w₃.session.doc.text = twoLines.1.session.doc.text.take (min 4 1) ++
        twoLines.1.session.doc.text.drop (max 4 1) ∧
      w₃.session.marked.caret = min 4 1 ∧ w₃.session.marked.mark = .unset :=
  drag_backspace (p := (1, 1)) (q := (0, 1)) reached_twoLines (by decide +kernel) (by decide +kernel)
    (by decide) (by decide +kernel) (by decide +kernel) (by decide +kernel)
    ⟨by decide +kernel, by decide +kernel, by decide +kernel, by decide +kernel⟩
    ⟨by decide +kernel, by decide +kernel, by decide +kernel, by decide +kernel⟩
    ⟨by decide +kernel, by decide +kernel, by decide +kernel, by decide +kernel⟩
    ⟨by decide +kernel, by decide +kernel, by decide +kernel, by decide +kernel⟩ false [8]

end EditorWidget

end CrdtEditor
