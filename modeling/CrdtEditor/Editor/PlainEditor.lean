import CrdtEditor.Editor.InputHandler

/-!
# Editor/PlainEditor — the editor the commands stand for

A plain editor holds a text, a caret between its characters and the column vertical moves aim at.
`InputHandler.view` is the plain editor a handler shows: the text of its document and the number of
visible elements up to its anchor.  Every move of the handler is the move of the plain editor
(`moves_moveLeft` and its siblings); the document is not touched.
-/

open scoped List

namespace CrdtEditor

open Text

/-- A text editor: the characters, how many of them are in front of the caret, and the column that
vertical moves aim at. -/
structure PlainEditor where
  text : Str
  caret : ℕ
  column : Option ℕ
  deriving DecidableEq, Repr

namespace PlainEditor

/-- The line and column of the caret. -/
def position (e : PlainEditor) : ℕ × ℕ := Text.position (e.text.take e.caret)

/-- A character at the caret, which goes behind it. -/
def insert (e : PlainEditor) (c : UInt8) : PlainEditor :=
  { e with text := e.text.take e.caret ++ c :: e.text.drop e.caret, caret := e.caret + 1 }

/-- Delete the character in front of the caret. -/
def backspace (e : PlainEditor) : PlainEditor :=
  if e.caret = 0 then e
  else { e with text := e.text.eraseIdx (e.caret - 1), caret := e.caret - 1 }

/-- Delete the character behind the caret. -/
def deleteForward (e : PlainEditor) : PlainEditor := { e with text := e.text.eraseIdx e.caret }

/-- One character to the left. -/
def left (e : PlainEditor) : PlainEditor := { e with caret := e.caret - 1 }

/-- One character to the right. -/
def right (e : PlainEditor) : PlainEditor := { e with caret := min (e.caret + 1) e.text.length }

/-- To a line, at the remembered column (the given one where none is remembered) or at the end of a
shorter line; nothing where there is no such line. -/
def toLine (e : PlainEditor) (line column : ℕ) : PlainEditor :=
  match lineLength e.text line with
  | none => e
  | some length =>
    { e with
      caret := offset e.text line (min (e.column.getD column) length)
      column := some (e.column.getD column) }

/-- To the line above. -/
def up (e : PlainEditor) : PlainEditor :=
  match e.position.1 with
  | 0 => e
  | line + 1 => e.toLine line e.position.2

/-- To the line below. -/
def down (e : PlainEditor) : PlainEditor := e.toLine (e.position.1 + 1) e.position.2

/-- Remember the current column for the next vertical move. -/
def rememberColumn (e : PlainEditor) : PlainEditor := { e with column := some e.position.2 }

/-- **What a command does.** -/
def run (e : PlainEditor) (command : EditorCommand) : PlainEditor :=
  match command.type with
  | .insertCharacter => (e.insert command.character).rememberColumn
  | .enter => (e.insert newline).rememberColumn
  | .backspace => e.backspace.rememberColumn
  | .deleteForward => e.deleteForward.rememberColumn
  | .moveLeft | .shiftLeft => e.left.rememberColumn
  | .moveRight | .shiftRight => e.right.rememberColumn
  | .moveUp => e.up
  | .moveDown => e.down
  | .shiftUp => e.up.rememberColumn
  | .shiftDown => e.down.rememberColumn

/-- Without a line to go to, a caret stays. -/
theorem toLine_of_lineLength_eq_none {e : PlainEditor} {line : ℕ} (column : ℕ)
    (h : lineLength e.text line = none) : e.toLine line column = e := by
  rw [toLine, h]

end PlainEditor

/-! ## Anchors by number -/

namespace Document.IsTree

variable {d : Document} {x : ElementID} {k : ℕ}

/-- The anchors cut at one of them. -/
theorem anchors_cut (hx : d.anchors[k]? = some x) :
    k < d.anchors.length ∧ d.anchors = d.anchors.take k ++ x :: d.anchors.drop (k + 1) := by
  obtain ⟨hk, rfl⟩ := List.getElem?_eq_some_iff.mp hx
  exact ⟨hk, by rw [List.getElem_cons_drop, List.take_append_drop]⟩

/-- **Walking left** goes to the anchor in front. -/
theorem visiblePredecessor_getElem? (h : d.IsTree) (hx : d.anchors[k]? = some x) :
    ∃ y, d.visiblePredecessor x = .ok y ∧ d.anchors[k - 1]? = some y := by
  obtain ⟨hk, hsplit⟩ := anchors_cut hx
  refine ⟨_, h.visiblePredecessor_anchors hsplit, ?_⟩
  cases k with
  | zero => rfl
  | succ k =>
    have hk' : k < d.anchors.length := Nat.lt_of_succ_lt hk
    rw [List.getLast?_take, if_neg (Nat.succ_ne_zero k), Nat.succ_sub_one,
      List.getElem?_eq_getElem hk']
    rfl

/-- **Walking right** goes to the anchor behind. -/
theorem visibleSuccessor_getElem? (h : d.IsTree) (hx : d.anchors[k]? = some x) :
    d.visibleSuccessor x = .ok d.anchors[k + 1]? := by
  rw [h.visibleSuccessor_anchors (anchors_cut hx).2, List.head?_drop]

/-- **The position of an anchor** is where the text up to it ends. -/
theorem getCursorPosition_getElem? (h : d.IsTree) (hx : d.anchors[k]? = some x) :
    d.getCursorPosition x = .ok (position (d.text.take k)) := by
  obtain ⟨hk, hsplit⟩ := anchors_cut hx
  rw [h.getCursorPosition_eq hsplit, List.length_take, min_eq_left hk.le]

end Document.IsTree

/-! ## What a handler shows -/

namespace InputHandler

variable {h : InputHandler}

/-- The number of visible elements up to and including the anchor. -/
def caret (h : InputHandler) : ℕ := h.doc.anchors.idxOf h.cursor.anchor

/-- The plain editor a handler shows. -/
def view (h : InputHandler) : PlainEditor := ⟨h.doc.text, h.caret, h.cursor.desiredColumn⟩

/-- The document is a tree and the caret stands behind one of its anchors. -/
structure Placed (h : InputHandler) : Prop where
  tree : h.doc.IsTree
  anchor : h.cursor.anchor ∈ h.doc.anchors

namespace Placed

/-- The caret counts the anchors in front of its own. -/
theorem getElem?_caret (hp : h.Placed) : h.doc.anchors[h.caret]? = some h.cursor.anchor :=
  List.getElem?_idxOf hp.anchor

/-- The caret is in the text. -/
theorem caret_le (hp : h.Placed) : h.caret ≤ h.doc.text.length := by
  have := List.idxOf_lt_length_of_mem hp.anchor
  rw [Document.IsTree.length_anchors] at this
  exact Nat.le_of_lt_succ this

/-- The line and the column of the caret are those of the plain editor. -/
theorem getLineColumn_eq (hp : h.Placed) :
    h.cursor.getLineColumn h.doc = .ok h.view.position :=
  hp.tree.getCursorPosition_getElem? hp.getElem?_caret

/-- Another cursor at the same anchor. -/
theorem setCursor (hp : h.Placed) {c : Cursor} (hc : c.anchor = h.cursor.anchor) :
    (h.setCursor c).Placed :=
  ⟨hp.tree, hc.symm ▸ hp.anchor⟩

end Placed

/-- It shows the same if it remembers the same column. -/
theorem view_setCursor {c : Cursor} (hc : c.anchor = h.cursor.anchor)
    (hd : c.desiredColumn = h.cursor.desiredColumn) : (h.setCursor c).view = h.view := by
  rw [view, view, caret, caret, setCursor, hc, hd]

/-- Behind the anchor number `k`. -/
theorem view_setAnchor (ht : h.doc.IsTree) {k : ℕ} {x : ElementID}
    (hx : h.doc.anchors[k]? = some x) : (h.setAnchor x).view = { h.view with caret := k } := by
  obtain ⟨hk, hxk⟩ := List.getElem?_eq_some_iff.mp hx
  have : h.doc.anchors.idxOf x = k := by rw [← hxk, ht.nodup_anchors.idxOf_getElem]
  exact congrArg (fun n => { h.view with caret := n }) this

/-- The call returns no operation, leaves everything but the cursor alone and shows `e`. -/
def Moves (h : InputHandler) (e : PlainEditor) (r : Handling) : Prop :=
  ∃ h', r = .ok (h', []) ∧ h'.doc = h.doc ∧ h'.gen = h.gen ∧ h'.cursor.anchor ∈ h.doc.anchors ∧
    h'.view = e

/-- The call of `get_line_column` at the end of a move returns. -/
theorem Placed.moves_located (hp : h.Placed) : h.Moves h.view h.located := by
  refine ⟨h, ?_, rfl, rfl, hp.anchor, rfl⟩
  rw [located, hp.getLineColumn_eq]
  rfl

/-- **Setting the anchor** to the one with `k` in front moves the caret to `k`. -/
theorem moves_setAnchor (ht : h.doc.IsTree) {k : ℕ} {x : ElementID}
    (hx : h.doc.anchors[k]? = some x) :
    h.Moves { h.view with caret := k } (h.setAnchor x).located := by
  have hp : (h.setAnchor x).Placed := ⟨ht, List.mem_of_getElem? hx⟩
  rw [← view_setAnchor ht hx]
  exact hp.moves_located

/-- **One to the left**, as in the plain editor. -/
theorem moves_moveLeftImpl (hp : h.Placed) : h.Moves h.view.left h.moveLeftImpl := by
  obtain ⟨y, hy, hyk⟩ := hp.tree.visiblePredecessor_getElem? hp.getElem?_caret
  rw [moveLeftImpl, hy]
  exact moves_setAnchor hp.tree hyk

/-- **One to the right**; the caret at the end stays. -/
theorem moves_moveRightImpl (hp : h.Placed) : h.Moves h.view.right h.moveRightImpl := by
  have hlen := Document.IsTree.length_anchors h.doc
  rw [moveRightImpl, hp.tree.visibleSuccessor_getElem? hp.getElem?_caret]
  cases hn : h.doc.anchors[h.caret + 1]? with
  | some next =>
    have hle : h.caret + 1 ≤ h.doc.text.length := by
      have := (List.getElem?_eq_some_iff.mp hn).1
      omega
    have : h.view.right = { h.view with caret := h.caret + 1 } :=
      congrArg (fun n => { h.view with caret := n }) (min_eq_left hle)
    rw [this]
    exact moves_setAnchor hp.tree hn
  | none =>
    have hle : h.doc.text.length ≤ h.caret := by
      have := List.getElem?_eq_none_iff.mp hn
      omega
    have : h.view.right = h.view :=
      congrArg (fun n => { h.view with caret := n })
        ((min_eq_right (hle.trans (Nat.le_succ _))).trans (le_antisymm hle hp.caret_le))
    rw [this]
    exact hp.moves_located

/-- A vertical move remembers the column it starts from, unless one is remembered. -/
theorem rememberColumn_eq (h : InputHandler) (column : ℕ) :
    (h.rememberColumn column).doc = h.doc ∧ (h.rememberColumn column).gen = h.gen ∧
      (h.rememberColumn column).cursor.anchor = h.cursor.anchor ∧
      (h.rememberColumn column).cursor.desiredColumn =
        some (h.cursor.desiredColumn.getD column) := by
  rw [rememberColumn]
  split
  case _ hd => exact ⟨rfl, rfl, rfl, by rw [hd, Option.getD_some]⟩
  case _ hd => exact ⟨rfl, rfl, rfl, by rw [hd, Option.getD_none]; rfl⟩

/-- **A vertical move ends at the remembered column of a line, or at its end.** -/
theorem moves_moveToLine (hp : h.Placed) {line column length : ℕ}
    (hlen : lineLength h.doc.text line = some length) :
    h.Moves (h.view.toLine line column)
      ((h.rememberColumn column).moveToLine line length) := by
  obtain ⟨hdoc, hgen, hanchor, hdesired⟩ := h.rememberColumn_eq column
  generalize h.rememberColumn column = g at hdoc hgen hanchor hdesired
  obtain ⟨hpos, hoff⟩ :=
    position_take_offset hlen (min_le_right (h.cursor.desiredColumn.getD column) length)
  have hlt := Document.IsTree.length_anchors h.doc
  obtain ⟨x, hx⟩ : ∃ x, h.doc.anchors[offset h.doc.text line
      (min (h.cursor.desiredColumn.getD column) length)]? = some x :=
    ⟨_, List.getElem?_eq_getElem (by omega)⟩
  have hat := hp.tree.getAnchorAt_eq hoff hpos
  rw [hx, ← hdoc] at hat
  rw [← hdoc] at hx
  obtain ⟨h', hr, hd, hg, ha, hv⟩ := moves_setAnchor (hdoc.symm ▸ hp.tree) hx
  refine ⟨h', ?_, hd.trans hdoc, hg.trans hgen, hdoc ▸ ha, hv.trans ?_⟩
  · rw [moveToLine, hdesired]
    simp only
    rw [hat]
    exact hr
  · rw [PlainEditor.toLine, view, view, hlen, hdesired, hdoc]

/-- **One line up**; at the first line both stay. -/
theorem moves_moveUpImpl (hp : h.Placed) : h.Moves h.view.up h.moveUpImpl := by
  rw [moveUpImpl, hp.getLineColumn_eq, PlainEditor.up]
  obtain ⟨length, hlen, -⟩ := position_take hp.caret_le
  change lineLength h.doc.text h.view.position.1 = some length at hlen
  cases hpos : h.view.position with | mk line column =>
  rw [hpos] at hlen
  cases line with
  | zero => exact ⟨h, rfl, rfl, rfl, hp.anchor, rfl⟩
  | succ line =>
    -- a line above the line of the caret exists
    obtain ⟨above, habove⟩ : ∃ n, lineLength h.doc.text line = some n := by
      obtain ⟨l, hl, -⟩ := Option.map_eq_some_iff.mp hlen
      have := (List.getElem?_eq_some_iff.mp hl).1
      exact ⟨_, by rw [lineLength, List.getElem?_eq_getElem (Nat.lt_of_succ_lt this)]; rfl⟩
    have hat := hp.tree.getLineLength_eq line
    rw [habove, ← (h.rememberColumn_eq column).1] at hat
    have hmove : h.Moves (h.view.toLine line column) _ := moves_moveToLine hp habove
    simp only [Except.leaving, bind, Except.bind, hat]
    exact hmove

/-- **One line down**; at the last line both stay. -/
theorem moves_moveDownImpl (hp : h.Placed) : h.Moves h.view.down h.moveDownImpl := by
  rw [moveDownImpl, hp.getLineColumn_eq, PlainEditor.down]
  have hat := hp.tree.getLineLength_eq (h.view.position.1 + 1)
  simp only [Except.leaving, bind, Except.bind, hat]
  cases hlen : lineLength h.doc.text (h.view.position.1 + 1) with
  | none =>
    rw [PlainEditor.toLine_of_lineLength_eq_none _ hlen]
    exact ⟨h, rfl, rfl, rfl, hp.anchor, rfl⟩
  | some length => exact moves_moveToLine hp hlen

section Selection

variable {impl : InputHandler → Handling} {f : PlainEditor → PlainEditor}

/-- Giving up the selection moves nothing. -/
theorem moves_moving (himpl : ∀ {h : InputHandler}, h.Placed → h.Moves (f h.view) (impl h))
    (hp : h.Placed) : h.Moves (f h.view) (moving impl h) := by
  have hmoves := himpl (hp.setCursor (Cursor.anchor_clearSelection _))
  rwa [view_setCursor (Cursor.anchor_clearSelection _)
    (Cursor.desiredColumn_clearSelection _)] at hmoves

/-- Neither does starting one. -/
theorem moves_shifting (himpl : ∀ {h : InputHandler}, h.Placed → h.Moves (f h.view) (impl h))
    (hp : h.Placed) : h.Moves (f h.view) (shifting impl h) := by
  rw [shifting]
  split
  · exact himpl hp
  · have hmoves := himpl (hp.setCursor (Cursor.anchor_startSelection _))
    rwa [view_setCursor (Cursor.anchor_startSelection _)
      (Cursor.desiredColumn_startSelection _)] at hmoves

end Selection

/-! ## Deletions

They are removals of elements of the document, whatever is selected. -/

/-- The call returns; it leaves everything but the cursor alone, the caret behind an anchor, and asks
for removals of elements. -/
def Keeps (h : InputHandler) (r : Handling) : Prop :=
  ∃ h' ops, r = .ok (h', ops) ∧ h'.doc = h.doc ∧ h'.gen = h.gen ∧
    h'.cursor.anchor ∈ h.doc.anchors ∧ ∀ op ∈ ops, ∃ x ∈ h.doc.elements, op = .remove ⟨x⟩

/-- A move asks for nothing. -/
theorem Moves.keeps {e : PlainEditor} {r : Handling} (hm : h.Moves e r) : h.Keeps r := by
  obtain ⟨h', hr, hd, hg, ha, -⟩ := hm
  exact ⟨h', [], hr, hd, hg, ha, fun _ hop => absurd hop List.not_mem_nil⟩

/-- The two ends of a selection can be put in order. -/
theorem exists_normalizedRange (ht : h.doc.IsTree) :
    ∃ range, h.cursor.normalizedRange h.doc = .ok range := by
  rw [Cursor.normalizedRange]
  cases hsel : h.cursor.hasSelection with
  | false => exact ⟨none, rfl⟩
  | true =>
    obtain ⟨a, ha⟩ : ∃ a, h.cursor.selectionAnchor = some a := by
      cases hs : h.cursor.selectionAnchor with
      | none => simp [Cursor.hasSelection, hs] at hsel
      | some a => exact ⟨a, rfl⟩
    have hget : h.cursor.getSelectionAnchor = .ok a := by
      rw [Cursor.getSelectionAnchor, hsel, ha]
    simp only [hget, ht.visible_eq, Bool.not_true, Bool.false_eq_true, if_false, bind, Except.bind,
      pure, Except.pure]
    split
    · exact ⟨none, rfl⟩
    split
    · exact ⟨some ⟨a, h.cursor.anchor⟩, rfl⟩
    split
    exacts [⟨some ⟨h.cursor.anchor, a⟩, rfl⟩, ⟨_, rfl⟩]

/-- A selection holds visible elements only. -/
theorem exists_getVisibleRange (ht : h.doc.IsTree) (range : DocumentRange) :
    ∃ ids, h.doc.getVisibleRange range = .ok ids ∧ ∀ x ∈ ids, x ∈ h.doc.elements := by
  rw [Document.getVisibleRange]
  split
  · exact ⟨[], rfl, fun _ hx => absurd hx List.not_mem_nil⟩
  · rw [ht.visible_eq]
    exact ⟨_, rfl, fun x hx =>
      Document.IsTree.visible_mem ((Document.rangeFrom_sublist _ _ _).subset hx)⟩

/-- A selection is removed element by element. -/
theorem keeps_deleteSelection (hp : h.Placed) : h.Keeps h.deleteSelection := by
  have hnone : h.Keeps (.ok (h, [])) :=
    ⟨h, [], rfl, rfl, rfl, hp.anchor, fun _ hop => absurd hop List.not_mem_nil⟩
  rw [deleteSelection]
  cases h.cursor.hasSelection with
  | false => exact hnone
  | true =>
    obtain ⟨range, hrange⟩ := exists_normalizedRange hp.tree
    rw [hrange]
    cases range with
    | none => exact hnone
    | some range =>
      obtain ⟨ids, hids, hmem⟩ := exists_getVisibleRange hp.tree range
      simp only [Except.leaving, bind, Except.bind, hids]
      cases ids with
      | nil => exact ⟨_, [], rfl, rfl, rfl, hp.anchor, fun _ hop => absurd hop List.not_mem_nil⟩
      | cons first rest =>
        obtain ⟨y, hy, hok, -⟩ := hp.tree.exists_visiblePredecessor (hmem first List.mem_cons_self)
        simp only [hok]
        refine ⟨_, _, rfl, rfl, rfl, hy, fun op hop => ?_⟩
        obtain ⟨x, hx, rfl⟩ := List.mem_map.mp hop
        exact ⟨x, hmem x hx, rfl⟩

/-- Without a selection `backspace` removes the anchor. -/
theorem backspace_eq (hp : h.Placed) (hs : h.cursor.hasSelection = false) :
    ∃ y, h.doc.anchors[h.caret - 1]? = some y ∧
      h.backspace = .ok (h.setAnchor y, [.remove ⟨h.cursor.anchor⟩]) := by
  obtain ⟨y, hok, hy⟩ := hp.tree.visiblePredecessor_getElem? hp.getElem?_caret
  refine ⟨y, hy, ?_⟩
  rw [backspace, hs, hok]
  rfl

/-- Without a selection `delete_forward` removes the next anchor. -/
theorem deleteForward_eq (hp : h.Placed) (hs : h.cursor.hasSelection = false) :
    h.deleteForward = .ok (h, (h.doc.anchors[h.caret + 1]?.map fun x => .remove ⟨x⟩).toList) := by
  rw [deleteForward, hs, hp.tree.visibleSuccessor_getElem? hp.getElem?_caret]
  cases h.doc.anchors[h.caret + 1]? <;> rfl

/-- `backspace` removes the selection, else the anchor. -/
theorem keeps_backspace (hp : h.Placed) : h.Keeps h.backspace := by
  cases hs : h.cursor.hasSelection with
  | true =>
    rw [backspace, hs]
    exact keeps_deleteSelection hp
  | false =>
    obtain ⟨y, hy, hok⟩ := backspace_eq hp hs
    refine ⟨_, _, hok, rfl, rfl, List.mem_of_getElem? hy, fun op hop => ?_⟩
    exact ⟨_, hp.tree.mem_of_mem_anchors hp.anchor, List.mem_singleton.mp hop⟩

/-- `delete_forward` removes the selection, else what is behind the anchor. -/
theorem keeps_deleteForward (hp : h.Placed) : h.Keeps h.deleteForward := by
  cases hs : h.cursor.hasSelection with
  | true =>
    rw [deleteForward, hs]
    exact keeps_deleteSelection hp
  | false =>
    refine ⟨_, _, deleteForward_eq hp hs, rfl, rfl, hp.anchor, fun op hop => ?_⟩
    obtain ⟨x, hx, rfl⟩ := Option.map_eq_some_iff.mp (Option.mem_toList.mp hop)
    exact ⟨x, hp.tree.mem_of_mem_anchors (List.mem_of_getElem? hx), rfl⟩

/-! ## Every command -/

/-- **A command that types nothing**, in a placed handler, returns. -/
theorem keeps_processCommand (hp : h.Placed) {command : EditorCommand} (hc : command.typed = none) :
    h.Keeps (h.processCommand command) := by
  obtain ⟨type, character⟩ := command
  cases type with
  | insertCharacter | enter => cases hc
  | moveLeft => exact (moves_moving moves_moveLeftImpl hp).keeps
  | moveRight => exact (moves_moving moves_moveRightImpl hp).keeps
  | moveUp => exact (moves_moving moves_moveUpImpl hp).keeps
  | moveDown => exact (moves_moving moves_moveDownImpl hp).keeps
  | shiftLeft => exact (moves_shifting moves_moveLeftImpl hp).keeps
  | shiftRight => exact (moves_shifting moves_moveRightImpl hp).keeps
  | shiftUp => exact (moves_shifting moves_moveUpImpl hp).keeps
  | shiftDown => exact (moves_shifting moves_moveDownImpl hp).keeps
  | backspace => exact keeps_backspace hp
  | deleteForward => exact keeps_deleteForward hp

/-- A command that types inserts its character, unless the character is the NUL. -/
theorem processCommand_of_typed {command : EditorCommand} {c : UInt8}
    (hc : command.typed = some c) (h0 : c ≠ 0) :
    h.processCommand command = .ok (h.insertCharacter c) := by
  obtain ⟨type, character⟩ := command
  cases type with
  | insertCharacter =>
    obtain rfl := Option.some.inj hc
    rw [processCommand]
    simp [EditorCommand.getCharacter, h0, Except.leaving, bind, Except.bind, pure, Except.pure]
  | enter =>
    obtain rfl := Option.some.inj hc
    rfl
  | _ => cases hc

end InputHandler

end CrdtEditor
