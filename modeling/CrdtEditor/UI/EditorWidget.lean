import CrdtEditor.Session.Tree
import CrdtEditor.UI.Layout

/-!
# UI/EditorWidget — the events of the window

`UI/editor_widget.cpp`, less the painting.  A widget shows a session through a viewport; an event of the
window is a few inputs of the session (`EditorWidget.inputs`), and then the viewport is moved.

Nothing an honest run does throws, and whenever the widget makes the caret visible its cell is in the
window: `EditorWidget.caretShown_along`.
-/

namespace CrdtEditor

/-- The keys the widget tells apart. -/
inductive Key
  | left
  | right
  | up
  | down
  | backspace
  | delete
  | return
  | enter
  /-- Any other key: its text is typed. -/
  | text
  deriving DecidableEq, Repr

inductive MouseButton
  | left
  | other
  deriving DecidableEq, Repr

/-- `QChar::toLatin1`: a character outside Latin-1 becomes a NUL. -/
def toLatin1 (c : UInt16) : UInt8 := if 0xff < c then 0 else c.toUInt8

/-- The commands of a key. -/
def Key.commands (shift : Bool) (text : List UInt16) : Key → List EditorCommand
  | .left => [⟨if shift then .shiftLeft else .moveLeft, 0⟩]
  | .right => [⟨if shift then .shiftRight else .moveRight, 0⟩]
  | .up => [⟨if shift then .shiftUp else .moveUp, 0⟩]
  | .down => [⟨if shift then .shiftDown else .moveDown, 0⟩]
  | .backspace => [⟨.backspace, 0⟩]
  | .delete => [⟨.deleteForward, 0⟩]
  | .return => [⟨.enter, 0⟩]
  | .enter => [⟨.enter, 0⟩]
  | .text => text.map fun c => ⟨.insertCharacter, toLatin1 c⟩

structure EditorWidget where
  session : EditorSession
  viewport : Viewport
  selecting : Bool
  cursorVisible : Bool
  /-- The size that Qt gave the window. -/
  height : ℤ
  width : ℤ

namespace EditorWidget

open Except (leaving)

/-- What an event leaves: the widget, or an exception and the widget at its `throw`. -/
abbrev Result := Except (Exn × EditorWidget) EditorWidget

/-- The widget of a client that just started. -/
def start (clientId : Str) (height width : ℤ) : EditorWidget where
  session := .start clientId
  viewport := .initial
  selecting := false
  cursorVisible := true
  height := height
  width := width

def put (w : EditorWidget) (s : EditorSession) : EditorWidget := { w with session := s }

/-- A call on the session of the widget. -/
def onSession (w : EditorWidget) : EditorSession.Result → Result
  | .ok s => .ok (w.put s)
  | .error (e, s) => .error (e, w.put s)

def resetCursorBlink (w : EditorWidget) : EditorWidget := { w with cursorVisible := true }

def clampViewport (w : EditorWidget) (m : FontMetrics) : Result := do
  let viewport ← leaving w
    (w.viewport.clampViewport w.session.doc w.height w.width m.lineHeight m.charWidth)
  return { w with viewport := viewport }

def ensureCursorVisible (w : EditorWidget) (m : FontMetrics) : Result := do
  let viewport ← leaving w
    (w.viewport.ensureCursorVisible w.session.doc w.session.cursor.anchor m w.height w.width)
  return { w with viewport := viewport }

def keyPressEvent (w : EditorWidget) (m : FontMetrics) (key : Key) (shift : Bool)
    (text : List UInt16) : Result := do
  let w ← w.onSession
    ((key.commands shift text).foldlM EditorSession.handleEditorCommand w.session)
  let w := (w.put w.session.queueCursorUpdate).resetCursorBlink
  let w ← w.clampViewport m
  w.ensureCursorVisible m

def mousePressEvent (w : EditorWidget) (m : FontMetrics) (button : MouseButton) (x y : ℤ) :
    Result := do
  if button ≠ .left then return w
  let (requestedLine, requestedColumn) := w.viewport.screenToDocumentPosition m x y
  match ← leaving w (w.session.anchorNear requestedLine requestedColumn) with
  | some anchor =>
    let w ← w.onSession (w.session.setPosition anchor)
    let w := { w with selecting := true }
    let w := (w.put w.session.queueCursorUpdate).resetCursorBlink
    w.ensureCursorVisible m
  | none => return w

def mouseMoveEvent (w : EditorWidget) (m : FontMetrics) (x y : ℤ) : Result := do
  if !w.selecting then return w
  let (requestedLine, requestedColumn) := w.viewport.screenToDocumentPosition m x y
  match ← leaving w (w.session.anchorNear requestedLine requestedColumn) with
  | some anchor =>
    let cursor := w.session.cursor
    let cursor := if cursor.hasSelection then cursor else cursor.startSelection
    let w := (w.put { w.session with cursor := cursor.setAnchor anchor }).resetCursorBlink
    w.ensureCursorVisible m
  | none => return w

def mouseReleaseEvent (w : EditorWidget) (button : MouseButton) : EditorWidget :=
  if button = .left then { w with selecting := false } else w

def wheelEvent (w : EditorWidget) (m : FontMetrics) (delta : ℤ) : Result :=
  let w :=
    if 0 < delta then { w with viewport := w.viewport.scrollLines (-3) }
    else if delta < 0 then { w with viewport := w.viewport.scrollLines 3 }
    else w
  w.clampViewport m

def resizeEvent (w : EditorWidget) (m : FontMetrics) (height width : ℤ) : Result := do
  let w := { w with height := height, width := width }
  let w ← w.clampViewport m
  w.ensureCursorVisible m

/-- What can happen to a window: what Qt delivers, the two timers, and a message that the network
queues. -/
inductive Event
  | keyPress (key : Key) (shift : Bool) (text : List UInt16)
  | mousePress (button : MouseButton) (x y : ℤ)
  | mouseMove (x y : ℤ)
  | mouseRelease (button : MouseButton)
  | wheel (delta : ℤ)
  | resize (height width : ℤ)
  | networkTimer
  | cursorBlinkTimer
  | receive (message : Message)

def event (w : EditorWidget) (m : FontMetrics) : Event → Result
  | .keyPress key shift text => w.keyPressEvent m key shift text
  | .mousePress button x y => w.mousePressEvent m button x y
  | .mouseMove x y => w.mouseMoveEvent m x y
  | .mouseRelease button => .ok (w.mouseReleaseEvent button)
  | .wheel delta => w.wheelEvent m delta
  | .resize height width => w.resizeEvent m height width
  | .networkTimer => w.onSession w.session.flushIncoming
  | .cursorBlinkTimer => .ok { w with cursorVisible := !w.cursorVisible }
  | .receive message =>
    .ok (w.put { w.session with incomingQueue := w.session.incomingQueue ++ [message] })

/-! ## The inputs of an event -/

/-- What an event does to the session. -/
def inputs (w : EditorWidget) (m : FontMetrics) : Event → List EditorSession.Input
  | .keyPress key shift text =>
    (key.commands shift text).map EditorSession.Input.command ++ [.queueCursorUpdate]
  | .mousePress .left x y =>
    let p := w.viewport.screenToDocumentPosition m x y
    [.mousePress p.1 p.2]
  | .mouseMove x y =>
    let p := w.viewport.screenToDocumentPosition m x y
    if w.selecting then [.mouseMove p.1 p.2] else []
  | .networkTimer => [.flush]
  | .receive message => [.receive message]
  | _ => []

/-- The session an event leads to if nothing throws, with the operations received. -/
def sessionAfter (m : FontMetrics) (c : EditorWidget × List Operation) (e : Event) :
    EditorSession × List Operation :=
  (c.1.inputs m e).foldl EditorSession.step (c.1.session, c.2)

/-- One event, on a widget and the operations its session has received. -/
def step (m : FontMetrics) (c : EditorWidget × List Operation) (e : Event) :
    EditorWidget × List Operation :=
  ((c.1.event m e).state, (sessionAfter m c e).2)

/-- A window is given room for a cell. -/
def Event.Fits (m : FontMetrics) : Event → Prop
  | .resize height width => Viewport.Roomy m height width
  | _ => True

instance (m : FontMetrics) : DecidablePred (Event.Fits m)
  | .resize height width => inferInstanceAs (Decidable (Viewport.Roomy m height width))
  | .keyPress _ _ _ => .isTrue trivial
  | .mousePress _ _ _ => .isTrue trivial
  | .mouseMove _ _ => .isTrue trivial
  | .mouseRelease _ => .isTrue trivial
  | .wheel _ => .isTrue trivial
  | .networkTimer => .isTrue trivial
  | .cursorBlinkTimer => .isTrue trivial
  | .receive _ => .isTrue trivial

/-- The widget that events lead to, with the operations its session has received. -/
def after (m : FontMetrics) (clientId : Str) (height width : ℤ) (events : List Event) :
    EditorWidget × List Operation :=
  events.foldl (step m) (start clientId height width, [])

/-- What is asked of an event: its inputs are allowed, the text stays countable by an `int`, and the
window keeps room for a cell. -/
structure Allows (m : FontMetrics) (c : EditorWidget × List Operation) (e : Event) : Prop where
  inputs : Along EditorSession.step EditorSession.Allows (c.1.session, c.2) (c.1.inputs m e)
  text : (sessionAfter m c e).1.doc.text.length < 2 ^ 31 - 1
  fits : e.Fits m

instance (m : FontMetrics) (c : EditorWidget × List Operation) (e : Event) :
    Decidable (Allows m c e) :=
  decidable_of_iff (Along EditorSession.step EditorSession.Allows (c.1.session, c.2) (c.1.inputs m e) ∧
      (sessionAfter m c e).1.doc.text.length < 2 ^ 31 - 1 ∧ e.Fits m)
    ⟨fun ⟨hinputs, htext, hfits⟩ => ⟨hinputs, htext, hfits⟩, fun h => ⟨h.inputs, h.text, h.fits⟩⟩

/-- **The cell of the caret is in the window.** -/
def CaretShown (m : FontMetrics) (w : EditorWidget) : Prop :=
  ∃ line column, w.session.doc.getCursorPosition w.session.cursor.anchor = .ok (line, column) ∧
    w.viewport.Shows m w.height w.width line column

/-- The events that make the caret visible. -/
def Reveals (w : EditorWidget) : Event → Prop
  | .keyPress _ _ _ => True
  | .mousePress button _ _ => button = .left
  | .mouseMove _ _ => w.selecting
  | .resize _ _ => True
  | _ => False

/-! ## The viewport follows -/

/-- A window that shows a part of a short text of a sound session. -/
structure Framed (m : FontMetrics) (received : List Operation) (w : EditorWidget) : Prop where
  sound : EditorSession.Sound received w.session
  text : w.session.doc.text.length < 2 ^ 31 - 1
  roomy : Viewport.Roomy m w.height w.width
  column : w.viewport.firstColumn.toNat < 2 ^ 31

/-- Whose first line is an `int`. -/
structure Kept (m : FontMetrics) (received : List Operation) (w : EditorWidget) : Prop extends
    Framed m received w where
  line : w.viewport.firstLine.toNat < 2 ^ 31

section

variable {m : FontMetrics} {received : List Operation} {w : EditorWidget}

/-- Clamping keeps the columns and brings the lines back. -/
theorem Framed.clampViewport (h : w.Framed m received) :
    ∃ w', w.clampViewport m = .ok w' ∧ w'.session = w.session ∧ w'.Kept m received := by
  have hlines := Text.length_lines_le w.session.doc.text
  have htext := h.text
  obtain ⟨v, hv, hline, hle⟩ := w.viewport.exists_clampViewport h.sound.tree h.roomy.lineHeight
    h.roomy.charWidth (by omega)
  have hcolumn := (UInt64.le_iff_toNat_le.mp hle).trans_lt h.column
  have hline : v.firstLine.toNat < 2 ^ 31 := by omega
  refine ⟨{ w with viewport := v }, ?_, rfl, ⟨h.sound, htext, h.roomy, hcolumn⟩, hline⟩
  rw [EditorWidget.clampViewport, hv]
  rfl

theorem Kept.ensureCursorVisible (h : w.Kept m received) :
    ∃ w', w.ensureCursorVisible m = .ok w' ∧ w'.session = w.session ∧ w'.Kept m received ∧
      w'.CaretShown m := by
  obtain ⟨a, b, hab⟩ := List.append_of_mem h.sound.anchor
  have hposition := h.sound.tree.getCursorPosition_eq hab
  generalize hp : Text.position (w.session.doc.text.take a.length) = p at hposition
  have hle := (Text.position_le (w.session.doc.text.take a.length)).trans (List.length_take_le' _ _)
  have htext := h.text
  rw [hp] at hle
  obtain ⟨v, hv, hsmall, hshows⟩ := Viewport.shows_ensureCursorVisible h.roomy ⟨h.line, h.column⟩
    hposition (by omega) (by omega)
  refine ⟨{ w with viewport := v }, ?_, rfl, ⟨⟨h.sound, htext, h.roomy, hsmall.column⟩, hsmall.line⟩,
    _, _, hposition, hshows⟩
  rw [EditorWidget.ensureCursorVisible, hv]
  rfl

/-! ## The events -/

/-- What an event leaves: the session has taken its inputs, the widget is kept, and the caret is shown if
the event makes it visible. -/
def Leaves (m : FontMetrics) (c : EditorWidget × List Operation) (e : Event) (w : EditorWidget) :
    Prop :=
  w.session = (sessionAfter m c e).1 ∧ w.Kept m (sessionAfter m c e).2 ∧
    (c.1.Reveals e → w.CaretShown m)

theorem Allows.sound {c : EditorWidget × List Operation} {e : Event} (ha : Allows m c e)
    (h : EditorSession.Sound c.2 c.1.session) :
    EditorSession.Sound (sessionAfter m c e).2 (sessionAfter m c e).1 :=
  h.foldl_step ha.inputs

/-- The common end of the events that move the caret. -/
theorem Kept.reveal {c : EditorWidget × List Operation} {e : Event} (h : w.Kept m received)
    (hafter : sessionAfter m c e = (w.session, received)) :
    ∃ w', w.ensureCursorVisible m = .ok w' ∧ w'.Leaves m c e := by
  obtain ⟨w', hw', hsession, hkept, hshown⟩ := h.ensureCursorVisible
  refine ⟨w', hw', ?_, ?_, fun _ => hshown⟩
  · rw [hsession, hafter]
  · rw [hafter]
    exact hkept

theorem Kept.keyPressEvent (h : w.Kept m received) {key : Key} {shift : Bool} {text : List UInt16}
    (ha : Allows m (w, received) (.keyPress key shift text)) :
    ∃ w', w.keyPressEvent m key shift text = .ok w' ∧
      w'.Leaves m (w, received) (.keyPress key shift text) := by
  have hsound := ha.sound h.sound
  have htext := ha.text
  obtain ⟨hcommands, -⟩ := along_append.mp ha.inputs
  obtain ⟨t, ht, hfold⟩ := h.sound.foldlM_handleEditorCommand hcommands
  have hafter : sessionAfter m (w, received) (.keyPress key shift text) =
      (t.queueCursorUpdate, received ++ t.taken .queueCursorUpdate) := by
    rw [sessionAfter, inputs, List.foldl_append, hfold]
    rfl
  rw [hafter] at hsound htext
  have hframed : (w.put t.queueCursorUpdate).resetCursorBlink.Framed m
      (received ++ t.taken .queueCursorUpdate) := ⟨hsound, htext, h.roomy, h.column⟩
  obtain ⟨w₁, hw₁, hsession₁, hkept₁⟩ := hframed.clampViewport
  obtain ⟨w₂, hw₂, hleaves⟩ := hkept₁.reveal (by rw [hafter, hsession₁]; rfl)
  refine ⟨w₂, ?_, hleaves⟩
  rw [EditorWidget.keyPressEvent, ht]
  change (((w.put t.queueCursorUpdate).resetCursorBlink.clampViewport m) >>= _) = _
  rw [hw₁]
  exact hw₂

theorem Kept.mousePressEvent (h : w.Kept m received) {x y : ℤ}
    (ha : Allows m (w, received) (.mousePress .left x y)) :
    ∃ w', w.mousePressEvent m .left x y = .ok w' ∧
      w'.Leaves m (w, received) (.mousePress .left x y) := by
  have hsound := ha.sound h.sound
  have htext := ha.text
  set p := w.viewport.screenToDocumentPosition m x y with hp
  obtain ⟨anchor, hanchor, hnear⟩ := h.sound.toSteady.exists_anchorNear p.1 p.2
  obtain ⟨k, hk⟩ := List.mem_iff_getElem?.mp hanchor
  have hset := EditorSession.setPosition_eq h.sound.tree hk
  set s : EditorSession := { w.session with cursor := w.session.clicked anchor k }
  have hset : w.session.setPosition anchor = .ok s := hset
  have hpress : w.session.mousePressEvent p.1 p.2 = .ok s.queueCursorUpdate :=
    EditorSession.mousePressEvent_eq h.sound.tree hnear hk
  have hafter : sessionAfter m (w, received) (.mousePress .left x y) =
      (s.queueCursorUpdate, received ++ []) := by
    rw [sessionAfter, inputs, List.foldl_cons, List.foldl_nil]
    exact EditorSession.step_of_ok (i := .mousePress p.1 p.2) hpress
  rw [hafter] at hsound htext
  have hkept : (({ w.put s with selecting := true }).put s.queueCursorUpdate).resetCursorBlink.Kept m
      (received ++ []) := ⟨⟨hsound, htext, h.roomy, h.column⟩, h.line⟩
  obtain ⟨w', hw', hleaves⟩ := hkept.reveal hafter
  refine ⟨w', ?_, hleaves⟩
  rw [EditorWidget.mousePressEvent]
  simp only [← hp, hnear, hset, leaving, bind, Except.bind, onSession]
  exact hw'

theorem Kept.mouseMoveEvent (h : w.Kept m received) {x y : ℤ} (hselecting : w.selecting = true)
    (ha : Allows m (w, received) (.mouseMove x y)) :
    ∃ w', w.mouseMoveEvent m x y = .ok w' ∧ w'.Leaves m (w, received) (.mouseMove x y) := by
  have hsound := ha.sound h.sound
  have htext := ha.text
  set p := w.viewport.screenToDocumentPosition m x y with hp
  obtain ⟨anchor, hanchor, hnear⟩ := h.sound.toSteady.exists_anchorNear p.1 p.2
  set s : EditorSession := { w.session with cursor := w.session.dragged anchor }
  have hafter : sessionAfter m (w, received) (.mouseMove x y) = (s, received ++ []) := by
    rw [sessionAfter, inputs, if_pos hselecting, List.foldl_cons, List.foldl_nil]
    exact EditorSession.step_of_ok (i := .mouseMove p.1 p.2) (EditorSession.mouseMoveEvent_eq hnear)
  rw [hafter] at hsound htext
  have hkept : (w.put s).resetCursorBlink.Kept m (received ++ []) :=
    ⟨⟨hsound, htext, h.roomy, h.column⟩, h.line⟩
  obtain ⟨w', hw', hleaves⟩ := hkept.reveal hafter
  refine ⟨w', ?_, hleaves⟩
  rw [EditorWidget.mouseMoveEvent, hselecting]
  simp only [← hp, hnear, leaving, bind, Except.bind]
  exact hw'

/-- An event that is no input of the session. -/
theorem Kept.leaves {e : Event} {w' : EditorWidget} (h : w'.Kept m received)
    (hinputs : w.inputs m e = []) (hs : w'.session = w.session) (hn : ¬ w.Reveals e) :
    w'.Leaves m (w, received) e := by
  have hafter : sessionAfter m (w, received) e = (w.session, received) := by
    rw [sessionAfter, hinputs]
    rfl
  refine ⟨by rw [hs, hafter], ?_, fun hr => absurd hr hn⟩
  rw [hafter]
  exact h

/-- An event that is one input of the session, and leaves the window alone. -/
theorem Kept.leaves_put (h : w.Kept m received) {e : Event} {i : EditorSession.Input}
    (ha : Allows m (w, received) e) {s : EditorSession} (hinputs : w.inputs m e = [i])
    (hs : w.session.input i = .ok s) (hn : ¬ w.Reveals e) : (w.put s).Leaves m (w, received) e := by
  have hafter : sessionAfter m (w, received) e = (s, received ++ w.session.taken i) := by
    rw [sessionAfter, hinputs]
    exact EditorSession.step_of_ok hs
  have hsound := ha.sound h.sound
  have htext := ha.text
  rw [hafter] at hsound htext
  refine ⟨by rw [hafter]; rfl, ?_, fun hr => absurd hr hn⟩
  rw [hafter]
  exact ⟨⟨hsound, htext, h.roomy, h.column⟩, h.line⟩

/-- **Every event returns**, and leaves a kept widget. -/
theorem Kept.event (h : w.Kept m received) {e : Event} (ha : Allows m (w, received) e) :
    ∃ w', w.event m e = .ok w' ∧ w'.Leaves m (w, received) e := by
  cases e with
  | keyPress key shift text => exact h.keyPressEvent ha
  | mousePress button x y =>
    cases button with
    | left => exact h.mousePressEvent ha
    | other => exact ⟨w, rfl, h.leaves rfl rfl MouseButton.noConfusion⟩
  | mouseMove x y =>
    cases hselecting : w.selecting with
    | true => exact h.mouseMoveEvent hselecting ha
    | false =>
      refine ⟨w, ?_, h.leaves ?_ rfl ?_⟩
      · rw [EditorWidget.event, EditorWidget.mouseMoveEvent, hselecting]
        rfl
      · rw [inputs, hselecting]
        rfl
      · rw [Reveals, hselecting]
        decide
  | mouseRelease button =>
    refine ⟨w.mouseReleaseEvent button, rfl, ?_⟩
    rw [mouseReleaseEvent]
    split
    · exact Kept.leaves ⟨⟨h.sound, h.text, h.roomy, h.column⟩, h.line⟩ rfl rfl id
    · exact h.leaves rfl rfl id
  | wheel delta =>
    obtain ⟨v, hv, hcolumn⟩ : ∃ v : Viewport, w.wheelEvent m delta =
        { w with viewport := v }.clampViewport m ∧ v.firstColumn = w.viewport.firstColumn := by
      rw [wheelEvent]
      split
      · exact ⟨_, rfl, rfl⟩
      split
      · exact ⟨_, rfl, rfl⟩
      · exact ⟨_, rfl, rfl⟩
    have hframed : { w with viewport := v }.Framed m received :=
      ⟨h.sound, h.text, h.roomy, hcolumn ▸ h.column⟩
    obtain ⟨w', hw', hsession, hkept⟩ := hframed.clampViewport
    exact ⟨w', hv.trans hw', hkept.leaves rfl hsession id⟩
  | resize height width =>
    have hframed : { w with height := height, width := width }.Framed m received :=
      ⟨h.sound, h.text, ha.fits, h.column⟩
    obtain ⟨w₁, hw₁, hsession, hkept⟩ := hframed.clampViewport
    have hafter : sessionAfter m (w, received) (.resize height width) = (w₁.session, received) := by
      rw [hsession]
      rfl
    obtain ⟨w₂, hw₂, hleaves⟩ := hkept.reveal hafter
    refine ⟨w₂, ?_, hleaves⟩
    rw [EditorWidget.event, resizeEvent, hw₁]
    exact hw₂
  | networkTimer =>
    obtain ⟨s, hs, -⟩ := h.sound.input ha.inputs.1
    refine ⟨w.put s, ?_, h.leaves_put ha rfl hs id⟩
    rw [EditorWidget.event, show w.session.flushIncoming = .ok s from hs]
    rfl
  | cursorBlinkTimer =>
    exact ⟨_, rfl, Kept.leaves ⟨⟨h.sound, h.text, h.roomy, h.column⟩, h.line⟩ rfl rfl id⟩
  | receive message => exact ⟨_, rfl, h.leaves_put ha rfl rfl id⟩

/-- A widget that has just started. -/
theorem kept_start {clientId : Str} (hbar : Text.bar ∉ clientId) {height width : ℤ}
    (hroomy : Viewport.Roomy m height width) : (start clientId height width).Kept m [] where
  sound := EditorSession.sound_start hbar
  text := (by decide : Document.empty.text.length < 2 ^ 31 - 1)
  roomy := hroomy
  column := (by decide : (0 : UInt64).toNat < 2 ^ 31)
  line := (by decide : (0 : UInt64).toNat < 2 ^ 31)

/-- **One event of a run.** -/
theorem Kept.step {c : EditorWidget × List Operation} {e : Event} (hc : c.1.Kept m c.2)
    (he : Allows m c e) : (∃ w, c.1.event m e = .ok w ∧ w.session = (sessionAfter m c e).1 ∧
      (c.1.Reveals e → w.CaretShown m)) ∧
    (EditorWidget.step m c e).1.Kept m (EditorWidget.step m c e).2 := by
  obtain ⟨w, hw, hsession, hkept, hshown⟩ := hc.event he
  have hstate : (EditorWidget.step m c e).1 = w := by rw [EditorWidget.step, hw]; rfl
  exact ⟨⟨w, hw, hsession, hshown⟩, hstate ▸ hkept⟩

end

/-- A widget that an honest run leads to, with the operations received. -/
def Reached (m : FontMetrics) (c : EditorWidget × List Operation) : Prop :=
  ∃ (clientId : Str) (height width : ℤ) (events : List Event), Text.bar ∉ clientId ∧
    Viewport.Roomy m height width ∧
    Along (step m) (Allows m) (start clientId height width, []) events ∧
    c = after m clientId height width events

theorem Reached.kept {m : FontMetrics} {c : EditorWidget × List Operation} (h : Reached m c) :
    c.1.Kept m c.2 := by
  obtain ⟨clientId, height, width, events, hbar, hroomy, hrun, rfl⟩ := h
  have hstep : ∀ (c : EditorWidget × List Operation) (e : Event), c.1.Kept m c.2 →
      Allows m c e → (step m c e).1.Kept m (step m c e).2 := fun _ _ hc he => (hc.step he).2
  exact Along.invariant hstep (kept_start hbar hroomy) hrun

/-- **The caret is in the window** after every event that makes it visible, whatever is typed, clicked,
scrolled, resized and received, and in whatever order; no event throws, and the session takes the inputs
of the events and nothing else. -/
theorem caretShown_along {clientId : Str} (hbar : Text.bar ∉ clientId) {m : FontMetrics}
    {height width : ℤ} (hroomy : Viewport.Roomy m height width) {events : List Event}
    (h : Along (step m) (Allows m) (start clientId height width, []) events) :
    Along (step m) (fun c e => ∃ w, c.1.event m e = .ok w ∧ w.session = (sessionAfter m c e).1 ∧
      (c.1.Reveals e → w.CaretShown m)) (start clientId height width, []) events := by
  have hstep : ∀ (c : EditorWidget × List Operation) (e : Event), c.1.Kept m c.2 →
      Allows m c e → (∃ w, c.1.event m e = .ok w ∧ w.session = (sessionAfter m c e).1 ∧
        (c.1.Reveals e → w.CaretShown m)) ∧ (step m c e).1.Kept m (step m c e).2 :=
    fun _ _ => Kept.step
  exact Along.of_invariant hstep (kept_start hbar hroomy) h

/-- A window of one line and ten columns: what is typed, scrolled away, clicked, dragged over and received
in between. -/
def sampleMetrics : FontMetrics := ⟨7, 14, 11⟩

def sampleEvents : List Event :=
  [.keyPress .text false [65, 66], .keyPress .return false [13], .keyPress .text false [67],
    .wheel 120, .mousePress .left 12 6, .mouseMove 40 19, .keyPress .backspace false [8],
    .receive ⟨.operation, str "b", .operation (.insert ⟨rootId, ⟨9, str "b"⟩, 66⟩)⟩, .networkTimer,
    .cursorBlinkTimer, .resize 600 800, .keyPress .up true [], .mouseRelease .left]

theorem caretShown_along_sample :
    Along (step sampleMetrics) (fun c e => ∃ w, c.1.event sampleMetrics e = .ok w ∧
      w.session = (sessionAfter sampleMetrics c e).1 ∧
      (c.1.Reveals e → w.CaretShown sampleMetrics)) (start (str "a") 20 75, []) sampleEvents :=
  caretShown_along (by decide) (by decide) (by decide +kernel)

/-! ## A key outside Latin-1 -/

/-- The characters of a text in front of the first that becomes a NUL. -/
def typable (text : List UInt16) : List UInt16 := text.takeWhile fun c => toLatin1 c ≠ 0

theorem typable_eq_self {text : List UInt16} (h : ∀ q ∈ text, toLatin1 q ≠ 0) :
    typable text = text :=
  List.takeWhile_eq_self_iff.mpr fun q hq => by simpa using h q hq

theorem exists_typable_append {text : List UInt16} (h : ¬ ∀ q ∈ text, toLatin1 q ≠ 0) :
    ∃ q rest, text = typable text ++ q :: rest ∧ toLatin1 q = 0 := by
  have hdrop : text.dropWhile (fun c => toLatin1 c ≠ 0) ≠ [] := fun hnil => h fun q hq => by
    have := List.dropWhile_eq_nil_iff.mp hnil q hq
    simpa using this
  obtain ⟨q, rest, hrest⟩ := List.exists_cons_of_ne_nil hdrop
  refine ⟨q, rest, ?_, ?_⟩
  · rw [typable, ← hrest, List.takeWhile_append_dropWhile]
  · have hhead := List.head?_dropWhile_not (fun c => decide (toLatin1 c ≠ 0)) text
    rw [hrest] at hhead
    simpa using hhead

/-- The session that has typed the characters of a text in front of a NUL. -/
def typing (c : EditorWidget × List Operation) (shift : Bool) (text : List UInt16) : EditorSession :=
  (((Key.text.commands shift (typable text)).map .command).foldl EditorSession.step
    (c.1.session, c.2)).1

/-- The exception of a command that types a NUL. -/
def noCharacter : Exn := .runtimeError (str "No character in this command.")

theorem handleEditorCommand_nul (s : EditorSession) :
    s.handleEditorCommand ⟨.insertCharacter, 0⟩ = .error (noCharacter, s) := rfl

/-- The characters in front of a NUL are typed. -/
theorem Kept.keyPressEvent_nul {m : FontMetrics} {c : EditorWidget × List Operation}
    (h : c.1.Kept m c.2) (shift : Bool) {text : List UInt16} (hnul : ¬ ∀ q ∈ text, toLatin1 q ≠ 0)
    (ha : Along EditorSession.step EditorSession.Allows (c.1.session, c.2)
      ((Key.text.commands shift (typable text)).map .command)) :
    c.1.keyPressEvent m .text shift text = .error (noCharacter, c.1.put (typing c shift text)) := by
  obtain ⟨t, ht, hfold⟩ := h.sound.foldlM_handleEditorCommand ha
  obtain ⟨q, rest, hsplit, hq⟩ := exists_typable_append hnul
  have hcommands : Key.text.commands shift text = Key.text.commands shift (typable text) ++
      ⟨.insertCharacter, 0⟩ :: Key.text.commands shift rest := by
    conv_lhs => rw [hsplit]
    simp [Key.commands, hq]
  have hthrows : (Key.text.commands shift text).foldlM EditorSession.handleEditorCommand c.1.session =
      .error (noCharacter, t) := by
    rw [hcommands, List.foldlM_append, ht]
    change (t.handleEditorCommand ⟨.insertCharacter, 0⟩ >>= fun s =>
      (Key.text.commands shift rest).foldlM EditorSession.handleEditorCommand s) = _
    rw [handleEditorCommand_nul]
    rfl
  rw [typing, hfold, EditorWidget.keyPressEvent, hthrows]
  rfl

/-- **A key returns** exactly if its text is Latin-1 without a NUL, whatever led to the widget; then the
whole text was typed and the caret announced.  If it is not, the handler throws: the characters in front
were typed, the rest is lost, and the caret is not announced. -/
theorem keyPressEvent_text_iff {m : FontMetrics} {c : EditorWidget × List Operation}
    (h : Reached m c) (shift : Bool) (text : List UInt16)
    (ha : Along EditorSession.step EditorSession.Allows (c.1.session, c.2)
      ((Key.text.commands shift (typable text)).map .command))
    (htext : (typing c shift text).doc.text.length < 2 ^ 31 - 1) :
    ((∃ w, c.1.keyPressEvent m .text shift text = .ok w) ↔ ∀ q ∈ text, toLatin1 q ≠ 0) ∧
      (∀ w, c.1.keyPressEvent m .text shift text = .ok w →
        w.session = (sessionAfter m c (.keyPress .text shift text)).1 ∧
          w.session = (typing c shift text).queueCursorUpdate ∧ typable text = text) ∧
      ((¬ ∀ q ∈ text, toLatin1 q ≠ 0) → c.1.keyPressEvent m .text shift text =
        .error (noCharacter, c.1.put (typing c shift text))) := by
  have hkept := h.kept
  have hlatin : ∀ w, c.1.keyPressEvent m .text shift text = .ok w → ∀ q ∈ text, toLatin1 q ≠ 0 := by
    intro w hw
    by_contra hnul
    rw [hkept.keyPressEvent_nul shift hnul ha] at hw
    cases hw
  have htyped (hall : ∀ q ∈ text, toLatin1 q ≠ 0) : ∃ w, c.1.keyPressEvent m .text shift text = .ok w ∧
      w.session = (sessionAfter m c (.keyPress .text shift text)).1 ∧
      w.session = (typing c shift text).queueCursorUpdate := by
    have hafter : (sessionAfter m c (.keyPress .text shift text)).1 =
        (typing c shift text).queueCursorUpdate := by
      rw [sessionAfter, inputs, List.foldl_append, typing, typable_eq_self hall]
      rfl
    have hallows : Allows m c (.keyPress .text shift text) := by
      rw [typable_eq_self hall] at ha
      refine ⟨along_append.mpr ⟨ha, trivial, trivial⟩, ?_, trivial⟩
      rw [hafter]
      exact htext
    obtain ⟨w, hw, hsession, -⟩ := hkept.keyPressEvent hallows
    exact ⟨w, hw, hsession, hsession.trans hafter⟩
  refine ⟨⟨fun ⟨w, hw⟩ => hlatin w hw, fun hall => ?_⟩, fun w hw => ?_,
    fun hnul => hkept.keyPressEvent_nul shift hnul ha⟩
  · obtain ⟨w, hw, -⟩ := htyped hall
    exact ⟨w, hw⟩
  · have hall := hlatin w hw
    obtain ⟨w', hw', hsession, htyping⟩ := htyped hall
    obtain rfl := Except.ok.inj (hw.symm.trans hw')
    exact ⟨hsession, htyping, typable_eq_self hall⟩

/-- What the sample leads to. -/
def sampleWidget : EditorWidget × List Operation := after sampleMetrics (str "a") 20 75 sampleEvents

theorem reached_sampleWidget : Reached sampleMetrics sampleWidget :=
  ⟨str "a", 20, 75, sampleEvents, by decide, by decide, by decide +kernel, rfl⟩

/-- A euro sign between two letters. -/
theorem keyPressEvent_text_iff_euro :
    ((∃ w, sampleWidget.1.keyPressEvent sampleMetrics .text false [65, 0x20ac, 66] = .ok w) ↔
        ∀ q ∈ [65, 0x20ac, 66], toLatin1 q ≠ 0) ∧
      (∀ w, sampleWidget.1.keyPressEvent sampleMetrics .text false [65, 0x20ac, 66] = .ok w →
        w.session = (sessionAfter sampleMetrics sampleWidget
            (.keyPress .text false [65, 0x20ac, 66])).1 ∧
          w.session = (typing sampleWidget false [65, 0x20ac, 66]).queueCursorUpdate ∧
          typable [65, 0x20ac, 66] = [65, 0x20ac, 66]) ∧
      ((¬ ∀ q ∈ [65, 0x20ac, 66], toLatin1 q ≠ 0) →
        sampleWidget.1.keyPressEvent sampleMetrics .text false [65, 0x20ac, 66] =
          .error (noCharacter,
            sampleWidget.1.put (typing sampleWidget false [65, 0x20ac, 66]))) :=
  keyPressEvent_text_iff reached_sampleWidget false [65, 0x20ac, 66] (by decide +kernel)
    (by decide +kernel)

end EditorWidget

end CrdtEditor
