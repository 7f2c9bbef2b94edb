import CrdtEditor.Foundations.Run
import CrdtEditor.Session.Command

/-!
# Session/Widget — the window, the mouse and the message queue

`UI/editor_widget.cpp` as far as it drives a session, `Cursor::set_position`, and the queue the network
fills.  A click and a drag put the caret behind the anchor nearest to where the mouse points.

Whatever is typed, clicked and received, and in whatever order, the caret stands behind the root or an
element that is shown, and nothing throws: `stands_along`.
-/

namespace CrdtEditor.EditorSession

open Text

open Except (leaving)

/-- `Cursor::set_position`. -/
def setPosition (s : EditorSession) (newAnchor : ElementID) : Result := do
  let s := { s with cursor := s.cursor.setAnchor newAnchor }
  let cursor ← leaving s (s.cursor.updateDesiredColumn s.doc)
  return { s with cursor := cursor }

/-- The anchor at a requested position: `get_anchor_at` of `clamp_position`. -/
def anchorNear (s : EditorSession) (requestedLine requestedColumn : ℕ) :
    Except Exn (Option ElementID) := do
  let (line, column) ← s.doc.clampPosition requestedLine requestedColumn
  s.doc.getAnchorAt line column

def mousePressEvent (s : EditorSession) (requestedLine requestedColumn : ℕ) : Result := do
  match ← leaving s (s.anchorNear requestedLine requestedColumn) with
  | some anchor =>
    let s ← s.setPosition anchor
    return s.queueCursorUpdate
  | none => return s

/-- `mouseMoveEvent` while the button is down. -/
def mouseMoveEvent (s : EditorSession) (requestedLine requestedColumn : ℕ) : Result := do
  match ← leaving s (s.anchorNear requestedLine requestedColumn) with
  | some anchor =>
    let cursor := if s.cursor.hasSelection then s.cursor else s.cursor.startSelection
    return { s with cursor := cursor.setAnchor anchor }
  | none => return s

/-- What can happen to a session: a command, a cursor update announced after it, the mouse, a message
that the network queues, the turn of the timer that applies the queue. -/
inductive Input
  | command (command : EditorCommand)
  | queueCursorUpdate
  | mousePress (line column : ℕ)
  | mouseMove (line column : ℕ)
  | receive (message : Message)
  | flush

def input (s : EditorSession) : Input → Result
  | .command command => s.handleEditorCommand command
  | .queueCursorUpdate => .ok s.queueCursorUpdate
  | .mousePress line column => s.mousePressEvent line column
  | .mouseMove line column => s.mouseMoveEvent line column
  | .receive message => .ok { s with incomingQueue := s.incomingQueue ++ [message] }
  | .flush => s.flushIncoming

/-- The operations an input applies from elsewhere. -/
def taken (s : EditorSession) : Input → List Operation
  | .flush => s.incomingQueue.flatMap (·.payload.operations)
  | _ => []

/-- One input, on a session and the operations it has received. -/
def step (c : EditorSession × List Operation) (i : Input) : EditorSession × List Operation :=
  ((c.1.input i).state, c.2 ++ c.1.taken i)

/-- What is asked of an input: a character typed is no NUL, its id has not been received and is below
the largest; the messages applied are formed, and their operations honest. -/
def Allows (c : EditorSession × List Operation) : Input → Prop
  | .command command =>
    command.typed ≠ some 0 ∧ (command.typed ≠ none →
      c.1.Fresh c.2 ∧ c.1.gen.lamportClock.toNat + 1 < 2 ^ 64 - 1)
  | .flush =>
    (∀ m ∈ c.1.incomingQueue, m.Formed) ∧
      c.1.Honest (c.1.incomingQueue.flatMap (·.payload.operations))
  | _ => True

/-- The clock value of an insert is not the largest. -/
def Bounded : Operation → Prop
  | .insert oper => oper.ident.lamport.toNat < 2 ^ 64 - 1
  | .remove _ => True

instance Bounded.decidable : DecidablePred Bounded
  | .insert oper => inferInstanceAs (Decidable (oper.ident.lamport.toNat < 2 ^ 64 - 1))
  | .remove _ => .isTrue trivial

/-- Fairness is a finite check. -/
instance Fair.decidable (s : EditorSession) (ops : List Operation) : Decidable (s.Fair ops) :=
  decidable_of_iff (Operation.Consistent {op | op ∈ s.log.operationHistory ++ ops} ∧
      ∀ op ∈ ops, Bounded op) <| by
    have hunion : {op | op ∈ s.log.operationHistory ++ ops} = s.history ∪ {op | op ∈ ops} := by
      ext op
      simp [history]
    rw [hunion]
    exact ⟨fun h => ⟨h.1, fun oper ho => h.2 _ ho⟩, fun h => ⟨h.consistent, fun op hop =>
      match op, hop with
      | .insert oper, hop => h.lamport oper hop
      | .remove _, _ => trivial⟩⟩

/-- Honesty is a finite check. -/
instance Honest.decidable (s : EditorSession) (ops : List Operation) : Decidable (s.Honest ops) :=
  decidable_of_iff (s.Fair ops ∧ ∀ op ∈ ops, op.Avoids bar)
    ⟨fun h => ⟨h.1, h.2⟩, fun h => ⟨h.toFair, h.avoids⟩⟩

instance Allows.decidable (c : EditorSession × List Operation) : DecidablePred (Allows c)
  | .command command => inferInstanceAs (Decidable (command.typed ≠ some 0 ∧
      (command.typed ≠ none → c.1.Fresh c.2 ∧ c.1.gen.lamportClock.toNat + 1 < 2 ^ 64 - 1)))
  | .flush => inferInstanceAs (Decidable ((∀ m ∈ c.1.incomingQueue, m.Formed) ∧
      c.1.Honest (c.1.incomingQueue.flatMap (·.payload.operations))))
  | .queueCursorUpdate => .isTrue trivial
  | .mousePress _ _ => .isTrue trivial
  | .mouseMove _ _ => .isTrue trivial
  | .receive _ => .isTrue trivial

/-- The caret is behind the root or an element that is present and not deleted. -/
def Stands (s : EditorSession) : Prop :=
  s.cursor.anchor = rootId ∨
    ∃ c, AList.lookup s.cursor.anchor s.doc.elements = some c ∧ c.deleted = false

variable {s : EditorSession} {received : List Operation}

theorem Steady.stands (h : Steady received s) : s.Stands := by
  refine (h.tree.mem_anchors.mp h.anchor).imp id fun hv => ?_
  obtain ⟨c, hc⟩ := UMap.mem_iff_lookup.mp (Document.mem_of_isVisible hv)
  have hr : s.cursor.anchor ≠ rootId := fun he => by
    rw [he, Document.isVisible_root] at hv
    cases hv
  refine ⟨c, hc, ?_⟩
  rw [Document.isVisible_of_lookup hr hc] at hv
  simpa using hv

theorem Steady.getCursorPosition (h : Steady received s) :
    ∃ p, s.doc.getCursorPosition s.cursor.anchor = .ok p := by
  obtain ⟨a, b, hab⟩ := List.append_of_mem h.anchor
  exact ⟨_, h.tree.getCursorPosition_eq hab⟩

theorem Steady.exists_anchorNear (h : Steady received s) (line column : ℕ) :
    ∃ x ∈ s.doc.anchors, s.anchorNear line column = .ok (some x) := by
  obtain ⟨l, c, n, hclamp, hl, hc⟩ := h.tree.exists_clampPosition line column
  obtain ⟨x, hx, hat⟩ := h.tree.exists_getAnchorAt hl hc
  refine ⟨x, hx, ?_⟩
  rw [anchorNear, hclamp]
  exact hat

/-- The caret is set behind the anchor number `k`. -/
theorem setPosition_eq (ht : s.doc.IsTree) {k : ℕ} {x : ElementID}
    (hx : s.doc.anchors[k]? = some x) :
    s.setPosition x = .ok { s with
      cursor := (s.cursor.setAnchor x).setDesiredColumn (position (s.doc.text.take k)).2 } := by
  have hp : (s.cursor.setAnchor x).getLineColumn s.doc = .ok (position (s.doc.text.take k)) :=
    ht.getCursorPosition_getElem? hx
  simp only [setPosition, Cursor.updateDesiredColumn, hp]
  rfl

/-- The cursor of a click, behind the anchor number `k`. -/
def clicked (s : EditorSession) (x : ElementID) (k : ℕ) : Cursor :=
  (s.cursor.setAnchor x).setDesiredColumn (position (s.doc.text.take k)).2

theorem mousePressEvent_eq (ht : s.doc.IsTree) {line column k : ℕ} {x : ElementID}
    (hnear : s.anchorNear line column = .ok (some x)) (hx : s.doc.anchors[k]? = some x) :
    s.mousePressEvent line column =
      .ok ({ s with cursor := s.clicked x k } : EditorSession).queueCursorUpdate := by
  rw [mousePressEvent, hnear]
  simp only [leaving, bind, Except.bind, setPosition_eq ht hx]
  rfl

/-- The cursor of a drag. -/
def dragged (s : EditorSession) (x : ElementID) : Cursor :=
  (if s.cursor.hasSelection then s.cursor else s.cursor.startSelection).setAnchor x

theorem mouseMoveEvent_eq {line column : ℕ} {x : ElementID}
    (hnear : s.anchorNear line column = .ok (some x)) :
    s.mouseMoveEvent line column = .ok { s with cursor := s.dragged x } := by
  rw [mouseMoveEvent, hnear]
  rfl

/-- **A click** moves the caret and queues it. -/
theorem Steady.mousePressEvent (h : Steady received s) (line column : ℕ) :
    ∃ c : Cursor, c.anchor ∈ s.doc.anchors ∧
      s.mousePressEvent line column = .ok ({ s with cursor := c } : EditorSession).queueCursorUpdate := by
  obtain ⟨x, hx, hnear⟩ := h.exists_anchorNear line column
  obtain ⟨k, hk⟩ := List.mem_iff_getElem?.mp hx
  exact ⟨s.clicked x k, hx, mousePressEvent_eq h.tree hnear hk⟩

/-- **A drag** moves the caret. -/
theorem Steady.mouseMoveEvent (h : Steady received s) (line column : ℕ) :
    ∃ c : Cursor, c.anchor ∈ s.doc.anchors ∧
      s.mouseMoveEvent line column = .ok { s with cursor := c } := by
  obtain ⟨x, hx, hnear⟩ := h.exists_anchorNear line column
  exact ⟨s.dragged x, hx, mouseMoveEvent_eq hnear⟩

/-- **Every input returns, and leaves the session sound.** -/
theorem Sound.input (h : Sound received s) {i : Input} (hi : Allows (s, received) i) :
    ∃ s', s.input i = .ok s' ∧ Sound (received ++ s.taken i) s' := by
  have hnone : s.taken i = [] → (∃ s', s.input i = .ok s' ∧ Sound received s') →
      ∃ s', s.input i = .ok s' ∧ Sound (received ++ s.taken i) s' := fun ht hs => by
    rwa [ht, List.append_nil]
  cases i with
  | command command =>
    exact hnone rfl (h.handleEditorCommand hi.1 (fun ht => (hi.2 ht).1) fun ht => (hi.2 ht).2)
  | queueCursorUpdate => exact hnone rfl ⟨_, rfl, h.queueOutgoingMessage _⟩
  | mousePress line column =>
    obtain ⟨c, hc, ht⟩ := h.toSteady.mousePressEvent line column
    have hmoved : Sound received { s with cursor := c } := h.congr rfl rfl rfl rfl rfl hc
    exact hnone rfl ⟨_, ht, hmoved.queueOutgoingMessage _⟩
  | mouseMove line column =>
    obtain ⟨c, hc, ht⟩ := h.toSteady.mouseMoveEvent line column
    exact hnone rfl ⟨_, ht, h.congr rfl rfl rfl rfl rfl hc⟩
  | receive message => exact hnone rfl ⟨_, rfl, h.congr rfl rfl rfl rfl rfl h.anchor⟩
  | flush =>
    have hempty : Sound received { s with incomingQueue := [] } :=
      h.congr rfl rfl rfl rfl rfl h.anchor
    exact hempty.foldlM_apply hi.1 ⟨⟨hi.2.consistent, hi.2.lamport⟩, hi.2.avoids⟩

theorem step_of_ok {s' : EditorSession} {i : Input} (h : s.input i = .ok s') :
    step (s, received) i = (s', received ++ s.taken i) := by
  rw [step, h]
  rfl

/-- Commands one after the other. -/
theorem Sound.foldlM_handleEditorCommand : ∀ {commands : List EditorCommand} {s : EditorSession},
    Sound received s → Along step Allows (s, received) (commands.map Input.command) →
    ∃ t, commands.foldlM EditorSession.handleEditorCommand s = .ok t ∧
      (commands.map Input.command).foldl step (s, received) = (t, received)
  | [], s, _, _ => ⟨s, rfl, rfl⟩
  | command :: commands, s, h, ha => by
      obtain ⟨hfirst, hrest⟩ := ha
      obtain ⟨s', hs', hsound⟩ := h.input hfirst
      have htaken : received ++ s.taken (.command command) = received := List.append_nil received
      have hstep : step (s, received) (.command command) =
          (s', received ++ s.taken (.command command)) := step_of_ok hs'
      rw [htaken] at hsound hstep
      rw [hstep] at hrest
      obtain ⟨t, ht, hfold⟩ := hsound.foldlM_handleEditorCommand hrest
      refine ⟨t, ?_, ?_⟩
      · rw [List.foldlM_cons, show s.handleEditorCommand command = .ok s' from hs']
        exact ht
      · rw [List.map_cons, List.foldl_cons, hstep, hfold]

/-- What inputs that are allowed lead to. -/
theorem Sound.foldl_step (h : Sound received s) {inputs : List Input}
    (ha : Along step Allows (s, received) inputs) :
    Sound (inputs.foldl step (s, received)).2 (inputs.foldl step (s, received)).1 := by
  have hstep : ∀ c i, Sound c.2 c.1 → Allows c i → Sound (step c i).2 (step c i).1 := by
    intro c i hc hi
    obtain ⟨s', hs', hsound⟩ := hc.input hi
    rw [show step c i = (s', c.2 ++ c.1.taken i) from step_of_ok hs']
    exact hsound
  exact Along.invariant hstep h ha

/-- **The caret stands on something shown**: after every input it is behind the root or an element that
is present and not deleted, its position can be computed, and the input did not throw. -/
theorem stands_along {clientId : Str} (hbar : bar ∉ clientId) {inputs : List Input}
    (h : Along step Allows (start clientId, []) inputs) :
    Along step (fun c i => (∃ s', c.1.input i = .ok s') ∧ (step c i).1.Stands ∧
      ∃ p, (step c i).1.doc.getCursorPosition (step c i).1.cursor.anchor = .ok p)
      (start clientId, []) inputs := by
  suffices hstep : ∀ (c : EditorSession × List Operation) (i : Input), Sound c.2 c.1 → Allows c i →
      ((∃ s', c.1.input i = .ok s') ∧ (step c i).1.Stands ∧
        ∃ p, (step c i).1.doc.getCursorPosition (step c i).1.cursor.anchor = .ok p) ∧
      Sound (step c i).2 (step c i).1 from
    Along.of_invariant hstep (sound_start hbar) h
  intro c i hc hi
  obtain ⟨s', hs', hsound⟩ := hc.input hi
  have hstate : (step c i).1 = s' := by rw [step, hs']; rfl
  rw [hstate]
  exact ⟨⟨⟨s', hs'⟩, hsound.toSteady.stands, hsound.toSteady.getCursorPosition⟩, hsound⟩

/-- A removal that comes before its insert, a duplicate, a click far outside, a drag, and a remote
removal of the element in front of the caret. -/
def sampleInputs : List Input :=
  let insert : Operation := .insert ⟨rootId, ⟨1, str "b"⟩, 66⟩
  let early : Message := ⟨.operation, str "b", .operation (.remove ⟨⟨7, str "c"⟩⟩)⟩
  let history : Message := ⟨.syncResponse, str "server", .history [insert]⟩
  let again : Message := ⟨.operation, str "server", .operation insert⟩
  [.receive history, .receive early, .receive again, .flush,
    .command ⟨.insertCharacter, 65⟩, .queueCursorUpdate, .command ⟨.enter, 0⟩, .mousePress 9 9,
    .receive ⟨.operation, str "c", .operation (.remove ⟨⟨3, str "a"⟩⟩)⟩,
    .receive ⟨.cursorUpdate, str "c", .cursorUpdate ⟨8, str "c"⟩⟩, .flush,
    .mouseMove 0 1, .command ⟨.backspace, 0⟩]

theorem stands_along_sample :
    Along step (fun c i => (∃ s', c.1.input i = .ok s') ∧ (step c i).1.Stands ∧
      ∃ p, (step c i).1.doc.getCursorPosition (step c i).1.cursor.anchor = .ok p)
      (start (str "a"), []) sampleInputs :=
  stands_along (by decide) (by decide +kernel)

end CrdtEditor.EditorSession
