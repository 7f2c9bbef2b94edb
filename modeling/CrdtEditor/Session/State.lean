import CrdtEditor.Editor.InputHandler
import CrdtEditor.Wire.Message

/-!
# Session/State — the document of one client and what it exchanges

`network/editor_session.cpp` and `src/operation_log.cpp`.  A session owns a document, the log of what
was applied to it, the caret and the id generator; it takes messages off its incoming queue and leaves
messages on its outgoing queue.  An operation whose serialized text was applied before is dropped.

As on the server, a call that throws leaves the mutations it made.
-/

namespace CrdtEditor

/-- `OperationLog`: the operations in order, and the texts of those recorded. -/
structure OperationLog where
  operationHistory : List Operation
  recordedOperations : Finset Str

namespace OperationLog

def empty : OperationLog := ⟨[], ∅⟩

/-- `OperationLog::record`: once per text. -/
def record (l : OperationLog) (oper : Operation) : OperationLog :=
  if oper.serialize ∈ l.recordedOperations then l
  else ⟨l.operationHistory ++ [oper], insert oper.serialize l.recordedOperations⟩

end OperationLog

structure EditorSession where
  doc : Document
  log : OperationLog
  cursor : Cursor
  gen : IdGenerator
  clientId : Str
  incomingQueue : List Message
  outgoingQueue : List Message
  pendingCursorUpdates : UMap Str ElementID
  appliedOperations : Finset Str
  remoteCursors : UMap Str ElementID

namespace EditorSession

open Except (leaving)

/-- What a call leaves: the session, or an exception and the session at its `throw`. -/
abbrev Result := Except (Exn × EditorSession) EditorSession

/-- The session of a client that just started. -/
def start (clientId : Str) : EditorSession where
  doc := .empty
  log := .empty
  cursor := ⟨rootId, none, none⟩
  gen := ⟨clientId, 0⟩
  clientId := clientId
  incomingQueue := []
  outgoingQueue := []
  pendingCursorUpdates := ∅
  appliedOperations := ∅
  remoteCursors := ∅

/-- The handler works on the document, the cursor and the generator of the session. -/
def handler (s : EditorSession) : InputHandler := ⟨s.doc, s.cursor, s.gen⟩

/-- Write back what the handler holds by reference. -/
def put (s : EditorSession) (h : InputHandler) : EditorSession :=
  { s with doc := h.doc, cursor := h.cursor, gen := h.gen }

def render (s : EditorSession) : Except Exn Str := s.doc.render

/-- `queue_outgoing_message`. -/
def queueOutgoingMessage (s : EditorSession) (message : Message) : EditorSession :=
  { s with outgoingQueue := s.outgoingQueue ++ [message] }

/-- `queue_cursor_update`: the own caret, as the element in front of it. -/
def queueCursorUpdate (s : EditorSession) : EditorSession :=
  s.queueOutgoingMessage ⟨.cursorUpdate, s.clientId, .cursorUpdate s.cursor.anchor⟩

/-! ## Applying an operation -/

/-- `doc.apply`, which leaves its document in the session also when it throws. -/
def applyToDocument (s : EditorSession) (oper : Operation) : Result :=
  match s.doc.apply oper with
  | .ok d => .ok { s with doc := d }
  | .error (e, d) => .error (e, { s with doc := d })

/-- One turn of the loop of `update_remote_cursors`. -/
def updateRemoteCursor (target : ElementID) (s : EditorSession)
    (e : Sigma fun _ : Str => ElementID) : Result := do
  if e.2 = target then
    let predecessor ← leaving s (s.doc.visiblePredecessor target)
    return { s with remoteCursors := AList.insert e.1 predecessor s.remoteCursors }
  else return s

/-- Remote carets behind a deleted element fall back as the local one does. -/
def updateRemoteCursors (s : EditorSession) : Operation → Result
  | .insert _ => .ok s
  | .remove oper => s.remoteCursors.entries.foldlM (updateRemoteCursor oper.theTarget) s

/-- `apply_operation`: once per text; the own caret moves by one rule for local operations and another
for remote ones, then the carets of the other clients. -/
def applyOperation (s : EditorSession) (oper : Operation) (updateCursor : Bool) : Result := do
  let serialized := oper.serialize
  if serialized ∈ s.appliedOperations then return s
  let s := { s with
    appliedOperations := insert serialized s.appliedOperations
    log := s.log.record oper }
  let s ← s.applyToDocument oper
  let cursor ← leaving s
    (if updateCursor then s.cursor.update s.doc oper else s.cursor.updateOnRemote s.doc oper)
  { s with cursor := cursor }.updateRemoteCursors oper

/-! ## Cursors of other clients -/

/-- One turn of the loop of `update_pending_cursor_updates`. -/
def updatePendingCursor (s : EditorSession) (e : Sigma fun _ : Str => ElementID) : Result := do
  match ← leaving s (s.doc.resolveCursorAnchor e.2) with
  | some _ =>
    return { s with
      remoteCursors := AList.insert e.1 e.2 s.remoteCursors
      pendingCursorUpdates := AList.erase e.1 s.pendingCursorUpdates }
  | none => return s

/-- `update_pending_cursor_updates`: the carets whose element may have come by now. -/
def updatePendingCursorUpdates (s : EditorSession) : Result :=
  s.pendingCursorUpdates.entries.foldlM updatePendingCursor s

/-- `receive_cursor_update`: a caret behind an element that is still missing waits. -/
def receiveCursorUpdate (s : EditorSession) (clientId : Str) (position : ElementID) : Result := do
  match ← leaving s (s.doc.resolveCursorAnchor position) with
  | none =>
    return { s with
      pendingCursorUpdates := AList.insert clientId position s.pendingCursorUpdates }
  | some _ =>
    return { s with
      remoteCursors := AList.insert clientId position s.remoteCursors
      pendingCursorUpdates := AList.erase clientId s.pendingCursorUpdates }

/-! ## Messages and commands -/

/-- The clock never falls behind the inserts it has seen. -/
def syncClock (s : EditorSession) : Operation → EditorSession
  | .insert oper => { s with gen := s.gen.syncClock oper.ident.lamport }
  | .remove _ => s

/-- A remote operation: the clock first, then the document. -/
def applyRemote (s : EditorSession) (oper : Operation) : Result :=
  (s.syncClock oper).applyOperation oper false

/-- `apply_history`: every operation in order, then the carets that waited. -/
def applyHistory (s : EditorSession) (history : List Operation) : Result := do
  let s ← history.foldlM applyRemote s
  s.updatePendingCursorUpdates

/-- `EditorSession::apply`, the `switch` over the messages. -/
def apply (s : EditorSession) (message : Message) : Result :=
  match message.type with
  | .operation => do
    let oper ← leaving s message.payload.getOperation
    let s ← s.applyRemote oper
    s.updatePendingCursorUpdates
  | .syncResponse => do
    let history ← leaving s message.payload.getHistory
    let s ← s.applyHistory history
    let s := s.queueOutgoingMessage ⟨.syncComplete, s.clientId, .monostate⟩
    return s.queueCursorUpdate
  | .cursorUpdate => do
    let position ← leaving s message.payload.getCursorUpdate
    s.receiveCursorUpdate message.sender position
  | _ => .ok s

/-- `flush_incoming`: the queue is emptied first, so a throw loses what is behind the culprit. -/
def flushIncoming (s : EditorSession) : Result :=
  s.incomingQueue.foldlM apply { s with incomingQueue := [] }

/-- One turn of the loop of `handle_editor_command`: the operation is applied and offered to the
network. -/
def perform (s : EditorSession) (action : Operation) : Result := do
  let s ← s.applyOperation action true
  return s.queueOutgoingMessage ⟨.operation, s.clientId, .operation action⟩

/-- `handler.process_command` on the session. -/
def processCommand (s : EditorSession) (command : EditorCommand) :
    Except (Exn × EditorSession) (EditorSession × List Operation) :=
  match s.handler.processCommand command with
  | .ok (h, actions) => .ok (s.put h, actions)
  | .error (e, h) => .error (e, s.put h)

/-- Every command but the moves up and down sets the remembered column. -/
def rememberColumn (s : EditorSession) (command : EditorCommand) : Result := do
  if command.type ≠ .moveUp ∧ command.type ≠ .moveDown then
    let cursor ← leaving s (s.cursor.updateDesiredColumn s.doc)
    return { s with cursor := cursor }
  else return s

/-- `handle_editor_command`: the operations that the handler asks for are applied and queued one by
one. -/
def handleEditorCommand (s : EditorSession) (command : EditorCommand) : Result := do
  let (s, actions) ← s.processCommand command
  let s ← actions.foldlM perform s
  s.rememberColumn command

end EditorSession

end CrdtEditor
