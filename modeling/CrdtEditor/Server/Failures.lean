import CrdtEditor.Persistence.Failures
import CrdtEditor.Server.State

/-!
# Server/Failures — the server when the database fails

The handlers of `server.cpp` that reach the database, with the calls to SQLite that may fail.  A
failure throws, so it ends as every exception of a handler does.  With no failures this is the server
of `Server/State`: `stepWith_none`.
-/

namespace CrdtEditor.Server

open Text

variable (sha256 : Str → Vector UInt8 32) (faults : Faults)

/-- `Server::open_document`: creating the document and reading its rows may fail. -/
def openDocumentWith (order : RowOrder Str) (s : Server) (conn : ConnId)
    (documentId : DocumentID) : Except (Exn × Server) Server := do
  if documentId = [] then throw (.runtimeError (str "Document ID cannot be empty."), s)
  if ¬ (s.connections conn).isRegistered then
    throw (.runtimeError (str "Only registered clients can open documents."), s)
  let store ← if s.store.contains documentId then pure s.store
    else Except.leaving s (s.store.createDocumentWith faults documentId)
  let s := { s with store := store }
  let p ← Except.leaving s (s.store.getDocument documentId)
  Except.leaving s (SQLiteDatabase.checkGetOperations faults)
  let history ← Except.leaving s (p.getHistory s.store.database order)
  let s := s.setConnection conn
    { s.connections conn with currentDocument := some documentId, state := .syncing }
  s.send conn ⟨.syncResponse, str "server", .history history⟩

/-- `Server::apply_and_route`: if storing the operation fails, nobody hears of it. -/
def applyAndRouteWith (s : Server) (sender : ConnId) (message : Message) :
    Except (Exn × Server) Server := do
  let operation ← Except.leaving s message.payload.getOperation
  let documentId ← Except.leaving s (s.connections sender).getCurrentDocument
  match s.store.applyOperationWith sha256 faults documentId operation with
  | .error (e, store) => throw (e, { s with store := store })
  | .ok store =>
    let s : Server := { s with store := store }
    let c := s.connections sender
    let s := s.setConnection sender { c with submitted := c.submitted ++ [operation] }
    s.routeMessage sender message

/-- The `switch` of `receive_message`. -/
def handleWith (order : RowOrder Str) (s : Server) (sender : ConnId) (message : Message) :
    Except (Exn × Server) Server :=
  let c := s.connections sender
  match message.type with
  | .operation =>
    if ¬ c.isLive then pure (s.reject sender (str "Recieved OPERATION from non-live client"))
    else if c.currentDocument = none then
      pure (s.reject sender (str "Live client has no current document"))
    else s.applyAndRouteWith sha256 faults sender message
  | .openDocument =>
    if ¬ c.isRegistered then
      pure (s.reject sender (str "Received OPEN_DOCUMENT from unregistered client"))
    else if c.currentDocument ≠ none then
      pure (s.reject sender (str ("Client already has a document open. " ++
        "This should be fixed in a later update.")))
    else do
      let documentId ← Except.leaving s message.payload.getOpenDocument
      match s.openDocumentWith faults order sender documentId with
      | .ok s => pure s
      | .error (_, s) => pure (s.disconnect sender)
  | _ => s.handle sha256 order sender message

/-- `Server::receive_message`, whose `catch` disconnects the sender. -/
def receiveMessageWith (order : RowOrder Str) (s : Server) (sender : ConnId)
    (serializedMessage : Str) : Server :=
  match Message.deserialize serializedMessage with
  | .error _ => s.disconnect sender
  | .ok message =>
    match s.handleWith sha256 faults order sender message with
    | .ok s => s
    | .error (_, s) => s.disconnect sender

/-- One event during which some calls to the database fail. -/
def stepWith (s : Server) : Event → Server
  | .receive conn body order =>
    if maxMessageSize < body.length then s.disconnect conn
    else s.receiveMessageWith sha256 faults order conn body
  | e => s.step sha256 e

/-! ## Without failures -/

/-- No failure of `create_document` or of reading the rows. -/
theorem openDocumentWith_none (order : RowOrder Str) (s : Server) (conn : ConnId)
    (documentId : DocumentID) :
    s.openDocumentWith (fun _ => false) order conn documentId =
      s.openDocument order conn documentId := rfl

/-- No failure of storing the operation. -/
theorem applyAndRouteWith_none (s : Server) (sender : ConnId) (message : Message) :
    s.applyAndRouteWith sha256 (fun _ => false) sender message =
      s.applyAndRoute sha256 sender message := by
  have hstore : ∀ d op, s.store.applyOperationWith sha256 (fun _ => false) d op =
      s.store.applyOperation sha256 d op := fun d op => by
    rw [DocumentStore.applyOperationWith, DocumentStore.applyOperation]
    cases s.store.getDocument d <;> rfl
  simp only [applyAndRouteWith, hstore]
  rfl

/-- The remaining branches reach no database. -/
theorem handleWith_none (order : RowOrder Str) (s : Server) (sender : ConnId) (message : Message) :
    s.handleWith sha256 (fun _ => false) order sender message =
      s.handle sha256 order sender message := by
  rw [handleWith, handle]
  simp only [applyAndRouteWith_none, openDocumentWith_none]
  cases message.type <;> rfl

/-- **A server whose database does not fail.** -/
theorem stepWith_none (s : Server) (e : Event) :
    s.stepWith sha256 (fun _ => false) e = s.step sha256 e := by
  cases e with
  | receive conn body order =>
    simp only [stepWith, receiveMessageWith, handleWith_none]
    rfl
  | disconnect conn => rfl
  | restart documentOrder rowOrder => rfl

end CrdtEditor.Server
