import CrdtEditor.Persistence.DocumentStore
import CrdtEditor.Wire.Message

/-!
# Server/State — connections and the server

`client_connection.cpp` and `server.cpp`.  Connections are named by handles, as the code shares them
by pointer; a connection that never spoke is `ClientConnection.new`.  A handler that throws leaves
the mutations it made, and `receiveMessage` answers every exception by disconnecting the sender.

Three fields record what the source only does: `sent` are the messages a connection accepted for
writing, `submitted` the operations accepted from it, `violations` the protocol violations the server
reported on standard error before a disconnect.
-/

namespace CrdtEditor

open Text

/-- `ClientState`, in the order in which a connection goes through it. -/
inductive ClientState
  | unregistered
  | registered
  | syncing
  | live
  | disconnected
  deriving DecidableEq, Repr

structure ClientConnection where
  clientId : Str
  state : ClientState
  currentDocument : Option DocumentID
  sent : List Message
  submitted : List Operation

namespace ClientConnection

/-- A connection just accepted. -/
def new : ClientConnection := ⟨[], .unregistered, none, [], []⟩

def isRegistered (c : ClientConnection) : Bool :=
  c.state = .syncing || c.state = .live || c.state = .registered

def isSyncing (c : ClientConnection) : Bool := c.state = .syncing

def isLive (c : ClientConnection) : Bool := c.state = .live

/-- `get_current_document`, which throws before a document is open. -/
def getCurrentDocument (c : ClientConnection) : Except Exn DocumentID :=
  match c.currentDocument with
  | some id => .ok id
  | none => .error (.runtimeError (str "Client has no current document."))

/-- `send`: nothing is written to a connection that is not registered, and `frame_message` refuses
what a 32-bit length cannot describe. -/
def send (c : ClientConnection) (message : Message) : Except Exn ClientConnection :=
  if c.state = .unregistered ∨ c.state = .disconnected then .ok c
  else if 2 ^ 32 ≤ message.serialize.length then
    .error (.lengthError (str "Message is to large to frame"))
  else .ok { c with sent := c.sent ++ [message] }

end ClientConnection

/-- The handle of a connection. -/
abbrev ConnId := ℕ

structure Server where
  connections : ConnId → ClientConnection
  clients : UMap Str ConnId
  pendingSyncOperations : UMap Str (List Operation)
  presence : UMap Str ElementID
  store : DocumentStore
  violations : List Str

namespace Server

/-- The server over a document store, before any connection. -/
def start (store : DocumentStore) : Server where
  connections _ := .new
  clients := ∅
  pendingSyncOperations := ∅
  presence := ∅
  store := store
  violations := []

/-- Write one connection. -/
def setConnection (s : Server) (conn : ConnId) (c : ClientConnection) : Server :=
  { s with connections := Function.update s.connections conn c }

/-- `ClientConnection::send_message` on one connection of the server. -/
def send (s : Server) (conn : ConnId) (message : Message) : Except (Exn × Server) Server := do
  let c ← Except.leaving s ((s.connections conn).send message)
  pure (s.setConnection conn c)

/-- `unregister_client`: only the connection registered under the id removes it. -/
def unregisterClient (s : Server) (conn : ConnId) : Server :=
  let clientId := (s.connections conn).clientId
  if AList.lookup clientId s.clients = some conn then
    { s with
      clients := AList.erase clientId s.clients
      pendingSyncOperations := AList.erase clientId s.pendingSyncOperations
      presence := AList.erase clientId s.presence }
  else s

/-- `ClientConnection::disconnect`. -/
def disconnect (s : Server) (conn : ConnId) : Server :=
  let c := s.connections conn
  if c.state = .disconnected then s
  else
    let s := s.setConnection conn { c with state := .disconnected }
    if c.clientId ≠ [] then s.unregisterClient conn else s

/-- Report a protocol violation and disconnect the peer. -/
def reject (s : Server) (conn : ConnId) (report : Str) : Server :=
  { s with violations := s.violations ++ [report] }.disconnect conn

/-- `Server::register_client`: the id is taken before the acknowledgement is sent. -/
def registerClient (s : Server) (conn : ConnId) (clientId : Str) :
    Except (Exn × Server) Server := do
  if clientId = [] then throw (.runtimeError (str "Client ID cannot be empty"), s)
  if clientId ∈ s.clients then throw (.runtimeError (str "Client ID already connected"), s)
  let s : Server :=
    { s with
      clients := AList.insert clientId conn s.clients
      pendingSyncOperations := UMap.emplace s.pendingSyncOperations clientId []
      presence := UMap.emplace s.presence clientId rootId }
  let s := s.setConnection conn
    { s.connections conn with clientId := clientId, state := .registered }
  s.send conn ⟨.helloAck, str "server", .monostate⟩

/-- `Server::open_document`: the document is made if it is new, and its history sent. -/
def openDocument (order : RowOrder Str) (s : Server) (conn : ConnId) (documentId : DocumentID) :
    Except (Exn × Server) Server := do
  if documentId = [] then throw (.runtimeError (str "Document ID cannot be empty."), s)
  if ¬ (s.connections conn).isRegistered then
    throw (.runtimeError (str "Only registered clients can open documents."), s)
  let store ← if s.store.contains documentId then pure s.store
    else Except.leaving s (s.store.createDocument documentId)
  let s := { s with store := store }
  let p ← Except.leaving s (s.store.getDocument documentId)
  let history ← Except.leaving s (p.getHistory s.store.database order)
  let s := s.setConnection conn
    { s.connections conn with currentDocument := some documentId, state := .syncing }
  s.send conn ⟨.syncResponse, str "server", .history history⟩

/-- `send_presence`: the cursors of the live clients on the same document. -/
def sendPresence (s : Server) (conn : ConnId) : Except (Exn × Server) Server := do
  let documentId ← Except.leaving s (s.connections conn).getCurrentDocument
  s.presence.entries.foldlM (fun t e =>
    if e.1 = (t.connections conn).clientId then pure t
    else match AList.lookup e.1 t.clients with
      | none => pure t
      | some other =>
        if (t.connections other).isLive ∧
            (t.connections other).currentDocument = some documentId then
          t.send conn ⟨.cursorUpdate, e.1, .cursorUpdate e.2⟩
        else pure t) s

/-- `Server::finish_sync`: what waited is sent, and the client is live from then on. -/
def finishSync (s : Server) (conn : ConnId) : Except (Exn × Server) Server := do
  if ¬ (s.connections conn).isSyncing then return s
  if (s.connections conn).currentDocument = none then
    throw (.runtimeError (str "Cannot finish sync: client has no current document."), s)
  let clientId := (s.connections conn).clientId
  match AList.lookup clientId s.pendingSyncOperations with
  | none => return s
  | some pending =>
    -- everything that happened while syncing
    let s ← pending.foldlM
      (fun t operation => t.send conn ⟨.operation, str "server", .operation operation⟩) s
    let s :=
      { s with pendingSyncOperations := AList.erase clientId s.pendingSyncOperations }
    let s := s.setConnection conn { s.connections conn with state := .live }
    s.sendPresence conn

/-- The clients other than the sender that have its document open. -/
def Peer (s : Server) (sender : ConnId) (documentId : DocumentID) (conn : ConnId) : Prop :=
  conn ≠ sender ∧ (s.connections conn).currentDocument = some documentId

instance (s : Server) (sender : ConnId) (documentId : DocumentID) (conn : ConnId) :
    Decidable (s.Peer sender documentId conn) :=
  inferInstanceAs (Decidable (_ ∧ _))

/-- The turn of `route_message` for one entry of `clients`. -/
def routeTo (sender : ConnId) (documentId : DocumentID) (message : Message)
    (operation : Operation) (s : Server) (e : Sigma fun _ : Str => ConnId) :
    Except (Exn × Server) Server :=
  if s.Peer sender documentId e.2 then
    if (s.connections e.2).isSyncing then
      pure { s with
        pendingSyncOperations := UMap.push s.pendingSyncOperations e.1 operation }
    else if (s.connections e.2).isLive then s.send e.2 message
    else pure s
  else pure s

/-- `Server::route_message`, over every registered client. -/
def routeMessage (s : Server) (sender : ConnId) (message : Message) :
    Except (Exn × Server) Server := do
  let documentId ← Except.leaving s (s.connections sender).getCurrentDocument
  let operation ← Except.leaving s message.payload.getOperation
  s.clients.entries.foldlM (routeTo sender documentId message operation) s

/-- `Server::route_cursor_update`: the cursor is recorded, then relayed. -/
def routeCursorUpdate (s : Server) (sender : ConnId) (message : Message) :
    Except (Exn × Server) Server := do
  let documentId ← Except.leaving s (s.connections sender).getCurrentDocument
  let position ← Except.leaving s message.payload.getCursorUpdate
  let clientId := (s.connections sender).clientId
  if clientId ∉ s.presence then throw (.outOfRange (str "unordered_map::at"), s)
  let s := { s with presence := AList.insert clientId position s.presence }
  s.clients.entries.foldlM (fun t e =>
    if t.Peer sender documentId e.2 ∧ (t.connections e.2).isLive then t.send e.2 message
    else pure t) s

section

variable (sha256 : Str → Vector UInt8 32)

/-- An `OPERATION` from a live client: recorded, applied, routed. -/
def applyAndRoute (s : Server) (sender : ConnId) (message : Message) :
    Except (Exn × Server) Server := do
  let operation ← Except.leaving s message.payload.getOperation
  let documentId ← Except.leaving s (s.connections sender).getCurrentDocument
  match s.store.applyOperation sha256 documentId operation with
  | .error (e, store) => throw (e, { s with store := store })
  | .ok store =>
    let s : Server := { s with store := store }
    let c := s.connections sender
    let s := s.setConnection sender { c with submitted := c.submitted ++ [operation] }
    s.routeMessage sender message

/-- The `switch` of `receive_message`. -/
def handle (order : RowOrder Str) (s : Server) (sender : ConnId) (message : Message) :
    Except (Exn × Server) Server :=
  let c := s.connections sender
  match message.type with
  | .hello =>
    if c.isRegistered then pure (s.reject sender (str "Client sent HELLO after registration"))
    else match s.registerClient sender message.sender with
      | .ok s => pure s
      | .error (_, s) => pure (s.disconnect sender)
  | .operation =>
    if ¬ c.isLive then pure (s.reject sender (str "Recieved OPERATION from non-live client"))
    else if c.currentDocument = none then
      pure (s.reject sender (str "Live client has no current document"))
    else s.applyAndRoute sha256 sender message
  | .syncComplete =>
    if ¬ c.isSyncing then
      pure (s.reject sender (str "Received SYNC_COMPLETE from client that isn't syncing"))
    else s.finishSync sender
  | .cursorUpdate =>
    if ¬ c.isLive then pure (s.reject sender (str "Recieved CURSOR_UPDATE from non-live client"))
    else s.routeCursorUpdate sender message
  | .openDocument =>
    if ¬ c.isRegistered then
      pure (s.reject sender (str "Received OPEN_DOCUMENT from unregistered client"))
    else if c.currentDocument ≠ none then
      pure (s.reject sender (str ("Client already has a document open. " ++
        "This should be fixed in a later update.")))
    else do
      let documentId ← Except.leaving s message.payload.getOpenDocument
      match s.openDocument order sender documentId with
      | .ok s => pure s
      | .error (_, s) => pure (s.disconnect sender)
  | _ => pure (s.reject sender (str "Unexpected message type"))

/-- `Server::receive_message`: whatever is thrown disconnects the sender. -/
def receiveMessage (order : RowOrder Str) (s : Server) (sender : ConnId)
    (serializedMessage : Str) : Server :=
  match Message.deserialize serializedMessage with
  | .error _ => s.disconnect sender
  | .ok message =>
    match s.handle sha256 order sender message with
    | .ok s => s
    | .error (_, s) => s.disconnect sender

/-! ## Runs -/

/-- What can happen at the server: a body arrives (with an order for the rows a query may return), a
connection fails or closes, the server is started again on its database file. -/
inductive Event
  | receive (conn : ConnId) (body : Str) (order : RowOrder Str)
  | disconnect (conn : ConnId)
  | restart (documentOrder : RowOrder CText) (rowOrder : DocumentID → RowOrder Str)

/-- One event.  `read_header` refuses a body that is too long; a start that throws ends the program,
and the model keeps the state it had. -/
def step (s : Server) : Event → Server
  | .receive conn body order =>
    if maxMessageSize < body.length then s.disconnect conn
    else s.receiveMessage sha256 order conn body
  | .disconnect conn => s.disconnect conn
  | .restart documentOrder rowOrder =>
    match DocumentStore.reopen s.store.database documentOrder rowOrder with
    | .ok store => start store
    | .error _ => s

end

end Server

end CrdtEditor
