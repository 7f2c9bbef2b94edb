import CrdtEditor.Client.NetworkClient
import CrdtEditor.Server.State
import CrdtEditor.Session.Widget

/-!
# System/State — the server and its clients

The server of `server.cpp` and any number of clients, each an `EditorSession` and a `NetworkClient`
that share two queues, as `app/main.cpp` builds them.  A client is named by its id, a connection by
its handle; every connection carries the messages of each side in order.

A task of a client's `io_context` may run at any time here, and so may the read handlers of both
sides; the sockets below them are those of `Server/Transport` and `Client/NetworkClient`.
-/

namespace CrdtEditor

open Text

/-- A client: a session and the network client that shares its queues. -/
structure Process where
  session : EditorSession
  network : NetworkClient

namespace Process

/-- A client just launched. -/
def start (clientId : Str) : Process := ⟨.start clientId, .start clientId⟩

/-- A handler of the network client runs, on the two queues of the session. -/
def run (p : Process) (handler : NetworkClient → NetworkClient) : Process :=
  let network := handler { p.network with
    incoming := p.session.incomingQueue
    outgoing := p.session.outgoingQueue }
  { session := { p.session with
      incomingQueue := network.incoming
      outgoingQueue := network.outgoing }
    network := network }

end Process

/-- What passed over a connection: the messages its client wrote, how many of them the server has
read, and how many of those the server sent the client has read. -/
structure Link where
  written : List Message
  read : ℕ
  delivered : ℕ

structure System where
  server : Server
  processes : Str → Process
  connection : Str → ConnId
  links : ConnId → Link
  opened : ConnId

/-- What the user and the timer make a session do. -/
inductive Action
  | command (command : EditorCommand)
  | queueCursorUpdate
  | mousePress (line column : ℕ)
  | mouseMove (line column : ℕ)
  | flush

def Action.input : Action → EditorSession.Input
  | .command c => .command c
  | .queueCursorUpdate => .queueCursorUpdate
  | .mousePress line column => .mousePress line column
  | .mouseMove line column => .mouseMove line column
  | .flush => .flush

/-- A body arrives: the two read handlers of the network client. -/
def NetworkClient.receive (c : NetworkClient) (body : Str) : NetworkClient :=
  if maxMessageSize < body.length then c.fail else c.handleMessage body

/-- `async_connect` succeeds. -/
def NetworkClient.connected (c : NetworkClient) : NetworkClient :=
  (c.complete ⟨true, 0, []⟩ (.connect c.generation) true).state

namespace NetworkClientState

/-- Whether there is a connection that messages are written to and read from. -/
def Connected (state : NetworkClientState) : Prop := state ≠ .disconnected ∧ state ≠ .connecting

instance : DecidablePred Connected := fun _ => inferInstanceAs (Decidable (_ ∧ _))

end NetworkClientState

namespace System

/-- A server on a new database and clients that were just launched. -/
def start : System where
  server := .start .empty
  processes := .start
  connection _ := 0
  links _ := ⟨[], 0, 0⟩
  opened := 0

def network (s : System) (id : Str) : NetworkClient := (s.processes id).network

def session (s : System) (id : Str) : EditorSession := (s.processes id).session

def setProcess (s : System) (id : Str) (p : Process) : System :=
  { s with processes := Function.update s.processes id p }

def setLink (s : System) (conn : ConnId) (l : Link) : System :=
  { s with links := Function.update s.links conn l }

/-- The link of the connection a client has. -/
def link (s : System) (id : Str) : Link := s.links (s.connection id)

/-- A handler of a network client runs; what it writes goes to its connection. -/
def run (s : System) (id : Str) (handler : NetworkClient → NetworkClient) : System :=
  let p := (s.processes id).run handler
  let new := (p.network.accepted.drop (s.network id).accepted.length).map (·.2)
  (s.setProcess id p).setLink (s.connection id)
    { s.link id with written := (s.link id).written ++ new }

/-- What can happen.  `connect` to `processOutgoing` run a task of a client, `deliver` and `read` a
read handler of a client and of the server; `close` is the end of a connection at the server, and
`launch` ends a process and starts it again. -/
inductive Event
  | act (id : Str) (action : Action)
  | connect (id : Str) (opened : Bool)
  | connected (id : Str)
  | disconnect (id : Str)
  | openDocument (id : Str) (documentId : DocumentID)
  | processOutgoing (id : Str)
  | deliver (id : Str)
  | read (conn : ConnId) (order : RowOrder Str)
  | close (conn : ConnId)
  | launch (id : Str)

/-- `async_connect` of a client succeeds: a new connection, and the `HELLO` on it. -/
def establish (s : System) (id : Str) : System :=
  if (s.network id).state = .connecting then
    ({ s with
      connection := Function.update s.connection id s.opened
      opened := s.opened + 1 } : System).run id NetworkClient.connected
  else s

/-- The next message for a client. -/
def deliver (s : System) (id : Str) : System :=
  if (s.network id).state.Connected then
    match (s.server.connections (s.connection id)).sent[(s.link id).delivered]? with
    | some message =>
      (s.setLink (s.connection id) { s.link id with delivered := (s.link id).delivered + 1 }).run id
        (·.receive message.serialize)
    | none => s
  else s

variable (sha256 : Str → Vector UInt8 32)

/-- The next message for the server, which reads no connection that is disconnected. -/
def read (s : System) (conn : ConnId) (order : RowOrder Str) : System :=
  if (s.server.connections conn).state = .disconnected then s
  else
    match (s.links conn).written[(s.links conn).read]? with
    | some message =>
      { s.setLink conn { s.links conn with read := (s.links conn).read + 1 } with
        server := s.server.step sha256 (.receive conn message.serialize order) }
    | none => s

/-- One event. -/
def step (s : System) : Event → System
  | .act id action =>
    s.setProcess id { s.processes id with session := ((s.session id).input action.input).state }
  | .connect id opened => s.run id (·.connectImpl opened)
  | .connected id => s.establish id
  | .disconnect id => s.run id NetworkClient.disconnectImpl
  | .openDocument id documentId => s.run id fun c => (c.openDocumentImpl documentId).state
  | .processOutgoing id => s.run id fun c => c.processOutgoing.state
  | .deliver id => s.deliver id
  | .read conn order => s.read sha256 conn order
  | .close conn =>
    if conn < s.opened then { s with server := s.server.step sha256 (.disconnect conn) } else s
  | .launch id => s.setProcess id (.start id)

end System

end CrdtEditor
