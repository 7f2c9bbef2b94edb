import CrdtEditor.Foundations.Asio
import CrdtEditor.Foundations.Run
import CrdtEditor.Wire.Message

/-!
# Client/NetworkClient — the network client and its `io_context`

`network_client.cpp`.  `connect`, `disconnect`, `send_open_document` and `notify_outgoing` post tasks
to one thread; resolving, connecting, reading and writing are asynchronous, and their handlers carry
the value of `connection_generation` at which they were started.  The `io_context` runs what is ready
first in, first out.

The counter of generations does not wrap here.  `accepted`, `written` and `violations` record what the
source only does: the messages queued and those whose write completed, by generation, and the protocol
violations reported before a disconnect.
-/

namespace CrdtEditor

open Text

inductive NetworkClientState
  | disconnected
  | connecting
  | registering
  | registered
  | syncing
  | live
  deriving DecidableEq, Repr

namespace NetworkClient

/-- The asynchronous operations, by their handler and the generation it captured. -/
inductive Request
  | resolve (generation : ℕ)
  | connect (generation : ℕ)
  | readHeader (generation : ℕ)
  | readBody (generation : ℕ)
  | write (generation : ℕ) (frame : Frame)
  deriving DecidableEq

/-- Whether an operation uses the socket, so that closing the socket fails it. -/
def Request.onSocket : Request → Bool
  | resolve _ => false
  | _ => true

/-- The tasks posted.  `cause` is the generation whose error or invalid message called `disconnect`;
a call from outside has none. -/
inductive Task
  | connect
  | disconnect (cause : Option ℕ)
  | openDocument (documentId : DocumentID)
  | processOutgoing
  deriving DecidableEq

end NetworkClient

structure NetworkClient where
  clientId : Str
  state : NetworkClientState
  generation : ℕ
  socketOpen : Bool
  writeQueue : List Frame
  io : IoContext NetworkClient.Request NetworkClient.Task
  incoming : List Message
  outgoing : List Message
  accepted : List (ℕ × Message)
  written : List (ℕ × Message)
  violations : List Str

namespace NetworkClient

def start (clientId : Str) : NetworkClient where
  clientId := clientId
  state := .disconnected
  generation := 0
  socketOpen := false
  writeQueue := []
  io := ⟨[], []⟩
  incoming := []
  outgoing := []
  accepted := []
  written := []
  violations := []

def post (c : NetworkClient) (task : Task) : NetworkClient := { c with io := c.io.post task }

def request (c : NetworkClient) (operation : Request) : NetworkClient :=
  { c with io := c.io.start operation }

/-- `disconnect()` called by a handler: only a task is posted. -/
def fail (c : NetworkClient) : NetworkClient := c.post (.disconnect (some c.generation))

def closeSocket (c : NetworkClient) : NetworkClient :=
  { c with socketOpen := false, io := c.io.cancel Request.onSocket }

/-- `start_write`, on a queue that has a front. -/
def startWrite (c : NetworkClient) : NetworkClient :=
  match c.writeQueue with
  | [] => c
  | frame :: _ => c.request (.write c.generation frame)

def startRead (c : NetworkClient) : NetworkClient := c.request (.readHeader c.generation)

/-- `send_message_impl`: a message is dropped unless the client is connected, and `frame_message`
refuses what a 32-bit length cannot describe. -/
def sendMessage (c : NetworkClient) (message : Message) :
    Except (Exn × NetworkClient) NetworkClient :=
  if c.state = .disconnected ∨ c.state = .connecting then .ok c
  else if 2 ^ 32 ≤ message.serialize.length then
    .error (.lengthError (str "Message is to large to frame"), c)
  else
    let frame : Frame := ⟨c.accepted.length, message⟩
    let queued := { c with
      writeQueue := c.writeQueue ++ [frame]
      accepted := c.accepted ++ [(c.generation, message)] }
    .ok (if c.writeQueue = [] then queued.startWrite else queued)

def sendHello (c : NetworkClient) : Except (Exn × NetworkClient) NetworkClient :=
  c.sendMessage ⟨.hello, c.clientId, .monostate⟩

/-- `connect_impl`; `opened` tells whether the socket could be opened. -/
def connectImpl (c : NetworkClient) (opened : Bool) : NetworkClient :=
  if c.state ≠ .disconnected then c
  else
    let c := if c.socketOpen then c.closeSocket else c
    if opened then
      { c with
        socketOpen := true
        state := .connecting
        generation := c.generation + 1 }.request (.resolve (c.generation + 1))
    else c

def disconnectImpl (c : NetworkClient) : NetworkClient :=
  if c.state = .disconnected then c
  else
    { { c with state := .disconnected, generation := c.generation + 1 }.closeSocket with
      writeQueue := [] }

def openDocumentImpl (c : NetworkClient) (documentId : DocumentID) :
    Except (Exn × NetworkClient) NetworkClient :=
  if c.state ≠ .registered then .ok c
  else if documentId = [] then .ok c
  else { c with state := .syncing }.sendMessage
    ⟨.openDocument, c.clientId, .openDocument documentId⟩

def processOutgoing (c : NetworkClient) : Except (Exn × NetworkClient) NetworkClient :=
  c.outgoing.foldlM sendMessage { c with outgoing := [] }

/-- Report a protocol violation and disconnect. -/
def reject (c : NetworkClient) (report : Str) : NetworkClient :=
  { c with violations := c.violations ++ [report] }.fail

/-- `handle_message`. -/
def handleMessage (c : NetworkClient) (serializedMessage : Str) : NetworkClient :=
  match Message.deserialize serializedMessage with
  | .error _ => c.fail
  | .ok message =>
    match message.type with
    | .operation =>
      if c.state ≠ .syncing ∧ c.state ≠ .live then
        c.reject (str "Unexpected OPERATION from server")
      else { c with incoming := c.incoming ++ [message] }
    | .syncResponse =>
      if c.state ≠ .syncing then c.reject (str "Unexpected SYNC_RESPONSE from server")
      else { c with incoming := c.incoming ++ [message] }
    | .hello => c.reject (str "Unexpected HELLO from server")
    | .helloAck =>
      if c.state ≠ .registering then c.reject (str "Unexpected HELLO_ACK from server")
      else { c with state := .registered }
    | .syncComplete => c.reject (str "Unexpected message from server")
    | .cursorUpdate =>
      if c.state ≠ .syncing ∧ c.state ≠ .live then
        c.reject (str "Unexpected CURSOR_UPDATE from server")
      else { c with incoming := c.incoming ++ [message] }
    | _ => c.reject (str "Unexpected message type from server")

/-- What the world tells a handler: whether the socket opened, the length in the header, the body. -/
structure Input where
  opened : Bool
  bodyLength : ℕ
  body : Str

/-- The task or the handler that runs. -/
def runTask (c : NetworkClient) (input : Input) :
    Task → Except (Exn × NetworkClient) NetworkClient
  | .connect => .ok (c.connectImpl input.opened)
  | .disconnect _ => .ok c.disconnectImpl
  | .openDocument documentId => c.openDocumentImpl documentId
  | .processOutgoing => c.processOutgoing

/-- A read or a write that fails disconnects, unless the client already is. -/
def failUnlessDisconnected (c : NetworkClient) : NetworkClient :=
  if c.state ≠ .disconnected then c.fail else c

/-- The handler of an operation that finished. -/
def complete (c : NetworkClient) (input : Input) :
    Request → Bool → Except (Exn × NetworkClient) NetworkClient
  | .resolve generation, success =>
    if generation ≠ c.generation then .ok c
    else if success then .ok (c.request (.connect generation))
    else .ok { c with state := .disconnected }
  | .connect generation, success =>
    if generation ≠ c.generation then .ok c
    else if success then do
      let c ← { c with state := .registering }.sendHello
      pure c.startRead
    else .ok { c with state := .disconnected, generation := c.generation + 1 }.closeSocket
  | .readHeader generation, success =>
    if generation ≠ c.generation then .ok c
    else if ¬ success then .ok c.failUnlessDisconnected
    else if maxMessageSize < input.bodyLength then .ok c.fail
    else .ok (c.request (.readBody generation))
  | .readBody generation, success =>
    if generation ≠ c.generation then .ok c
    else if ¬ success then .ok c.failUnlessDisconnected
    else
      let c := c.handleMessage input.body
      .ok (if c.state ≠ .disconnected then c.startRead else c)
  | .write generation frame, success =>
    if generation ≠ c.generation then .ok c
    else if ¬ success then .ok c.failUnlessDisconnected
    else
      let c := { c with
        writeQueue := c.writeQueue.tail
        written := c.written ++ [(generation, frame.message)] }
      .ok (if c.writeQueue ≠ [] ∧ c.state ≠ .disconnected then c.startWrite else c)

/-- What waits at the front of the `io_context`, run. -/
def runHandler (c : NetworkClient) (input : Input) :
    Handler Request Task → Except (Exn × NetworkClient) NetworkClient
  | .posted task => c.runTask input task
  | .completion operation success => c.complete input operation success

/-! ## Runs -/

/-- What can happen to a client: a call from another thread, a message queued or taken by the
session, an operation that finishes, a turn of the `io_context`. -/
inductive Event
  | connect
  | disconnect
  | openDocument (documentId : DocumentID)
  | notifyOutgoing
  | queue (message : Message)
  | takeIncoming
  | finish (i : ℕ) (success : Bool)
  | run (input : Input)

/-- One event.  An exception of a handler leaves the client as it was when it was thrown. -/
def step (c : NetworkClient) : Event → NetworkClient
  | .connect => c.post .connect
  | .disconnect => c.post (.disconnect none)
  | .openDocument documentId => c.post (.openDocument documentId)
  | .notifyOutgoing => c.post .processOutgoing
  | .queue message => { c with outgoing := c.outgoing ++ [message] }
  | .takeIncoming => { c with incoming := [] }
  | .finish i success => { c with io := c.io.finish i success }
  | .run input =>
    match c.io.ready.head? with
    | none => c
    | some handler => ({ c with io := c.io.take 0 }.runHandler input handler).state

end NetworkClient

end CrdtEditor
