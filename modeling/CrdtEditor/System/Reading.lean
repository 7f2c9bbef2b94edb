import CrdtEditor.Client.NetworkClient
import CrdtEditor.Persistence.Restart
import CrdtEditor.Server.State
import CrdtEditor.Wire.Framing

/-!
# System/Reading — the two loops that read frames

`ClientConnection::read_header` with what the server does to a message, and `NetworkClient::start_read`
with `handle_message`: the two endpoints of `ReadLoop`.  The first hands each body to the server, so
what it does is a run of the server: `exists_run`.  The second never ends the connection itself, it
only posts a task that will.
-/

namespace CrdtEditor

open Framing

/-! ## The connection of the server -/

namespace Server

variable (sha256 : Str → Vector UInt8 32) (orders : ℕ → RowOrder Str) (conn : ConnId)

/-- What the loop of `ClientConnection` calls, on the server and the number of messages it has handled;
`orders` are the orders in which the queries for a message may return their rows. -/
def reader : Endpoint (Server × ℕ) Unit where
  token _ := ()
  connected p := (p.1.connections conn).state ≠ .disconnected
  failed p := (p.1.disconnect conn, p.2)
  refused p := (p.1.disconnect conn, p.2)
  handle p message := (p.1.receiveMessage sha256 (orders p.2) conn message, p.2 + 1)

/-- The body that an event brings. -/
def Event.body : Event → Option Str
  | .receive _ body _ => some body
  | _ => none

variable {sha256 orders conn} {i : ReadLoop.Event (Server × ℕ)}

/-- One event of the loop is at most one of the server. -/
theorem exists_step {l : ReadLoop (Server × ℕ) Unit}
    (hle : ∀ m ∈ (l.step (reader sha256 orders conn) i).delivered, m.length ≤ maxMessageSize)
    (hi : ∀ p, i ≠ .other p) :
    ∃ events : List Event,
      (l.step (reader sha256 orders conn) i).endpoint.1
          = events.foldl (step sha256) l.endpoint.1 ∧
        (l.step (reader sha256 orders conn) i).delivered
          = l.delivered ++ events.filterMap Event.body := by
  obtain ⟨hdelivered, heq | heq | heq⟩ | ⟨m, hdelivered, heq⟩ :=
    ReadLoop.effect_step (e := reader sha256 orders conn) (l := l) hi
  · refine ⟨[], ?_, ?_⟩
    · rw [heq]
      rfl
    · rw [hdelivered, List.filterMap_nil, List.append_nil]
  · refine ⟨[.disconnect conn], ?_, ?_⟩
    · rw [heq]
      rfl
    · rw [hdelivered, List.filterMap_cons_none rfl, List.filterMap_nil, List.append_nil]
  · refine ⟨[.disconnect conn], ?_, ?_⟩
    · rw [heq]
      rfl
    · rw [hdelivered, List.filterMap_cons_none rfl, List.filterMap_nil, List.append_nil]
  · have hlength : m.length ≤ maxMessageSize :=
      hle m (hdelivered ▸ List.mem_append_right _ (List.mem_singleton_self m))
    refine ⟨[.receive conn m (orders l.endpoint.2)], ?_, hdelivered⟩
    rw [heq, List.foldl_cons, List.foldl_nil, step, if_neg hlength.not_gt]
    rfl

/-- What the loop makes of the server, whatever bytes arrive, is a run of the server that receives the
bodies the loop delivers. -/
theorem exists_run (s : Server) :
    ∀ {is : List (ReadLoop.Event (Server × ℕ))}, (∀ i ∈ is, ∀ p, i ≠ .other p) →
      ∃ events : List Event,
        (ReadLoop.run (reader sha256 orders conn) (s, 0) is).endpoint.1
            = events.foldl (step sha256) s ∧
          (ReadLoop.run (reader sha256 orders conn) (s, 0) is).delivered
            = events.filterMap Event.body := by
  intro is
  induction is using List.reverseRecOn with
  | nil => exact fun _ => ⟨[], rfl, rfl⟩
  | append_singleton is i ih =>
    intro his
    obtain ⟨events, hserver, hbodies⟩ := ih fun j hj => his j (List.mem_append_left _ hj)
    have hstep : ReadLoop.run (reader sha256 orders conn) (s, 0) (is ++ [i])
        = (ReadLoop.run (reader sha256 orders conn) (s, 0) is).step (reader sha256 orders conn) i := by
      simp only [ReadLoop.run, List.foldl_append, List.foldl_cons, List.foldl_nil]
    have hle := ReadLoop.length_le_of_mem_delivered (e := reader sha256 orders conn) (s, 0) (is ++ [i])
    rw [hstep] at hle ⊢
    obtain ⟨more, hmore, hdelivered⟩ :=
      exists_step hle (his i (List.mem_append_right _ (List.mem_singleton_self i)))
    refine ⟨events ++ more, ?_, ?_⟩
    · rw [hmore, hserver, List.foldl_append]
    · rw [hdelivered, hbodies, List.filterMap_append]

end Server

namespace NetworkClient

/-- What the loop of `NetworkClient` calls; its handlers capture the generation. -/
def reader : Endpoint NetworkClient ℕ where
  token := generation
  connected c := c.state ≠ .disconnected
  failed := failUnlessDisconnected
  refused := fail
  handle := handleMessage

/-- `handle_message` leaves the state as it was, or registers the client. -/
theorem state_handleMessage (c : NetworkClient) (body : Str) :
    (c.handleMessage body).state = c.state ∨ (c.handleMessage body).state = .registered := by
  rw [handleMessage]
  cases Message.deserialize body with
  | error e => exact .inl rfl
  | ok m =>
    dsimp only
    cases m.type with
    | helloAck =>
      dsimp only
      split_ifs
      · exact .inl rfl
      · exact .inr rfl
    | operation | syncResponse | cursorUpdate =>
      dsimp only
      split_ifs
      · exact .inl rfl
      · exact .inl rfl
    | hello | syncComplete | openDocument => exact .inl rfl
    | _ => exact .inl rfl

theorem state_handleMessage_ne {c : NetworkClient} (hc : c.state ≠ .disconnected) (body : Str) :
    (c.handleMessage body).state ≠ .disconnected := by
  obtain heq | heq := state_handleMessage c body
  · rwa [heq]
  · rw [heq]
    decide

/-- What runs between the reads of a client that stays connected: its generation stays, and so does the
connection. -/
def Lasts : ReadLoop NetworkClient ℕ → ReadLoop.Event NetworkClient → Prop :=
  ReadLoop.Calm reader fun c => c.state ≠ .disconnected

instance (l : ReadLoop NetworkClient ℕ) : DecidablePred (Lasts l) :=
  inferInstanceAs (DecidablePred (ReadLoop.Calm reader (fun c => c.state ≠ .disconnected) l))

/-- No body ends the loop: a client that refuses one only posts a task. -/
theorem undisturbed {c : NetworkClient} (hc : c.state ≠ .disconnected)
    {events : List (ReadLoop.Event NetworkClient)}
    (hlasts : Along (ReadLoop.step reader) Lasts (ReadLoop.start reader c) events) :
    Along (ReadLoop.step reader) (ReadLoop.Undisturbed reader) (ReadLoop.start reader c) events := by
  have hcalm : Along (ReadLoop.step reader) (ReadLoop.Calm reader fun c => c.state ≠ .disconnected)
      (ReadLoop.start reader c) events := hlasts
  refine ReadLoop.undisturbed_of_calm ?_ ?_ ?_ ?_ hc hcalm
  · exact fun c hc => decide_eq_true hc
  · intro c hc
    change c.failUnlessDisconnected.state ≠ .disconnected
    rwa [failUnlessDisconnected, if_pos hc]
  · exact fun c hc => hc
  · exact fun c m hc => state_handleMessage_ne hc m

end NetworkClient

/-! ## What is framed is read -/

/-- **Framing recovers the messages**, in both loops: if their frames are what arrives, in whatever pieces,
the bodies delivered are the first of the messages, whatever else happens.  They are all of the messages,
and no bytes are left over, after as many reads as it takes, at the server as long as it keeps the
connection, at the client until it runs a task or a handler that disconnects.  And whatever arrives, and
whatever else happens, no body is longer than `MAX_MESSAGE_SIZE`. -/
theorem framing_recovers :
    (∀ messages : List Str, (∀ m ∈ messages, m.length ≤ maxMessageSize) →
      ∃ frames, messages.mapM frameMessage = .ok frames ∧
        (∀ sha256 orders conn (s : Server × ℕ),
          let e := Server.reader sha256 orders conn
          ReadLoop.Recovers e (ReadLoop.Undisturbed e) s messages frames.flatten) ∧
        ∀ c : NetworkClient, c.state ≠ .disconnected →
          ReadLoop.Recovers NetworkClient.reader NetworkClient.Lasts c messages frames.flatten) ∧
    (∀ sha256 orders conn (s : Server × ℕ) events,
      ∀ body ∈ (ReadLoop.run (Server.reader sha256 orders conn) s events).delivered,
        body.length ≤ maxMessageSize) ∧
    ∀ (c : NetworkClient) events,
      ∀ body ∈ (ReadLoop.run NetworkClient.reader c events).delivered,
        body.length ≤ maxMessageSize := by
  refine ⟨fun messages hmessages => ?_, fun sha256 orders conn s events => ?_, fun c events => ?_⟩
  · refine ⟨messages.map frame, mapM_frameMessage hmessages, ?_⟩
    rw [← List.flatMap_def]
    refine ⟨fun sha256 orders conn s => ReadLoop.recovers hmessages s, fun c hc => ?_⟩
    obtain ⟨hstart, hall⟩ := ReadLoop.recovers (e := NetworkClient.reader) hmessages c
    exact ⟨hstart, fun events n harrived hn hlasts =>
      hall events n harrived hn (NetworkClient.undisturbed hc hlasts)⟩
  · exact ReadLoop.length_le_of_mem_delivered s events
  · exact ReadLoop.length_le_of_mem_delivered c events

/-- Two messages that the server takes. -/
def greetingMessages : List Str :=
  [Message.serialize ⟨.hello, str "a", .monostate⟩,
    Message.serialize ⟨.openDocument, str "a", .openDocument (str "d")⟩]

/-- The first header comes in two pieces, and something else happens in between; at the client the bodies are
refused. -/
theorem framing_recovers_pieces :
    (let e := Server.reader DocumentStore.sampleDigest (fun _ => .inserted Str) 0
      let l := ReadLoop.run e (Server.start .empty, 0) ([.arrive [0, 0],
        .other ((Server.start .empty).disconnect 1, 0),
        .arrive ((greetingMessages.flatMap frame).drop 2)] ++ List.replicate 4 ReadLoop.Event.read)
      l.delivered = greetingMessages ∧ l.stream = []) ∧
    (let c := { NetworkClient.start (str "a") with state := .live }
      let l := ReadLoop.run NetworkClient.reader c ([.arrive [0, 0], .other (c.step .notifyOutgoing),
        .arrive [0, 0, 0, 0, 0, 2, 0, 255]] ++ List.replicate 4 ReadLoop.Event.read)
      l.delivered = [[], [0, 255]] ∧ l.stream = []) := by
  constructor
  · obtain ⟨frames, hframes, hserver, -⟩ := framing_recovers.1 greetingMessages (by decide +kernel)
    obtain rfl : greetingMessages.map frame = frames :=
      Except.ok.inj ((mapM_frameMessage (by decide +kernel)).symm.trans hframes)
    exact (hserver DocumentStore.sampleDigest (fun _ => .inserted Str) 0 (Server.start .empty, 0)).2 _ 4
      (by decide +kernel) (by decide) (by decide +kernel)
  · obtain ⟨frames, hframes, -, hclient⟩ := framing_recovers.1 [[], [0, 255]] (by decide)
    obtain rfl : [[], [0, 255]].map frame = frames :=
      Except.ok.inj ((mapM_frameMessage (by decide)).symm.trans hframes)
    exact (hclient _ (by decide)).2 _ 4 (by decide +kernel) (by decide) (by decide +kernel)

/-- Two empty messages.  The server refuses the first, and `process_message` does not read on; the client
refuses it too, and the task it posts closes the socket under the next read.  Either loop has then stopped
before the second. -/
theorem framing_cut_short :
    [[], []].mapM frameMessage = .ok [[0, 0, 0, 0], [0, 0, 0, 0]] ∧
    (let e := Server.reader DocumentStore.sampleDigest (fun _ => .inserted Str) 0
      let l := ReadLoop.run e (Server.start .empty, 0)
        (.arrive [0, 0, 0, 0, 0, 0, 0, 0] :: List.replicate 4 ReadLoop.Event.read)
      l.delivered = [[]] ∧ l.stream = [0, 0, 0, 0] ∧ l.phase = .stopped) ∧
    (let c := { NetworkClient.start (str "a") with state := .registered }
      let closed := (c.handleMessage []).step (.run ⟨true, 0, []⟩)
      let l := ReadLoop.run NetworkClient.reader c
        [.arrive [0, 0, 0, 0, 0, 0, 0, 0], .read, .read, .other closed, .fail]
      l.delivered = [[]] ∧ l.stream = [0, 0, 0, 0] ∧ l.phase = .stopped) := by
  refine ⟨rfl, ?_, ?_⟩ <;> decide +kernel

end CrdtEditor
