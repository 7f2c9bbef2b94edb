import CrdtEditor.Server.Presence
import CrdtEditor.Session.Carets

/-!
# Server/Attribution — in whose name a client acts

Three names are in play: the id a connection registered under, the key of its cursor in `presence`, and
the sender in the text of a message.  What the server writes itself it names by the first two; a message
is passed on as it came.

`attributed_along` says what holds in every run, with arbitrary messages; `acts_for_another` is a run
in which a client moves the caret of another one, by the sender it writes and by a removal.
-/

namespace CrdtEditor.Server

open Text

variable {sha256 : Str → Vector UInt8 32} {s t : Server} {conn k : ConnId} {m : Message}

/-- An operation or a cursor. -/
def Carries (m : Message) : Prop := m.type = .operation ∨ m.type = .cursorUpdate

/-- **A message that names its origin**: the server, the client whose message is passed on, or the client
whose cursor is sent from `presence`. -/
inductive Owned (s : Server) (conn : ConnId) (k : ConnId) (m : Message) : Prop
  | server (h : m.sender = str "server")
  | sender (hne : k ≠ conn) (hlive : (s.connections conn).state = .live)
    (h : m.sender = (s.connections conn).clientId)
  | presence (hk : k = conn) (hclient : s.Neighbour (s.connections conn) m.sender)
    {position : ElementID} (hposition : AList.lookup m.sender s.presence = some position)
    (h : m = ⟨.cursorUpdate, m.sender, .cursorUpdate position⟩)

/-- **What a message makes the server do in whose name.**  Nothing is said of the sender of a message that
names another client than its own. -/
structure Attributes (s : Server) (conn : ConnId) (message : Option Message) (t : Server) : Prop where
  sent : ∀ k, ∃ ms, (t.connections k).sent = (s.connections k).sent ++ ms ∧ ∀ m ∈ ms, Carries m →
    s.Owned conn k m ∨
      k ≠ conn ∧ message = some m ∧ m.sender ≠ (s.connections conn).clientId
  others : ∀ c, c ≠ conn → (s.connections c).isRegistered →
    AList.lookup (s.connections c).clientId t.presence =
      AList.lookup (s.connections c).clientId s.presence
  cursor : ∀ m, message = some m → (s.connections conn).state = .live →
    (t.connections conn).state = .live → ∀ position, m.type = .cursorUpdate →
      m.payload = .cursorUpdate position →
      AList.lookup (s.connections conn).clientId t.presence = some position

/-- The same of an event; a restart ends the run of one server and begins another. -/
def Attributed (s : Server) : Event → Server → Prop
  | .receive conn body _, t => s.Attributes conn (Message.deserialize body).toOption t
  | .disconnect conn, t => s.Attributes conn none t
  | .restart _ _, _ => True

theorem Casts.sent {message : Message} (h : s.Cast conn message t) (k : ConnId) :
    ∃ ms, (t.connections k).sent = (s.connections k).sent ++ ms ∧ ∀ m ∈ ms, Carries m →
      s.Owned conn k m ∨ k ≠ conn ∧ m = message ∧ Carries message ∧
        m.sender ≠ (s.connections conn).clientId := by
  by_cases hk : k = conn
  · subst hk
    obtain ⟨ms, hms, hall⟩ := h.returned
    refine ⟨ms, hms, fun m hm _ => Or.inl ?_⟩
    obtain ⟨hserver, -⟩ | ⟨id, x, hclient, hx, rfl⟩ := hall m hm
    · exact .server hserver
    · exact .presence rfl hclient hx rfl
  · obtain ⟨ms, hms, hall⟩ := h.others k hk
    refine ⟨ms, by rw [hms], fun m hm _ => ?_⟩
    obtain ⟨rfl, hcarries, hlive, -⟩ := hall m hm
    by_cases hsender : m.sender = (s.connections conn).clientId
    · exact Or.inl (.sender hk hlive hsender)
    · exact Or.inr ⟨hk, rfl, hcarries, hsender⟩

/-- **A message that is cast is attributed.** -/
theorem Casts.attributes {message : Message} (h : s.Cast conn message t) :
    s.Attributes conn (some message) t where
  sent k := by
    obtain ⟨ms, hms, hall⟩ := h.sent k
    refine ⟨ms, hms, fun m hm hcarries => (hall m hm hcarries).imp (fun ho => ho) fun hr => ?_⟩
    exact ⟨hr.1, by rw [hr.2.1], hr.2.2.2⟩
  others := h.presence
  cursor m hm hlive hlive' position htype hposition := by
    obtain rfl := Option.some.inj hm
    obtain ⟨haway, -⟩ | hstays | hjoins := h.own
    · exact absurd hlive' haway
    · obtain ⟨hne, -⟩ | ⟨x, -, hx, hlookup, -⟩ := hstays.moved
      · exact absurd htype hne
      · rw [hposition] at hx
        cases hx
        exact hlookup
    · rw [hjoins.syncing] at hlive
      cases hlive

/-- The end of a connection brings nothing to anybody. -/
theorem Casts.attributes_of_hello {message : Message} (h : s.Cast conn message t)
    (htype : message.type = .hello) (hended : (t.connections conn).state = .disconnected)
    (message' : Option Message) : s.Attributes conn message' t where
  sent k := by
    obtain ⟨ms, hms, hall⟩ := h.sent k
    refine ⟨ms, hms, fun m hm hcarries => (hall m hm hcarries).imp (fun ho => ho) fun hr => ?_⟩
    obtain ⟨-, -, hno | hno, -⟩ := hr <;> rw [htype] at hno <;> cases hno
  others := h.presence
  cursor m _ _ hlive := by
    rw [hended] at hlive
    cases hlive

variable (sha256) in
/-- **One event.** -/
theorem Seated.attributed (h : s.Seated) (e : Faults × Event) :
    s.Attributed e.2 (s.stepWith sha256 e.1 e.2) ∧ (s.stepWith sha256 e.1 e.2).Seated := by
  obtain ⟨faults, e⟩ := e
  cases e with
  | restart documentOrder rowOrder =>
    refine ⟨trivial, ?_⟩
    simp only [Server.stepWith, Server.step]
    split
    · exact seated_start _
    · exact h
  | disconnect c =>
    have hdrop : s.Cast c ⟨.hello, [], .monostate⟩ (s.disconnect c) := (h.torn c _).disconnect
    refine ⟨hdrop.attributes_of_hello rfl ?_ none, hdrop.seated⟩
    rw [connections_disconnect, if_pos rfl]
  | receive c body order =>
    obtain ⟨conn, message, hcast, hconn, ⟨hended, htype⟩ | ⟨body', order', he, hm⟩⟩ :=
      h.stepWith sha256 faults (e := .receive c body order) trivial
    · obtain rfl := hconn c body order rfl
      exact ⟨hcast.attributes_of_hello htype hended _, hcast.seated⟩
    · obtain ⟨rfl, rfl, rfl⟩ := Event.receive.inj he
      refine ⟨?_, hcast.seated⟩
      change s.Attributes c (Message.deserialize body).toOption _
      rw [hm]
      exact hcast.attributes

/-- **In every run of the server each delivery names its origin**, and each client moves only its own
cursor in `presence`, whatever the clients send; and at the sessions a message changes no other entries
than `Touches` says. -/
theorem attributed_along (store : DocumentStore) (events : List (Faults × Event)) :
    Along (fun s e => s.stepWith sha256 e.1 e.2)
        (fun s e => s.Attributed e.2 (s.stepWith sha256 e.1 e.2)) (start store) events ∧
      ∀ (u : EditorSession) (m : Message),
        (u.apply m).Ends (EditorSession.Touches m u) (EditorSession.Touches m u) :=
  ⟨Along.of_step (fun _ e hs => hs.attributed sha256 e) (seated_start store),
    EditorSession.touches_apply⟩

/-- Three clients on a document; the first one typed and stands behind what it typed. -/
def threeClients : List Event :=
  [arrives 0 [str "HELLO", str "a", []],
   arrives 0 [str "OPEN_DOCUMENT", str "a", str "d"],
   arrives 0 [str "SYNC_COMPLETE", str "a", []],
   arrives 0 [str "OPERATION", str "a", str "INSERT|0,__ROOT__|1,a|65"],
   arrives 1 [str "HELLO", str "b", []],
   arrives 1 [str "OPEN_DOCUMENT", str "b", str "d"],
   arrives 1 [str "SYNC_COMPLETE", str "b", []],
   arrives 2 [str "HELLO", str "c", []],
   arrives 2 [str "OPEN_DOCUMENT", str "c", str "d"],
   arrives 2 [str "SYNC_COMPLETE", str "c", []],
   arrives 0 [str "CURSOR_UPDATE", str "a", str "1,a"]]

/-- **The second client moves the caret of the first**: with a report in its name, which `presence` does
not take over, and with a removal in its own. -/
theorem acts_for_another :
    let s := threeClients.foldl (step DocumentStore.sampleDigest) (start .empty)
    let t := s.step DocumentStore.sampleDigest
      (arrives 1 [str "CURSOR_UPDATE", str "a", str "0,__ROOT__"])
    let forged : Message := ⟨.cursorUpdate, str "a", .cursorUpdate rootId⟩
    let removal : Message := ⟨.operation, str "b", .operation (.remove ⟨⟨1, str "a"⟩⟩)⟩
    let u := (s.connections 2).sent.foldl (fun u m => (u.apply m).state)
      (EditorSession.start (str "c"))
    (s.connections 1).clientId = str "b" ∧
      (t.connections 2).sent = (s.connections 2).sent ++ [forged] ∧
      AList.lookup (str "a") t.presence = some ⟨1, str "a"⟩ ∧
      AList.lookup (str "b") t.presence = some rootId ∧
      AList.lookup (str "a") u.remoteCursors = some ⟨1, str "a"⟩ ∧
      AList.lookup (str "a") (u.apply forged).state.remoteCursors = some rootId ∧
      AList.lookup (str "a") (u.apply removal).state.remoteCursors = some rootId := by
  refine ⟨?_, ?_, ?_, ?_, ?_, ?_, ?_⟩ <;> decide +kernel

end CrdtEditor.Server
