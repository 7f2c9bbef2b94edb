import CrdtEditor.Server.Membership

/-!
# Server/Presence — whose cursors a client is sent

A cursor reaches a client by one of two ways: routed when its owner moves it, or from `presence` when
the client becomes live.  `Casts` says what one message changes of the clients, their cursors and what
they are sent; between two live clients on a document no cursor is lost (`informed_along`).

Nothing is assumed of the messages, and a connection that is read after its end is allowed for.
-/

open scoped List

namespace CrdtEditor

open Text

/-- The position that a connection was last sent for a client. -/
def ClientConnection.lastCursor (c : ClientConnection) (id : Str) : Option ElementID :=
  (c.sent.filterMap (Message.cursorOf id)).getLast?

namespace ClientConnection

variable {c c' : ClientConnection} {ms : List Message} {id : Str}

theorem lastCursor_append (h : c'.sent = c.sent ++ ms) :
    c'.lastCursor id = (ms.filterMap (Message.cursorOf id)).getLast?.or (c.lastCursor id) := by
  rw [lastCursor, h, List.filterMap_append, List.getLast?_append, lastCursor]

/-- Messages that do not name a client leave its cursor. -/
theorem lastCursor_of_none (h : c'.sent = c.sent ++ ms) (hms : ∀ m ∈ ms, m.cursorOf id = none) :
    c'.lastCursor id = c.lastCursor id := by
  rw [lastCursor_append h, List.filterMap_eq_nil_iff.2 hms]
  rfl

/-- **Messages that agree on a client give its cursor.** -/
theorem lastCursor_of_mem (h : c'.sent = c.sent ++ ms) {m : Message} {x : ElementID} (hm : m ∈ ms)
    (hx : m.cursorOf id = some x) (hms : ∀ m ∈ ms, ∀ y, m.cursorOf id = some y → y = x) :
    c'.lastCursor id = some x := by
  rw [lastCursor_append h]
  cases hlast : (ms.filterMap (Message.cursorOf id)).getLast? with
  | none =>
    have hmem : x ∈ ms.filterMap (Message.cursorOf id) := List.mem_filterMap.2 ⟨m, hm, hx⟩
    rw [List.getLast?_eq_none_iff.1 hlast] at hmem
    cases hmem
  | some y =>
    obtain ⟨m', hm', hy⟩ := List.mem_filterMap.1 (List.mem_of_getLast? hlast)
    rw [hms m' hm' y hy]
    rfl

end ClientConnection

namespace Server

variable {sha256 : Str → Vector UInt8 32} {s t u : Server} {conn : ConnId} {message : Message}

/-! ## The clients and their cursors -/

/-- **Every registered connection has its entry and its cursor.** -/
structure Seated (s : Server) : Prop extends s.Enrolled where
  presence : ∀ id, id ∈ s.presence ↔ id ∈ s.clients
  opened : ∀ conn, (s.connections conn).state = .syncing ∨ (s.connections conn).state = .live →
    ∃ d, (s.connections conn).currentDocument = some d

theorem seated_start (store : DocumentStore) : (start store).Seated where
  __ := Enrolled.start store
  presence id := Iff.rfl
  opened conn hs := by simp [start, ClientConnection.new] at hs

/-- Clients that stay where they are registered. -/
theorem Seated.rebase (h : s.Seated) (hclients : t.clients = s.clients)
    (hpresence : ∀ id, id ∈ t.presence ↔ id ∈ s.presence)
    (hconn : ∀ k, (t.connections k).clientId = (s.connections k).clientId ∧
      (t.connections k).isRegistered = (s.connections k).isRegistered ∧
      ((t.connections k).state = .syncing ∨ (t.connections k).state = .live →
        ∃ d, (t.connections k).currentDocument = some d)) : t.Seated where
  __ := h.toEnrolled.rebase hclients fun k => ⟨(hconn k).1, (hconn k).2.1⟩
  presence id := by
    rw [hpresence, hclients]
    exact h.presence id
  opened k := (hconn k).2.2

/-- **Disconnecting** takes the client out of the maps and leaves the others theirs. -/
theorem Seated.disconnect (h : s.Seated) (conn : ConnId) : (s.disconnect conn).Seated where
  __ := h.toEnrolled.disconnect conn
  presence id := by
    obtain ⟨hclients, -, hpresence⟩ := h.toEnrolled.mem_disconnect conn id
    rw [hpresence, hclients, h.presence]
  opened k hs := by
    rw [connections_disconnect] at hs ⊢
    split at hs
    case isTrue => simp at hs
    case isFalse he =>
      rw [if_neg he]
      exact h.opened k hs

/-! ## What is sent -/

/-- **What sending leaves**: `t` is `s` after messages that are `allowed` on their connections. -/
structure Spreads (allowed : ConnId → Message → Prop) (s t : Server) : Prop where
  clients : t.clients = s.clients
  presence : t.presence = s.presence
  connections : ∀ k, ∃ ms, t.connections k =
      { s.connections k with sent := (s.connections k).sent ++ ms } ∧ ∀ m ∈ ms, allowed k m

variable {allowed : ConnId → Message → Prop}

theorem Spreads.of_eq (hclients : t.clients = s.clients) (hpresence : t.presence = s.presence)
    (hconn : t.connections = s.connections) : Spreads allowed s t :=
  ⟨hclients, hpresence, fun _ => ⟨[], by rw [hconn, List.append_nil], by simp⟩⟩

theorem spreads_refl (s : Server) : Spreads allowed s s := .of_eq rfl rfl rfl

theorem Spreads.trans (h : Spreads allowed s t) (h' : Spreads allowed t u) : Spreads allowed s u where
  clients := h'.clients.trans h.clients
  presence := h'.presence.trans h.presence
  connections k := by
    obtain ⟨ms, hms, hall⟩ := h.connections k
    obtain ⟨ms', hms', hall'⟩ := h'.connections k
    refine ⟨ms ++ ms', by rw [hms', hms, List.append_assoc], fun m hm => ?_⟩
    exact (List.mem_append.1 hm).elim (hall m) (hall' m)

theorem Spreads.seated (h : Spreads allowed s t) (hs : s.Seated) : t.Seated := by
  refine hs.rebase h.clients (fun _ => by rw [h.presence]) fun k => ?_
  obtain ⟨ms, hms, -⟩ := h.connections k
  rw [hms]
  exact ⟨rfl, rfl, hs.opened k⟩

theorem Spreads.mono {allowed' : ConnId → Message → Prop} (h : Spreads allowed s t)
    (hallowed : ∀ k m, allowed k m → allowed' k m) : Spreads allowed' s t where
  clients := h.clients
  presence := h.presence
  connections k := by
    obtain ⟨ms, hms, hall⟩ := h.connections k
    exact ⟨ms, hms, fun m hm => hallowed k m (hall m hm)⟩

/-- A connection that may not be written to is left alone. -/
theorem Spreads.untouched (h : Spreads allowed s t) {k : ConnId} (hk : ∀ m, ¬ allowed k m) :
    t.connections k = s.connections k := by
  obtain ⟨ms, hms, hall⟩ := h.connections k
  obtain rfl : ms = [] := List.eq_nil_iff_forall_not_mem.2 fun m hm => hk m (hall m hm)
  rw [hms, List.append_nil]

/-- The phases, the ids and the documents stay. -/
theorem Spreads.state (h : Spreads allowed s t) (k : ConnId) :
    (t.connections k).state = (s.connections k).state ∧
      (t.connections k).clientId = (s.connections k).clientId ∧
      (t.connections k).currentDocument = (s.connections k).currentDocument := by
  obtain ⟨ms, hms, -⟩ := h.connections k
  rw [hms]
  exact ⟨rfl, rfl, rfl⟩

/-- A connection was sent the message. -/
def Reached (s t : Server) (k : ConnId) (m : Message) : Prop :=
  ∃ ms, (t.connections k).sent = (s.connections k).sent ++ ms ∧ m ∈ ms

theorem Reached.spreads {k : ConnId} {m : Message} (h : Reached s t k m) (h' : Spreads allowed t u) :
    Reached s u k m := by
  obtain ⟨ms, hms, hm⟩ := h
  obtain ⟨ms', hms', -⟩ := h'.connections k
  exact ⟨ms ++ ms', by rw [hms', hms, List.append_assoc], List.mem_append_left _ hm⟩

/-- **One message** reaches a registered connection. -/
theorem Spreads.send (h : Spreads allowed s t) {k : ConnId} {m : Message} (hm : allowed k m) :
    (t.send k m).Ends
      (fun u => Spreads allowed s u ∧ Spreads allowed t u ∧
        ((t.connections k).isRegistered → Reached s u k m)) (Spreads allowed s) := by
  refine ends_send (fun hr => ?_) (fun hr => ⟨h, spreads_refl t, fun hno => absurd hno hr⟩)
    fun _ => h
  have hone : Spreads allowed t (t.setConnection k
      { t.connections k with sent := (t.connections k).sent ++ [m] }) := by
    refine ⟨rfl, rfl, fun k' => ?_⟩
    rw [connections_setConnection]
    split
    case isTrue he =>
      subst he
      exact ⟨[m], rfl, fun m' hm' => List.mem_singleton.1 hm' ▸ hm⟩
    case isFalse => exact ⟨[], by rw [List.append_nil], by simp⟩
  refine ⟨h.trans hone, hone, fun _ => ?_⟩
  obtain ⟨ms, hms, -⟩ := h.connections k
  refine ⟨ms ++ [m], ?_, by simp⟩
  rw [connections_setConnection_self, hms, List.append_assoc]

/-- **A loop that sends**, where `due` tells what an entry is to be sent. -/
theorem Spreads.foldlM {β : Type} {f : Server → β → Except (Exn × Server) Server} {l : List β}
    (due : β → ConnId → Message → Prop) (h : Spreads allowed s t)
    (hf : ∀ b ∈ l, ∀ v, Spreads allowed t v → (f v b).Ends
      (fun w => Spreads allowed v w ∧ ∀ k m, due b k m → Reached t w k m) (Spreads allowed t)) :
    (l.foldlM f t).Ends
      (fun u => Spreads allowed s u ∧ ∀ b ∈ l, ∀ k m, due b k m → Reached t u k m)
      (Spreads allowed s) := by
  refine (Except.ends_foldlM (Q := Spreads allowed t)
    (I := fun l' v => l' ⊆ l ∧ Spreads allowed t v ∧
      ∀ b ∈ l, b ∈ l' ∨ ∀ k m, due b k m → Reached t v k m)
    (fun b l' v ⟨hsub, hv, hdone⟩ => ?_)
    ⟨fun _ hb => hb, spreads_refl t, fun _ hb => Or.inl hb⟩).imp
      (fun u hu => ⟨h.trans hu.2.1, fun b hb => (hu.2.2 b hb).resolve_left List.not_mem_nil⟩)
      fun u hu => h.trans hu
  refine (hf b (hsub List.mem_cons_self) v hv).imp (fun w ⟨hw, hreached⟩ => ?_) fun _ hw => hw
  refine ⟨fun _ hb' => hsub (List.mem_cons_of_mem _ hb'), hv.trans hw, fun b' hb' => ?_⟩
  rcases hdone b' hb' with hin | hin
  · rcases List.mem_cons.1 hin with rfl | hin
    · exact Or.inr hreached
    · exact Or.inl hin
  · exact Or.inr fun k m hm => (hin k m hm).spreads hw

/-! ## One message -/

/-- What a message brings to other connections: itself, from a live client to those live on its
document. -/
def Relayed (s : Server) (conn : ConnId) (message : Message) (k : ConnId) (m : Message) : Prop :=
  m = message ∧ (message.type = .operation ∨ message.type = .cursorUpdate) ∧
    (s.connections conn).state = .live ∧ s.Live conn k

/-- What a message brings to its sender: an answer of the server, or the cursor of a live client on the
same document. -/
def Returned (s : Server) (c : ClientConnection) (m : Message) : Prop :=
  m.sender = str "server" ∧ m.type ≠ .cursorUpdate ∨
    ∃ id position, s.Neighbour c id ∧ AList.lookup id s.presence = some position ∧
      m = ⟨.cursorUpdate, id, .cursorUpdate position⟩

/-- **What one message changes** of the clients, their cursors and what they are sent, with `own` about
its sender. -/
structure Casts (s : Server) (conn : ConnId) (message : Message) (own : Server → Prop) (t : Server) :
    Prop where
  seated : t.Seated
  presence : ∀ k, k ≠ conn → (s.connections k).isRegistered →
    AList.lookup (s.connections k).clientId t.presence =
      AList.lookup (s.connections k).clientId s.presence
  others : ∀ k, k ≠ conn → ∃ ms, t.connections k =
      { s.connections k with sent := (s.connections k).sent ++ ms } ∧
    ∀ m ∈ ms, s.Relayed conn message k m
  returned : ∃ ms, (t.connections conn).sent = (s.connections conn).sent ++ ms ∧
    ∀ m ∈ ms, s.Returned (s.connections conn) m
  document : (s.connections conn).currentDocument ≠ none →
    (t.connections conn).currentDocument ≠ none
  own : own t

/-- A sender that stays live was not written to; what it moved, its peers were told. -/
structure Stays (s : Server) (conn : ConnId) (message : Message) (t : Server) : Prop where
  live : (s.connections conn).state = .live
  stays : (t.connections conn).state = .live
  clientId : (t.connections conn).clientId = (s.connections conn).clientId
  document : (t.connections conn).currentDocument = (s.connections conn).currentDocument
  sent : (t.connections conn).sent = (s.connections conn).sent
  moved : (message.type ≠ .cursorUpdate ∧ AList.lookup (s.connections conn).clientId t.presence =
      AList.lookup (s.connections conn).clientId s.presence) ∨
    ∃ position, message.type = .cursorUpdate ∧ message.payload = .cursorUpdate position ∧
      AList.lookup (s.connections conn).clientId t.presence = some position ∧
      ∀ k, k ≠ conn → s.Live conn k → Reached s t k message

/-- A sender that becomes live is sent the cursors of its peers. -/
structure Joins (s : Server) (conn : ConnId) (t : Server) : Prop where
  syncing : (s.connections conn).state = .syncing
  live : (t.connections conn).state = .live
  clientId : (t.connections conn).clientId = (s.connections conn).clientId
  document : (t.connections conn).currentDocument = (s.connections conn).currentDocument
  reached : ∀ id position, s.Neighbour (s.connections conn) id →
    AList.lookup id s.presence = some position →
    Reached s t conn ⟨.cursorUpdate, id, .cursorUpdate position⟩

/-- Where the sender of a message is. -/
inductive Own (s : Server) (conn : ConnId) (message : Message) (t : Server) : Prop
  | away (live : (t.connections conn).state ≠ .live)
    (syncing : (t.connections conn).state = .syncing →
      (s.connections conn).state = .syncing ∨ (s.connections conn).currentDocument = none)
  | stays (h : s.Stays conn message t)
  | joins (h : s.Joins conn t)

/-- What a handler that returns changes. -/
abbrev Cast (s : Server) (conn : ConnId) (message : Message) (t : Server) : Prop :=
  s.Casts conn message (s.Own conn message) t

/-- What a handler that throws leaves. -/
abbrev Torn (s : Server) (conn : ConnId) (message : Message) (t : Server) : Prop :=
  s.Casts conn message (fun _ => True) t

variable {own own' : Server → Prop}

theorem Casts.imp (h : s.Casts conn message own t) (hown : own t → own' t) :
    s.Casts conn message own' t :=
  { h with own := hown h.own }

/-- A handler that changed nothing of this. -/
theorem Seated.casts (h : s.Seated) (hclients : t.clients = s.clients)
    (hpresence : t.presence = s.presence) (hconn : t.connections = s.connections) (hown : own t) :
    s.Casts conn message own t where
  seated := h.rebase hclients (fun _ => by rw [hpresence]) fun k => by
    rw [hconn]
    exact ⟨rfl, rfl, h.opened k⟩
  presence _ _ _ := by rw [hpresence]
  others k _ := ⟨[], by rw [hconn, List.append_nil], by simp⟩
  returned := ⟨[], by rw [hconn, List.append_nil], by simp⟩
  document hd := by rwa [hconn]
  own := hown

theorem Seated.torn (h : s.Seated) (conn : ConnId) (message : Message) : s.Torn conn message s :=
  h.casts rfl rfl rfl trivial

/-- **The sender is disconnected.** -/
theorem Casts.disconnect (h : s.Casts conn message own t) :
    s.Cast conn message (t.disconnect conn) := by
  have hconn := connections_disconnect t conn
  have hself : (t.disconnect conn).connections conn =
      { t.connections conn with state := .disconnected } := by rw [hconn, if_pos rfl]
  refine
    { seated := h.seated.disconnect conn
      presence := fun k hk hr => ?_
      others := fun k hk => ?_
      returned := by rw [hself]; exact h.returned
      document := fun hd => by rw [hself]; exact h.document hd
      own := .away (by rw [hself]; simp) fun hno => by rw [hself] at hno; simp at hno }
  · obtain ⟨ms, hms, -⟩ := h.others k hk
    rw [← h.presence k hk hr]
    have hr' : (t.connections k).isRegistered := by rwa [hms]
    have := (h.seated.toEnrolled.lookup_disconnect conn hk hr').2
    rwa [show (t.connections k).clientId = (s.connections k).clientId by rw [hms]] at this
  · rw [hconn, if_neg hk]
    exact h.others k hk

theorem Seated.reject (h : s.Seated) (conn : ConnId) (message : Message) (report : Str) :
    s.Cast conn message (s.reject conn report) :=
  (h.casts (t := { s with violations := s.violations ++ [report] }) rfl rfl rfl trivial :
    s.Torn conn message _).disconnect

/-- **A client that registers** is seated at the root. -/
theorem Seated.register (h : s.Seated) (hr : ¬ (s.connections conn).isRegistered)
    {c : ClientConnection} (hc : c.state = .registered) (hne : c.clientId ≠ [])
    (hfree : c.clientId ∉ s.clients) (hclients : t.clients = AList.insert c.clientId conn s.clients)
    (hpresence : t.presence = AList.insert c.clientId rootId s.presence)
    (hconn : ∀ k, t.connections k = if k = conn then c else s.connections k) :
    t.Seated ∧ ∀ k, (s.connections k).isRegistered →
      AList.lookup (s.connections k).clientId t.presence =
        AList.lookup (s.connections k).clientId s.presence := by
  refine ⟨?_, fun k hk => ?_⟩
  · refine
      { h.toEnrolled.register hr (isRegistered_of_registered hc) hne hfree hclients hconn with
        presence := fun id => by
          rw [hpresence, hclients, AList.mem_insert, AList.mem_insert, h.presence]
        opened := fun k hs => ?_ }
    rw [hconn] at hs ⊢
    split at hs
    case isTrue => simp [hc] at hs
    case isFalse he =>
      rw [if_neg he]
      exact h.opened k hs
  · rw [hpresence, UMap.lookup_insert, if_neg (h.toEnrolled.clientId_ne_of_notMem hfree hk)]

/-- **`HELLO`.** -/
theorem Seated.registerClient (h : s.Seated) (hr : ¬ (s.connections conn).isRegistered)
    (message : Message) :
    (s.registerClient conn message.sender).Ends (s.Cast conn message) (s.Torn conn message) := by
  have htorn := h.torn conn message
  rw [Server.registerClient]
  refine Except.ends_ite (fun _ => htorn) fun hne => ?_
  refine Except.ends_ite (fun _ => htorn) fun hfree => ?_
  have hpresence : message.sender ∉ s.presence := fun hm => hfree ((h.presence _).1 hm)
  rw [UMap.emplace_of_notMem hpresence]
  set c : ClientConnection :=
    { s.connections conn with clientId := message.sender, state := .registered } with hc
  set u : Server := { s with
    clients := AList.insert message.sender conn s.clients
    pendingSyncOperations := UMap.emplace s.pendingSyncOperations message.sender []
    presence := AList.insert message.sender rootId s.presence } with hu
  refine ends_send (fun _ => ?_) (fun hno => absurd ?_ hno) fun hlen => absurd hlen (by decide)
  · rw [setConnection_setConnection, connections_setConnection_self]
    set c' : ClientConnection := { c with
      sent := c.sent ++ [⟨.helloAck, str "server", .monostate⟩] } with hc'
    obtain ⟨hseated, hothers⟩ := h.register (t := u.setConnection conn c') (c := c') hr rfl hne hfree
      rfl rfl fun k => connections_setConnection _ _ k c'
    refine
      { seated := hseated
        presence := fun k _ hk => hothers k hk
        others := fun k hk => ⟨[], ?_, by simp⟩
        returned := ⟨_, by rw [connections_setConnection_self],
          fun m hm => Or.inl (List.mem_singleton.1 hm ▸ ⟨rfl, by simp⟩)⟩
        document := fun hd => by rw [connections_setConnection_self]; exact hd
        own := .away (by rw [connections_setConnection_self]; simp [hc', hc]) fun hno => by
          rw [connections_setConnection_self] at hno
          simp [hc', hc] at hno }
    rw [connections_setConnection, if_neg hk, List.append_nil]
  · rw [connections_setConnection_self]
    simp [ClientConnection.isRegistered]

/-- The messages a handler sends. -/
def Addressed (s : Server) (conn : ConnId) (message : Message) (k : ConnId) (m : Message) : Prop :=
  if k = conn then s.Returned (s.connections conn) m else s.Relayed conn message k m

/-- The messages a handler routes. -/
def Routed (s : Server) (conn : ConnId) (message : Message) (k : ConnId) (m : Message) : Prop :=
  k ≠ conn ∧ s.Relayed conn message k m

theorem Routed.addressed {k : ConnId} {m : Message} (h : s.Routed conn message k m) :
    s.Addressed conn message k m := by
  rw [Addressed, if_neg h.1]
  exact h.2

/-- **Sending on.** -/
theorem Casts.spreads (h : s.Casts conn message own t)
    (hp : Spreads (s.Addressed conn message) t u) (hown : own' u) : s.Casts conn message own' u where
  seated := hp.seated h.seated
  presence k hk hr := by
    rw [hp.presence]
    exact h.presence k hk hr
  others k hk := by
    obtain ⟨ms, hms, hall⟩ := h.others k hk
    obtain ⟨ms', hms', hall'⟩ := hp.connections k
    refine ⟨ms ++ ms', by rw [hms', hms, List.append_assoc], fun m hm => ?_⟩
    rcases List.mem_append.1 hm with hm | hm
    · exact hall m hm
    · have := hall' m hm
      rwa [Addressed, if_neg hk] at this
  returned := by
    obtain ⟨ms, hms, hall⟩ := h.returned
    obtain ⟨ms', hms', hall'⟩ := hp.connections conn
    refine ⟨ms ++ ms', by rw [hms', hms, List.append_assoc], fun m hm => ?_⟩
    rcases List.mem_append.1 hm with hm | hm
    · exact hall m hm
    · have := hall' m hm
      rwa [Addressed, if_pos rfl] at this
  document hd := by
    rw [(hp.state conn).2.2]
    exact h.document hd
  own := hown

/-- A connection that stays as registered as it was, written to or not. -/
theorem Casts.setConnection (h : s.Casts conn message own t) {c : ClientConnection}
    (hid : c.clientId = (t.connections conn).clientId)
    (hreg : c.isRegistered = (t.connections conn).isRegistered)
    (hopened : c.state = .syncing ∨ c.state = .live → ∃ d, c.currentDocument = some d)
    (hsent : ∃ ms, c.sent = (t.connections conn).sent ++ ms ∧
      ∀ m ∈ ms, s.Returned (s.connections conn) m)
    (hdocument : (t.connections conn).currentDocument ≠ none → c.currentDocument ≠ none)
    (hown : own' (t.setConnection conn c)) : s.Casts conn message own' (t.setConnection conn c) := by
  have hconn := fun k => connections_setConnection t conn k c
  refine
    { seated := ?_
      presence := h.presence
      others := fun k hk => ?_
      returned := ?_
      document := fun hd => ?_
      own := hown }
  · refine h.seated.rebase rfl (fun _ => Iff.rfl) fun k => ?_
    rw [hconn]
    split
    case isTrue he => exact he ▸ ⟨hid, hreg, hopened⟩
    case isFalse => exact ⟨rfl, rfl, h.seated.opened k⟩
  · rw [hconn, if_neg hk]
    exact h.others k hk
  · rw [hconn, if_pos rfl]
    obtain ⟨ms, hms, hall⟩ := h.returned
    obtain ⟨ms', hms', hall'⟩ := hsent
    refine ⟨ms ++ ms', by rw [hms', hms, List.append_assoc], fun m hm => ?_⟩
    exact (List.mem_append.1 hm).elim (hall m) (hall' m)
  · rw [hconn, if_pos rfl]
    exact hdocument (h.document hd)

/-- **`OPEN_DOCUMENT`.** -/
theorem Seated.openDocumentWith (h : s.Seated) (faults : Faults) (order : RowOrder Str)
    (message : Message) (hd : (s.connections conn).currentDocument = none) (d : DocumentID) :
    (s.openDocumentWith faults order conn d).Ends (s.Cast conn message) (s.Torn conn message) := by
  have htorn := h.torn conn message
  rw [Server.openDocumentWith]
  refine Except.ends_ite (fun _ => htorn) fun _ => ?_
  refine Except.ends_ite (fun _ => htorn) fun hr => ?_
  have hstored : ∀ store, s.Torn conn message { s with store := store } := fun store =>
    h.casts rfl rfl rfl trivial
  have hbody : ∀ store, Except.Ends (s.Cast conn message) (s.Torn conn message) (do
      let s := { s with store := store }
      let p ← Except.leaving s (s.store.getDocument d)
      Except.leaving s (SQLiteDatabase.checkGetOperations faults)
      let history ← Except.leaving s (p.getHistory s.store.database order)
      let s := s.setConnection conn
        { s.connections conn with currentDocument := some d, state := .syncing }
      s.send conn ⟨.syncResponse, str "server", .history history⟩) := by
    intro store
    refine Except.ends_leaving_bind (fun p _ => ?_) (hstored store)
    refine Except.ends_leaving_bind (fun _ _ => ?_) (hstored store)
    refine Except.ends_leaving_bind (fun history _ => ?_) (hstored store)
    -- the client is synchronizing, whatever was written to it
    have hsyncing : ∀ sent (own : Server → Prop), (∃ ms, sent = (s.connections conn).sent ++ ms ∧
        ∀ m ∈ ms, s.Returned (s.connections conn) m) →
        own (({ s with store := store } : Server).setConnection conn
          { s.connections conn with
            currentDocument := some d, state := .syncing, sent := sent }) →
        s.Casts conn message own (({ s with store := store } : Server).setConnection conn
          { s.connections conn with
            currentDocument := some d, state := .syncing, sent := sent }) :=
      fun sent own hsent hown => (hstored store).setConnection rfl
        ((isRegistered_of_syncing rfl).trans (not_not.1 hr).symm) (fun _ => ⟨d, rfl⟩) hsent
        (fun _ => by simp) hown
    refine ends_send (fun _ => ?_) (fun hno => absurd ?_ hno) fun _ => ?_
    · rw [setConnection_setConnection, connections_setConnection_self]
      refine hsyncing _ _ ⟨_, rfl, fun m hm => ?_⟩ ?_
      · obtain rfl := List.mem_singleton.1 hm
        exact Or.inl ⟨rfl, by simp⟩
      · refine .away ?_ fun _ => Or.inr hd
        rw [connections_setConnection_self]
        simp
    · rw [connections_setConnection_self]
      exact isRegistered_of_syncing rfl
    · exact hsyncing _ _ ⟨[], (List.append_nil _).symm, by simp⟩ trivial
  by_cases hexists : s.store.contains d = true
  · simp only [hexists, if_true, pure_bind]
    exact hbody s.store
  · simp only [hexists, Bool.false_eq_true, if_false]
    exact Except.ends_leaving_bind (fun store _ => hbody store) htorn

/-- **`CURSOR_UPDATE`**: every peer that is live is sent it. -/
theorem Seated.routeCursorUpdate (h : s.Seated) (hl : (s.connections conn).state = .live)
    (hm : message.type = .cursorUpdate) :
    (s.routeCursorUpdate conn message).Ends (s.Cast conn message) (s.Torn conn message) := by
  have htorn := h.torn conn message
  rw [Server.routeCursorUpdate]
  refine Except.ends_leaving_bind (fun d hd => ?_) htorn
  refine Except.ends_leaving_bind (fun position hp => ?_) htorn
  refine Except.ends_ite (fun _ => htorn) fun hmem => ?_
  have hd := ClientConnection.getCurrentDocument_eq_ok.1 hd
  have hp : message.payload = .cursorUpdate position := by
    cases hpayload : message.payload <;> rw [hpayload] at hp <;> cases hp
    rfl
  set t : Server :=
    { s with presence := AList.insert (s.connections conn).clientId position s.presence } with ht
  have hmoved : s.Torn conn message t :=
    { htorn with
      seated := h.rebase rfl (fun id => (AList.mem_insert _).trans ⟨fun hor =>
        hor.elim (fun he => he ▸ not_not.1 hmem) fun hid => hid, Or.inr⟩) fun k =>
          ⟨rfl, rfl, h.opened k⟩
      presence := fun k hk hr => (UMap.lookup_insert _ _ _ _).trans
        (if_neg (h.toEnrolled.clientId_ne hr (isRegistered_of_live hl) hk)) }
  refine (Spreads.foldlM (fun e k m => k = e.2 ∧ m = message ∧ k ≠ conn ∧ s.Live conn k)
    (spreads_refl t : Spreads (s.Routed conn message) t t) fun e he v hv => ?_).imp (fun u hend => ?_)
      fun u hu => hmoved.spreads (hu.mono fun _ _ => Routed.addressed) trivial
  · have hstate := hv.state e.2
    refine Except.ends_ite (fun hpeer => ?_) fun hno => ⟨spreads_refl v, ?_⟩
    · have hpeerLive : (v.connections e.2).state = .live := by
        simpa [ClientConnection.isLive] using hpeer.2
      have hallowed : s.Routed conn message e.2 message :=
        ⟨hpeer.1.1, rfl, Or.inr hm, hl, hstate.1 ▸ hpeerLive,
          (hstate.2.2 ▸ hpeer.1.2).trans hd.symm⟩
      refine ((spreads_refl v).send hallowed).imp (fun w hw => ⟨hw.1, ?_⟩) fun w hw => hv.trans hw
      rintro k m ⟨rfl, rfl, -, -⟩
      obtain ⟨ms, hms, hmem⟩ := hw.2.2 (isRegistered_of_live hpeerLive)
      obtain ⟨ms', hms', -⟩ := hv.connections e.2
      exact ⟨ms' ++ ms, by rw [hms, hms', List.append_assoc], List.mem_append_right _ hmem⟩
    · rintro k m ⟨rfl, -, hne, hkl⟩
      refine absurd ⟨⟨hne, ?_⟩, ?_⟩ hno
      · rw [hstate.2.2]
        exact hkl.2.trans hd
      · rw [ClientConnection.isLive, hstate.1]
        exact decide_eq_true hkl.1
  · obtain ⟨hu, hreached⟩ := hend
    have hself : u.connections conn = s.connections conn := hu.untouched fun m hno => hno.1 rfl
    refine hmoved.spreads (hu.mono fun _ _ => Routed.addressed) (.stays
      { live := hl
        stays := by rw [hself]; exact hl
        clientId := by rw [hself]
        document := by rw [hself]
        sent := by rw [hself]
        moved := Or.inr ⟨position, hm, hp, ?_, fun k hk hkl => ?_⟩ })
    · rw [hu.presence]
      exact (UMap.lookup_insert _ _ _ _).trans (if_pos rfl)
    · have hentry := h.client k (isRegistered_of_live hkl.1)
      exact hreached ⟨_, k⟩ (UMap.mem_entries.2 hentry) k message ⟨rfl, rfl, hk, hkl⟩

/-- **`OPERATION`.** -/
theorem Seated.applyAndRouteWith (h : s.Seated) (faults : Faults)
    (hl : (s.connections conn).state = .live) (hm : message.type = .operation) :
    (s.applyAndRouteWith sha256 faults conn message).Ends (s.Cast conn message)
      (s.Torn conn message) := by
  have htorn := h.torn conn message
  rw [Server.applyAndRouteWith]
  refine Except.ends_leaving_bind (fun operation _ => ?_) htorn
  refine Except.ends_leaving_bind (fun d hd => ?_) htorn
  have hd := ClientConnection.getCurrentDocument_eq_ok.1 hd
  cases s.store.applyOperationWith sha256 faults d operation with
  | error e => exact h.casts rfl rfl rfl trivial
  | ok store =>
    dsimp only
    set t : Server := ({ s with store := store } : Server).setConnection conn
      { s.connections conn with
        submitted := (s.connections conn).submitted ++ [operation] } with ht
    have hstored : s.Torn conn message { s with store := store } := h.casts rfl rfl rfl trivial
    have hsubmitted : s.Torn conn message t :=
      hstored.setConnection rfl rfl (h.opened conn) ⟨[], (List.append_nil _).symm, by simp⟩
        (fun hd => hd) trivial
    have hself : t.connections conn = { s.connections conn with
        submitted := (s.connections conn).submitted ++ [operation] } :=
      connections_setConnection_self _ _ _
    have hother : ∀ k, k ≠ conn → t.connections k = s.connections k := fun k hk => by
      rw [ht, connections_setConnection, if_neg hk]
    rw [Server.routeMessage]
    refine Except.ends_leaving_bind (fun d' hd' => ?_) hsubmitted
    refine Except.ends_leaving_bind (fun op _ => ?_) hsubmitted
    rw [hself, ClientConnection.getCurrentDocument_eq_ok] at hd'
    refine (Spreads.foldlM (fun _ _ _ => False)
      (spreads_refl t : Spreads (s.Routed conn message) t t) fun e he v hv => ?_).imp
        (fun u hend => ?_) fun u hu => hsubmitted.spreads (hu.mono fun _ _ => Routed.addressed) trivial
    · have hstate := hv.state e.2
      rw [routeTo]
      refine Except.ends_ite (fun hpeer => ?_) fun _ => ⟨spreads_refl v, fun _ _ hno => hno.elim⟩
      refine Except.ends_ite (fun _ => ⟨.of_eq rfl rfl rfl, fun _ _ hno => hno.elim⟩) fun _ => ?_
      refine Except.ends_ite (fun hlive => ?_) fun _ => ⟨spreads_refl v, fun _ _ hno => hno.elim⟩
      rw [hother e.2 hpeer.1] at hstate
      have hallowed : s.Routed conn message e.2 message :=
        ⟨hpeer.1, rfl, Or.inl hm, hl, hstate.1 ▸ by simpa [ClientConnection.isLive] using hlive,
          (hstate.2.2 ▸ hpeer.2).trans hd'.symm⟩
      exact ((spreads_refl v).send hallowed).imp (fun w hw => ⟨hw.1, fun _ _ hno => hno.elim⟩)
        fun w hw => hv.trans hw
    · obtain ⟨hu, -⟩ := hend
      have hconn : u.connections conn = t.connections conn := hu.untouched fun m hno => hno.1 rfl
      refine hsubmitted.spreads (hu.mono fun _ _ => Routed.addressed) (.stays
        { live := hl
          stays := by rw [hconn, hself]; exact hl
          clientId := by rw [hconn, hself]
          document := by rw [hconn, hself]
          sent := by rw [hconn, hself]
          moved := Or.inl ⟨by simp [hm], ?_⟩ })
      rw [hu.presence]
      rfl

/-- Nothing that was sent is taken back. -/
theorem Reached.of_append {k : ConnId} {m : Message} (h : Reached t u k m)
    (hs : ∃ ms, (t.connections k).sent = (s.connections k).sent ++ ms) : Reached s u k m := by
  obtain ⟨ms, hms, hm⟩ := h
  obtain ⟨ms', hms'⟩ := hs
  exact ⟨ms' ++ ms, by rw [hms, hms', List.append_assoc], List.mem_append_right _ hm⟩

/-- **A live client is sent the cursor of every peer**, and nothing else. -/
theorem seen_sendPresence (hl : (s.connections conn).state = .live) :
    (s.sendPresence conn).Ends
      (fun t => Spreads (s.Seen conn) s t ∧ ∀ m, s.Seen conn conn m → Reached s t conn m)
      (Spreads (s.Seen conn) s) := by
  rw [Server.sendPresence]
  refine Except.ends_leaving_bind (fun d hd => ?_) (spreads_refl s)
  have hd := ClientConnection.getCurrentDocument_eq_ok.1 hd
  refine (Spreads.foldlM (fun e k m => k = conn ∧ m = ⟨.cursorUpdate, e.1, .cursorUpdate e.2⟩ ∧
      s.Neighbour (s.connections conn) e.1) (spreads_refl s) fun e he v hv => ?_).imp
    (fun t ht => ⟨ht.1, ?_⟩) fun t ht => ht
  · obtain ⟨hvstate, hvid, -⟩ := hv.state conn
    refine Except.ends_ite (fun he => ⟨spreads_refl v, ?_⟩) fun hne => ?_
    · rintro k m ⟨-, -, hno, -⟩
      exact absurd (he.trans hvid) hno
    rw [hvid] at hne
    rw [hv.clients]
    cases hother : AList.lookup e.1 s.clients with
    | none =>
      refine ⟨spreads_refl v, ?_⟩
      rintro k m ⟨-, -, -, other, hlookup, -⟩
      rw [hother] at hlookup
      cases hlookup
    | some other =>
      obtain ⟨hostate, -, hodoc⟩ := hv.state other
      refine Except.ends_ite (fun hpeer => ?_) fun hno => ⟨spreads_refl v, ?_⟩
      · have hallowed : s.Seen conn conn ⟨.cursorUpdate, e.1, .cursorUpdate e.2⟩ :=
          ⟨rfl, e.1, e.2, ⟨hne, other, hother,
            hostate ▸ by simpa [ClientConnection.isLive] using hpeer.1,
            (hodoc ▸ hpeer.2).trans hd.symm⟩, UMap.mem_entries.1 he, rfl⟩
        refine ((spreads_refl v).send hallowed).imp (fun w hw => ⟨hw.1, ?_⟩)
          fun w hw => hv.trans hw
        rintro k m ⟨rfl, rfl, -⟩
        obtain ⟨ms, hms, -⟩ := hv.connections k
        exact (hw.2.2 (isRegistered_of_live (hvstate.trans hl))).of_append ⟨ms, by rw [hms]⟩
      · rintro k m ⟨-, -, -, other', hlookup, hl, hod⟩
        obtain rfl : other = other' := Option.some.inj (hother.symm.trans hlookup)
        refine absurd ⟨?_, hodoc.trans (hod.trans hd)⟩ hno
        rw [ClientConnection.isLive, hostate]
        exact decide_eq_true hl
  · rintro m ⟨-, id, position, hneighbour, hlookup, rfl⟩
    exact ht.2 ⟨id, position⟩ (UMap.mem_entries.2 hlookup) conn _ ⟨rfl, rfl, hneighbour⟩

/-- **`SYNC_COMPLETE`**: the client is sent the cursor of every peer that is live. -/
theorem Seated.finishSync (h : s.Seated) (message : Message)
    (hs : (s.connections conn).state = .syncing) :
    (s.finishSync conn).Ends (s.Cast conn message) (s.Torn conn message) := by
  have htorn := h.torn conn message
  obtain ⟨d, hd⟩ := h.opened conn (Or.inl hs)
  rw [Server.finishSync]
  refine Except.ends_ite (fun hno => absurd hno (by simp [ClientConnection.isSyncing, hs]))
    fun _ => ?_
  refine Except.ends_ite (fun _ => htorn) fun _ => ?_
  dsimp only
  cases hpending : AList.lookup (s.connections conn).clientId s.pendingSyncOperations with
  | none =>
    exact h.casts rfl rfl rfl (.away (by simp [hs]) fun _ => Or.inl hs)
  | some ops =>
    -- the operations held back
    refine Except.Ends.bind (P := Spreads (s.Addressed conn message) s)
      ((Spreads.foldlM (fun _ _ _ => False)
        (spreads_refl s : Spreads (s.Addressed conn message) s s) fun op _ v hv => ?_).imp
          (fun t ht => ht.1) fun t ht => htorn.spreads ht trivial) fun t ht => ?_
    · have hallowed : s.Addressed conn message conn ⟨.operation, str "server", .operation op⟩ := by
        rw [Addressed, if_pos rfl]
        exact Or.inl ⟨rfl, by simp⟩
      exact ((spreads_refl v).send hallowed).imp (fun w hw => ⟨hw.1, fun _ _ hno => hno.elim⟩)
        fun w hw => hv.trans hw
    -- the client is live
    obtain ⟨hstate, hid, hdoc⟩ := ht.state conn
    rw [← hid]
    set u : Server := t.markLive conn with hu
    change (u.sendPresence conn).Ends _ _
    have herased : s.Torn conn message { t with
        pendingSyncOperations :=
          AList.erase (t.connections conn).clientId t.pendingSyncOperations } :=
      (htorn.spreads ht trivial : s.Torn conn message t).spreads (.of_eq rfl rfl rfl) trivial
    have hlive : s.Torn conn message u := by
      refine herased.setConnection rfl ?_ (fun _ => ⟨d, hdoc.trans hd⟩)
        ⟨[], (List.append_nil _).symm, by simp⟩ (fun hd => hd) trivial
      rw [isRegistered_of_live rfl, isRegistered_of_syncing (hstate.trans hs)]
    have huself : u.connections conn = { t.connections conn with state := .live } :=
      connections_setConnection_self _ _ _
    have huid : (u.connections conn).clientId = (s.connections conn).clientId := by rw [huself, hid]
    have hudoc : (u.connections conn).currentDocument = (s.connections conn).currentDocument := by
      rw [huself, hdoc]
    have hupresence : u.presence = s.presence := ht.presence
    -- its peers are who they were
    have hneighbour := h.toEnrolled.neighbour_congr (t := u) ht.clients huid hudoc fun k hk => by
      rw [hu, markLive, connections_setConnection, if_neg hk]
      exact ⟨(ht.state k).1, (ht.state k).2.2⟩
    have hseen : ∀ k m, u.Seen conn k m → s.Addressed conn message k m := by
      rintro k m ⟨rfl, id, position, hn, hlookup, rfl⟩
      rw [Addressed, if_pos rfl]
      exact Or.inr ⟨id, position, (hneighbour id).1 hn, hupresence ▸ hlookup, rfl⟩
    refine (seen_sendPresence (by rw [huself])).imp (fun w hend => ?_)
      fun w hw => hlive.spreads (hw.mono hseen) trivial
    obtain ⟨hw, hreached⟩ := hend
    obtain ⟨hwstate, hwid, hwdoc⟩ := hw.state conn
    refine hlive.spreads (hw.mono hseen) (.joins
      { syncing := hs
        live := by rw [hwstate, huself]
        clientId := hwid.trans huid
        document := hwdoc.trans hudoc
        reached := fun id position hn hlookup => ?_ })
    obtain ⟨ms, hms, -⟩ := ht.connections conn
    exact (hreached _ ⟨rfl, id, position, (hneighbour id).2 hn, hupresence.symm ▸ hlookup, rfl⟩).of_append
      ⟨ms, by rw [huself, hms]⟩

/-! ## One event -/

variable (sha256) in
/-- **Whatever arrives, on whatever connection.** -/
theorem Seated.handleWith (h : s.Seated) (faults : Faults) (order : RowOrder Str) :
    (s.handleWith sha256 faults order conn message).Ends (s.Cast conn message)
      (s.Torn conn message) := by
  have hreject := fun report => h.reject conn message report
  rw [Server.handleWith]
  cases hm : message.type with
  | hello =>
    simp only [Server.handle, hm]
    refine Except.ends_ite (fun _ => hreject _) fun hr => ?_
    exact ends_caught (h.registerClient hr message) fun t ht => ht.disconnect
  | operation =>
    dsimp only
    refine Except.ends_ite (fun _ => hreject _) fun hl => ?_
    refine Except.ends_ite (fun _ => hreject _) fun _ => ?_
    exact h.applyAndRouteWith faults (by simpa [ClientConnection.isLive] using hl) hm
  | syncComplete =>
    simp only [Server.handle, hm]
    refine Except.ends_ite (fun _ => hreject _) fun hs => ?_
    exact h.finishSync message (by simpa [ClientConnection.isSyncing] using hs)
  | cursorUpdate =>
    simp only [Server.handle, hm]
    refine Except.ends_ite (fun _ => hreject _) fun hl => ?_
    exact h.routeCursorUpdate (by simpa [ClientConnection.isLive] using hl) hm
  | openDocument =>
    dsimp only
    refine Except.ends_ite (fun _ => hreject _) fun _ => ?_
    refine Except.ends_ite (fun _ => hreject _) fun hd => ?_
    refine Except.ends_leaving_bind (fun d _ => ?_) (h.torn conn message)
    exact ends_caught (h.openDocumentWith faults order message (not_not.1 hd) d)
      fun t ht => ht.disconnect
  | helloAck | syncRequest | syncResponse =>
    simp only [Server.handle, hm]
    exact hreject _

variable (sha256) in
/-- **What one event brings about**: a message that is cast, or the end of a connection. -/
theorem Seated.stepWith (h : s.Seated) (faults : Faults) {e : Event} (he : e.Continues) :
    ∃ conn message, s.Cast conn message (s.stepWith sha256 faults e) ∧
      (∀ k body order, e = .receive k body order → k = conn) ∧
      (((s.stepWith sha256 faults e).connections conn).state = .disconnected ∧
          message.type = .hello ∨
        ∃ body order, e = .receive conn body order ∧ Message.deserialize body = .ok message) := by
  have hdrop : ∀ conn, s.Cast conn ⟨.hello, [], .monostate⟩ (s.disconnect conn) := fun conn =>
    (h.torn conn _).disconnect
  have hended : ∀ conn, ((s.disconnect conn).connections conn).state = .disconnected := fun conn => by
    rw [connections_disconnect, if_pos rfl]
  cases e with
  | restart => exact he.elim
  | disconnect conn =>
    exact ⟨conn, _, hdrop conn, fun _ _ _ hno => (by cases hno), Or.inl ⟨hended conn, rfl⟩⟩
  | receive conn body order =>
    have hconn : ∀ k body' order', Event.receive conn body order = .receive k body' order' →
        k = conn := fun _ _ _ he => by
      injection he with hk
      exact hk.symm
    rw [Server.stepWith]
    split
    case isTrue => exact ⟨conn, _, hdrop conn, hconn, Or.inl ⟨hended conn, rfl⟩⟩
    case isFalse =>
      rw [receiveMessageWith]
      cases hm : Message.deserialize body with
      | error e => exact ⟨conn, _, hdrop conn, hconn, Or.inl ⟨hended conn, rfl⟩⟩
      | ok message =>
        refine ⟨conn, message, ?_, hconn, Or.inr ⟨body, order, rfl, hm⟩⟩
        have hends : (s.handleWith sha256 faults order conn message).Ends (s.Cast conn message)
            (s.Torn conn message) := h.handleWith sha256 faults order
        revert hends
        dsimp only
        cases s.handleWith sha256 faults order conn message with
        | ok t => exact fun ht => ht
        | error e => exact fun ht => ht.disconnect

/-! ## Runs -/

/-- A live client moves its cursor under the id that it registered. -/
def Named (s : Server) : Event → Prop
  | .receive conn body _ => (s.connections conn).state = .live →
      ∀ message ∈ (Message.deserialize body).toOption, message.type = .cursorUpdate →
        message.sender = (s.connections conn).clientId
  | _ => True

instance Named.decidable (s : Server) : DecidablePred s.Named
  | .receive _ body _ =>
    inferInstanceAs (Decidable (_ → ∀ message ∈ (Message.deserialize body).toOption, _ → _))
  | .disconnect _ => .isTrue trivial
  | .restart _ _ => .isTrue trivial

/-- A client that is live moves its cursor. -/
def Moves (s : Server) (c : ConnId) (e : Event) : Prop :=
  (s.connections c).state = .live ∧ ∃ body order message, e = .receive c body order ∧
    Message.deserialize body = .ok message ∧ message.type = .cursorUpdate

/-- From here on `c'` must know the cursor of `c`: it is not live while `c` is, or `c` moves. -/
def Awaits (s : Server) (c c' : ConnId) (e : Event) : Prop :=
  (s.connections c).state = .live ∧ (s.connections c').state ≠ .live ∨ s.Moves c e

/-- **What `c'` must know of `c` it knows.** -/
def Told (s : Server) (due : ConnId → ConnId → Prop) : Prop :=
  ∀ c c', c ≠ c' → (s.connections c).state = .live → s.Live c c' → due c c' →
    ∃ position, AList.lookup (s.connections c).clientId s.presence = some position ∧
      (s.connections c').lastCursor (s.connections c).clientId = some position

/-- **Nobody is sent the cursor of a client on another document.** -/
def Confined (s t : Server) : Prop :=
  ∀ k, ∃ ms, (t.connections k).sent = (s.connections k).sent ++ ms ∧
    ∀ m ∈ ms, m.type = .cursorUpdate → ∃ c, (s.connections c).state = .live ∧
      (s.connections c).clientId = m.sender ∧
      (s.connections c).currentDocument = (s.connections k).currentDocument

/-- The invariant of a run; a client that somebody must know of opened a document. -/
structure Informed (s : Server) (due : ConnId → ConnId → Prop) : Prop where
  seated : s.Seated
  opened : ∀ c c', due c c' →
    (s.connections c).currentDocument ≠ none ∧ (s.connections c).state ≠ .syncing
  told : s.Told due

theorem Seated.opened_of_live (h : s.Seated) {c : ConnId} (hl : (s.connections c).state = .live) :
    (s.connections c).currentDocument ≠ none ∧ (s.connections c).state ≠ .syncing := by
  obtain ⟨d, hd⟩ := h.opened c (Or.inr hl)
  exact ⟨by simp [hd], by simp [hl]⟩

theorem Awaits.opened {c c' : ConnId} {e : Event} (h : s.Awaits c c' e) (hs : s.Seated) :
    (s.connections c).currentDocument ≠ none ∧ (s.connections c).state ≠ .syncing :=
  hs.opened_of_live (h.elim (fun h => h.1) fun h => h.1)

theorem Casts.opened {c : ConnId} (h : s.Cast conn message t)
    (hc : (s.connections c).currentDocument ≠ none ∧ (s.connections c).state ≠ .syncing) :
    (t.connections c).currentDocument ≠ none ∧ (t.connections c).state ≠ .syncing := by
  by_cases hne : c = conn
  · subst hne
    refine ⟨h.document hc.1, fun hs => ?_⟩
    obtain ⟨-, hsyncing⟩ | hstays | hjoins := h.own
    · exact (hsyncing hs).elim hc.2 hc.1
    · rw [hstays.stays] at hs
      cases hs
    · rw [hjoins.live] at hs
      cases hs
  · obtain ⟨ms, hms, -⟩ := h.others c hne
    rw [hms]
    exact hc

/-- What is relayed names the sender of the message. -/
theorem Relayed.cursorOf {k : ConnId} {m : Message} {id : Str} {x : ElementID}
    (h : s.Relayed conn message k m) (hm : m.cursorOf id = some x)
    (hnamed : (s.connections conn).state = .live → message.type = .cursorUpdate →
      message.sender = (s.connections conn).clientId) :
    id = (s.connections conn).clientId ∧ (s.connections conn).state = .live ∧
      message.payload = .cursorUpdate x := by
  obtain ⟨rfl, -, hl, -⟩ := h
  obtain ⟨htype, hpayload, rfl⟩ := Message.cursorOf_eq_some.1 hm
  exact ⟨hnamed hl htype, hl, hpayload⟩

/-- `c'` is aware of `c`: the last position it was sent for `c` is the one that `c` has. -/
def Aware (s : Server) (c c' : ConnId) : Prop :=
  ∃ position, AList.lookup (s.connections c).clientId s.presence = some position ∧
    (s.connections c').lastCursor (s.connections c).clientId = some position

/-- Messages about others change nothing. -/
theorem Aware.of_none {c c' : ConnId} (h : s.Aware c c')
    (hid : (t.connections c).clientId = (s.connections c).clientId)
    (hpresence : AList.lookup (s.connections c).clientId t.presence =
      AList.lookup (s.connections c).clientId s.presence) {ms : List Message}
    (hsent : (t.connections c').sent = (s.connections c').sent ++ ms)
    (hms : ∀ m ∈ ms, ∀ x, m.cursorOf (s.connections c).clientId ≠ some x) : t.Aware c c' := by
  obtain ⟨x, hx, hlast⟩ := h
  refine ⟨x, by rw [hid, hpresence, hx], ?_⟩
  rw [hid, ClientConnection.lastCursor_of_none hsent fun m hm => ?_]
  · exact hlast
  · exact Option.eq_none_iff_forall_ne_some.2 (hms m hm)

/-- Messages that agree on its position tell it. -/
theorem aware_of_mem {c c' : ConnId} {x : ElementID}
    (hid : (t.connections c).clientId = (s.connections c).clientId)
    (hpresence : AList.lookup (s.connections c).clientId t.presence = some x) {ms : List Message}
    (hsent : (t.connections c').sent = (s.connections c').sent ++ ms) {m : Message} (hm : m ∈ ms)
    (hx : m.cursorOf (s.connections c).clientId = some x)
    (hms : ∀ m ∈ ms, ∀ y, m.cursorOf (s.connections c).clientId = some y → y = x) :
    t.Aware c c' := by
  refine ⟨x, by rw [hid, hpresence], ?_⟩
  rw [hid]
  exact ClientConnection.lastCursor_of_mem hsent hm hx hms

/-- **A peer is aware of the sender**: it was and nothing moved, or it is sent the move. -/
theorem Stays.aware {c' : ConnId} (hstays : s.Stays conn message t) (h : s.Cast conn message t)
    (hne : c' ≠ conn) (hpeer : s.Live conn c')
    (hnamed : message.type = .cursorUpdate → message.sender = (s.connections conn).clientId)
    (hknown : message.type ≠ .cursorUpdate → s.Aware conn c') : t.Aware conn c' := by
  obtain ⟨ms, hms, hrelayed⟩ := h.others c' hne
  have hsent : (t.connections c').sent = (s.connections c').sent ++ ms := by rw [hms]
  obtain ⟨hquiet, hpresence⟩ | ⟨x, htype, hpayload, hpresence, hreached⟩ := hstays.moved
  · refine (hknown hquiet).of_none hstays.clientId hpresence hsent fun m hm x hx => ?_
    obtain ⟨rfl, -⟩ := hrelayed m hm
    exact hquiet (Message.cursorOf_eq_some.1 hx).1
  · obtain ⟨ms', hms', hmem⟩ := hreached c' hne hpeer
    obtain rfl : ms = ms' := List.append_cancel_left (hsent.symm.trans hms')
    refine aware_of_mem hstays.clientId hpresence hsent hmem
      (Message.cursorOf_eq_some.2 ⟨htype, hpayload, hnamed htype⟩) fun m hm y hy => ?_
    have := ((hrelayed m hm).cursorOf hy fun _ => hnamed).2.2
    rw [hpayload] at this
    exact (MessagePayload.cursorUpdate.inj this).symm

/-- **Who joins is aware of its peers.** -/
theorem Joins.aware {c : ConnId} (hjoins : s.Joins conn t) (h : s.Cast conn message t)
    (hs : s.Seated) (hne : c ≠ conn) (hl : (s.connections c).state = .live)
    (hd : (s.connections c).currentDocument = (s.connections conn).currentDocument) :
    t.Aware c conn := by
  have hregistered := isRegistered_of_live hl
  have hneighbour : s.Neighbour (s.connections conn) (s.connections c).clientId :=
    ⟨hs.toEnrolled.clientId_ne hregistered (isRegistered_of_syncing hjoins.syncing) hne,
      c, hs.client c hregistered, hl, hd⟩
  obtain ⟨x, hx⟩ := UMap.mem_iff_lookup.1
    ((hs.presence _).2 (UMap.mem_of_lookup (hs.client c hregistered)))
  obtain ⟨ms, hms, hmem⟩ := hjoins.reached _ x hneighbour hx
  obtain ⟨ms', hms', hreturned⟩ := h.returned
  obtain rfl : ms = ms' := List.append_cancel_left (hms.symm.trans hms')
  obtain ⟨ms'', hms'', -⟩ := h.others c hne
  refine aware_of_mem (by rw [hms'']) ((h.presence c hne hregistered).trans hx) hms hmem
    (Message.cursorOf_eq_some.2 ⟨rfl, rfl, rfl⟩) fun m hm y hy => ?_
  obtain ⟨htype, hpayload, hsender⟩ := Message.cursorOf_eq_some.1 hy
  obtain ⟨-, hno⟩ | ⟨id, z, -, hz, rfl⟩ := hreturned m hm
  · exact absurd htype hno
  · obtain rfl : id = _ := hsender
    rw [← MessagePayload.cursorUpdate.inj hpayload]
    exact Option.some.inj (hz.symm.trans hx)

/-- **Two bystanders** stay aware of each other. -/
theorem Aware.cast {c c' : ConnId} (haware : s.Aware c c') (h : s.Cast conn message t) (hs : s.Seated)
    (hc : c ≠ conn) (hc' : c' ≠ conn) (hl : (s.connections c).state = .live)
    (hnamed : (s.connections conn).state = .live → message.type = .cursorUpdate →
      message.sender = (s.connections conn).clientId) : t.Aware c c' := by
  have hregistered := isRegistered_of_live hl
  obtain ⟨ms, hms, -⟩ := h.others c hc
  obtain ⟨ms', hms', hrelayed⟩ := h.others c' hc'
  refine haware.of_none (by rw [hms]) (h.presence c hc hregistered) (by rw [hms'])
    fun m hm x hx => ?_
  obtain ⟨hid, hlconn, -⟩ := (hrelayed m hm).cursorOf hx hnamed
  exact hs.toEnrolled.clientId_ne hregistered (isRegistered_of_live hlconn) hc hid

/-- **A message that is cast leaves everybody told.** -/
theorem Casts.told {due : ConnId → ConnId → Prop} {e : Event} (h : s.Cast conn message t)
    (hi : s.Informed due) (hconn : ∀ k body order, e = .receive k body order → k = conn)
    (hmessage : ((t.connections conn).state = .disconnected ∧ message.type = .hello) ∨
      ∃ body order, e = .receive conn body order ∧ Message.deserialize body = .ok message)
    (hnamed : (s.connections conn).state = .live → message.type = .cursorUpdate →
      message.sender = (s.connections conn).clientId) :
    t.Told fun c c' => due c c' ∨ s.Awaits c c' e := by
  have hs := hi.seated
  intro c c' hne hl hlive hdue
  change t.Aware c c'
  by_cases hc : c = conn
  · subst hc
    obtain ⟨hno, -⟩ | hstays | hjoins := h.own
    · exact absurd hl hno
    · obtain ⟨ms, hms, -⟩ := h.others c' (Ne.symm hne)
      have hpeer : s.Live c c' := by
        rw [Live, hms, hstays.document] at hlive
        exact hlive
      refine hstays.aware h (Ne.symm hne) hpeer (hnamed hstays.live) fun hquiet => ?_
      refine hi.told c c' hne hstays.live hpeer ?_
      obtain hdue | ⟨-, hno⟩ | ⟨-, body, order, m, he, hm, htype⟩ := hdue
      · exact hdue
      · exact absurd hpeer.1 hno
      · obtain ⟨hd, -⟩ | ⟨body', order', he', hm'⟩ := hmessage
        · rw [hl] at hd
          cases hd
        · rw [he] at he'
          injection he' with _ hbody
          rw [← hbody, hm] at hm'
          exact absurd (Except.ok.inj hm' ▸ htype) hquiet
    · -- nobody knows of a client that has just become live
      obtain hdue | ⟨hno, -⟩ | ⟨hno, -⟩ := hdue
      · exact absurd hjoins.syncing (hi.opened c c' hdue).2
      all_goals
        rw [hjoins.syncing] at hno
        cases hno
  · obtain ⟨ms, hms, -⟩ := h.others c hc
    have hsl : (s.connections c).state = .live := by rwa [hms] at hl
    have hdoc : (t.connections c).currentDocument = (s.connections c).currentDocument := by rw [hms]
    have hold : (s.connections c').state = .live → due c c' := fun hl' => by
      obtain hdue | ⟨-, hno⟩ | ⟨-, body, order, m, he, -⟩ := hdue
      · exact hdue
      · exact absurd hl' hno
      · exact absurd (hconn c body order he) hc
    by_cases hc' : c' = conn
    · subst hc'
      obtain ⟨hno, -⟩ | hstays | hjoins := h.own
      · exact absurd hlive.1 hno
      · have hpeer : s.Live c c' := ⟨hstays.live, by rw [← hstays.document, ← hdoc]; exact hlive.2⟩
        refine Aware.of_none (hi.told c c' hne hsl hpeer (hold hstays.live)) (by rw [hms])
          (h.presence c hc (isRegistered_of_live hsl)) (hstays.sent.trans (List.append_nil _).symm)
          (by simp)
      · exact hjoins.aware h hs hc hsl (by rw [← hdoc, ← hjoins.document]; exact hlive.2.symm)
    · obtain ⟨ms', hms', -⟩ := h.others c' hc'
      have hpeer : s.Live c c' := by
        rw [Live, hms', hdoc] at hlive
        exact hlive
      exact Aware.cast (hi.told c c' hne hsl hpeer (hold hpeer.1)) h hs hc hc' hsl hnamed

/-- **A message that is cast reaches only clients on its document.** -/
theorem Casts.confined (h : s.Cast conn message t) (hs : s.Seated)
    (hnamed : (s.connections conn).state = .live → message.type = .cursorUpdate →
      message.sender = (s.connections conn).clientId) : s.Confined t := by
  intro k
  by_cases hk : k = conn
  · subst hk
    obtain ⟨ms, hms, hall⟩ := h.returned
    refine ⟨ms, hms, fun m hm htype => ?_⟩
    obtain ⟨-, hno⟩ | ⟨id, x, ⟨-, other, hlookup, hl, hd⟩, -, rfl⟩ := hall m hm
    · exact absurd htype hno
    · exact ⟨other, hl, (hs.registered id other hlookup).1, hd⟩
  · obtain ⟨ms, hms, hall⟩ := h.others k hk
    refine ⟨ms, by rw [hms], fun m hm htype => ?_⟩
    obtain ⟨rfl, -, hl, hlive⟩ := hall m hm
    exact ⟨conn, hl, (hnamed hl htype).symm, hlive.2.symm⟩

variable (sha256) in
/-- One event. -/
theorem Informed.step {due : ConnId → ConnId → Prop} (h : s.Informed due) (faults : Faults)
    {e : Event} (he : e.Continues) (hnamed : s.Named e) :
    (s.stepWith sha256 faults e).Informed (fun c c' => due c c' ∨ s.Awaits c c' e) ∧
      s.Confined (s.stepWith sha256 faults e) := by
  obtain ⟨conn, message, hcast, hconn, hmessage⟩ := h.seated.stepWith sha256 faults he
  have hname : (s.connections conn).state = .live → message.type = .cursorUpdate →
      message.sender = (s.connections conn).clientId := fun hl htype => by
    obtain ⟨-, hhello⟩ | ⟨body, order, rfl, hm⟩ := hmessage
    · rw [hhello] at htype
      cases htype
    · exact hnamed hl message (by rw [hm]; rfl) htype
  refine ⟨⟨hcast.seated, fun c c' hdue => hcast.opened ?_, hcast.told h hconn hmessage hname⟩,
    hcast.confined h.seated hname⟩
  exact hdue.elim (h.opened c c') fun hdue => hdue.opened h.seated

/-- **No cursor is lost, and none leaves its document**, in every run in which live clients move their
cursors under their own ids. -/
theorem informed_along (store : DocumentStore) {events : List (Faults × Event)}
    (h : Along (fun s e => s.stepWith sha256 e.1 e.2) (fun s e => e.2.Continues ∧ s.Named e.2)
      (start store) events) :
    (events.foldl (fun s e => s.stepWith sha256 e.1 e.2) (start store)).Told (fun c c' =>
      Once (fun s e => s.stepWith sha256 e.1 e.2) (fun s e => s.Awaits c c' e.2) (start store)
        events) ∧
      Along (fun s e => s.stepWith sha256 e.1 e.2)
        (fun s e => s.Confined (s.stepWith sha256 e.1 e.2)) (start store) events := by
  have hrun : ∀ (events : List (Faults × Event)) (s : Server) (due : ConnId → ConnId → Prop),
      s.Informed due → Along (fun s e => s.stepWith sha256 e.1 e.2)
        (fun s e => e.2.Continues ∧ s.Named e.2) s events →
      (events.foldl (fun s e => s.stepWith sha256 e.1 e.2) s).Told (fun c c' => due c c' ∨
        Once (fun s e => s.stepWith sha256 e.1 e.2) (fun s e => s.Awaits c c' e.2) s events) ∧
      Along (fun s e => s.stepWith sha256 e.1 e.2)
        (fun s e => s.Confined (s.stepWith sha256 e.1 e.2)) s events := by
    intro events
    induction events with
    | nil =>
      exact fun s due hs _ => ⟨fun c c' hne hl hlive hdue =>
        hs.told c c' hne hl hlive (hdue.resolve_right fun hno => hno), trivial⟩
    | cons e events ih =>
      rintro s due hs ⟨⟨hcontinues, hnamed⟩, hrest⟩
      obtain ⟨hinformed, hconfined⟩ := hs.step sha256 e.1 hcontinues hnamed
      obtain ⟨htold, halong⟩ := ih _ _ hinformed hrest
      refine ⟨fun c c' hne hl hlive hdue => htold c c' hne hl hlive ?_, hconfined, halong⟩
      exact or_assoc.2 hdue
  obtain ⟨htold, halong⟩ := hrun events (start store) (fun _ _ => False)
    ⟨seated_start store, fun _ _ hno => hno.elim, fun _ _ _ _ _ hno => hno.elim⟩ h
  exact ⟨fun c c' hne hl hlive hdue => htold c c' hne hl hlive (Or.inr hdue), halong⟩

/-- Two clients; the first one moves its cursor before the second is live, and again after it. -/
def cursorEvents : List (Faults × Event) :=
  [arrives 0 [str "HELLO", str "a", []],
   arrives 0 [str "OPEN_DOCUMENT", str "a", str "d"],
   arrives 0 [str "SYNC_COMPLETE", str "a", []],
   arrives 0 [str "CURSOR_UPDATE", str "a", str "1,a"],
   arrives 1 [str "HELLO", str "b", []],
   arrives 1 [str "OPEN_DOCUMENT", str "b", str "d"],
   arrives 1 [str "SYNC_COMPLETE", str "b", []],
   arrives 0 [str "CURSOR_UPDATE", str "a", str "2,a"]].map fun e => (fun _ => false, e)

theorem informed_along_sample :
    (cursorEvents.foldl (fun s e => s.stepWith DocumentStore.sampleDigest e.1 e.2)
        (start .empty)).Told (fun c c' =>
      Once (fun s e => s.stepWith DocumentStore.sampleDigest e.1 e.2)
        (fun s e => s.Awaits c c' e.2) (start .empty) cursorEvents) ∧
      Along (fun s e => s.stepWith DocumentStore.sampleDigest e.1 e.2)
        (fun s e => s.Confined (s.stepWith DocumentStore.sampleDigest e.1 e.2)) (start .empty)
        cursorEvents :=
  informed_along .empty (by decide +kernel)

end Server

end CrdtEditor
