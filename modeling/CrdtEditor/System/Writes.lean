import CrdtEditor.System.State

/-!
# System/Writes — what the handlers of a network client do to the system

Each handler is described by the state it leaves and the messages it writes (`Writes`); only
`send_message_impl` writes, and only on a connection.  `System.run` moves what was written to the link
of the client and touches nothing else (`Runs`).
-/

namespace CrdtEditor

open Text

/-- `frame_message` takes the message. -/
def Message.Framable (m : Message) : Prop := m.serialize.length < 2 ^ 32

instance : DecidablePred Message.Framable := fun m =>
  inferInstanceAs (Decidable (m.serialize.length < 2 ^ 32))

namespace NetworkClient

/-- **What a handler leaves**: its state, and the messages it wrote. -/
structure Writes (c : NetworkClient) (state : NetworkClientState) (ms : List Message)
    (c' : NetworkClient) : Prop where
  state : c'.state = state
  accepted : c'.accepted.map (·.2) = c.accepted.map (·.2) ++ ms
  clientId : c'.clientId = c.clientId
  violations : c'.violations = c.violations
  incoming : c'.incoming = c.incoming
  outgoing : c'.outgoing = c.outgoing

variable {c c' c'' : NetworkClient} {state state' : NetworkClientState} {ms ms' : List Message}

/-- A change of the socket, the queue or the operations under way. -/
theorem Writes.of_eq (hstate : c'.state = state) (haccepted : c'.accepted = c.accepted)
    (hid : c'.clientId = c.clientId) (hviolations : c'.violations = c.violations)
    (hincoming : c'.incoming = c.incoming) (houtgoing : c'.outgoing = c.outgoing) :
    Writes c state [] c' :=
  ⟨hstate, by rw [haccepted, List.append_nil], hid, hviolations, hincoming, houtgoing⟩

theorem writes_refl (c : NetworkClient) : Writes c c.state [] c := .of_eq rfl rfl rfl rfl rfl rfl

/-- One part of a handler after the other. -/
theorem Writes.trans (h : Writes c state ms c') (h' : Writes c' state' ms' c'') :
    Writes c state' (ms ++ ms') c'' where
  state := h'.state
  accepted := by rw [h'.accepted, h.accepted, List.append_assoc]
  clientId := h'.clientId.trans h.clientId
  violations := h'.violations.trans h.violations
  incoming := h'.incoming.trans h.incoming
  outgoing := h'.outgoing.trans h.outgoing

/-- Starting a write writes no message that was not queued. -/
theorem writes_startWrite (c : NetworkClient) : Writes c c.state [] c.startWrite := by
  rw [startWrite]
  split <;> exact .of_eq rfl rfl rfl rfl rfl rfl

/-- **`send_message_impl`** writes what it can frame, if there is a connection. -/
theorem writes_sendMessage (c : NetworkClient) (m : Message) :
    Writes c c.state (if c.state.Connected ∧ m.Framable then [m] else []) (c.sendMessage m).state := by
  rw [sendMessage]
  by_cases hs : c.state = .disconnected ∨ c.state = .connecting
  · rw [if_pos hs, if_neg fun h => hs.elim h.1.1 h.1.2]
    exact writes_refl c
  · have hconn : c.state.Connected := not_or.1 hs
    rw [if_neg hs]
    by_cases hlen : 2 ^ 32 ≤ m.serialize.length
    · rw [if_pos hlen, if_neg fun h => absurd h.2 (not_lt.2 hlen)]
      exact writes_refl c
    · rw [if_neg hlen, if_pos ⟨hconn, not_le.1 hlen⟩]
      have hpushed : ∀ queue accepted, accepted = c.accepted ++ [(c.generation, m)] →
          Writes c c.state [m] { c with writeQueue := queue, accepted := accepted } :=
        fun queue accepted he => ⟨rfl, by simp [he], rfl, rfl, rfl, rfl⟩
      dsimp only
      split
      · exact (hpushed _ _ rfl).trans (writes_startWrite _)
      · exact hpushed _ _ rfl

/-- **When sending throws**: there is a connection, and the message cannot be framed. -/
theorem sendMessage_cases (c : NetworkClient) (m : Message) :
    (∃ c', c.sendMessage m = .ok c') ∨
      c.state.Connected ∧ ¬ m.Framable ∧ ∃ e, c.sendMessage m = .error (e, c) := by
  rw [sendMessage]
  by_cases hs : c.state = .disconnected ∨ c.state = .connecting
  · exact Or.inl ⟨c, if_pos hs⟩
  · rw [if_neg hs]
    by_cases hlen : 2 ^ 32 ≤ m.serialize.length
    · exact Or.inr ⟨not_or.1 hs, not_lt.2 hlen, _, if_pos hlen⟩
    · exact Or.inl ⟨_, if_neg hlen⟩

/-- A loop of sends writes up to the first message that cannot be framed. -/
theorem writes_foldlM : ∀ (ms : List Message) (c : NetworkClient),
    Writes c c.state (if c.state.Connected then ms.takeWhile (·.Framable) else [])
      (ms.foldlM sendMessage c).state
  | [], c => by
      rw [List.takeWhile_nil, ite_self]
      exact writes_refl c
  | m :: ms, c => by
      have hsend := writes_sendMessage c m
      rw [List.foldlM_cons]
      obtain ⟨c', hc'⟩ | ⟨hconn, hlen, e, he⟩ := sendMessage_cases c m
      · rw [hc'] at hsend ⊢
        have hstate : c'.state = c.state := hsend.state
        have hrest := writes_foldlM ms c'
        rw [hstate] at hrest
        have htrans := hsend.trans hrest
        by_cases hconn : c.state.Connected
        · have hframable : m.Framable := by
            by_contra hlen
            have : 2 ^ 32 ≤ m.serialize.length := not_lt.1 hlen
            rw [sendMessage, if_neg (not_or.2 hconn), if_pos this] at hc'
            cases hc'
          simp only [hconn, hframable, true_and, if_true] at htrans ⊢
          rwa [List.takeWhile_cons_of_pos (by simpa using hframable)]
        · simp only [hconn, false_and, if_false] at htrans ⊢
          exact htrans
      · rw [he, if_pos hconn, List.takeWhile_cons_of_neg (by simpa using hlen)]
        exact writes_refl c

/-- **`process_outgoing`** writes what the session queued, or drops it. -/
theorem writes_processOutgoing (c : NetworkClient) :
    Writes { c with outgoing := [] } c.state
      (if c.state.Connected then c.outgoing.takeWhile (·.Framable) else [])
      c.processOutgoing.state :=
  writes_foldlM c.outgoing { c with outgoing := [] }

/-- **`send_open_document_impl`.** -/
theorem writes_openDocumentImpl (c : NetworkClient) (documentId : DocumentID) :
    Writes c (if c.state = .registered ∧ documentId ≠ [] then .syncing else c.state)
      (if c.state = .registered ∧ documentId ≠ [] ∧
          (⟨.openDocument, c.clientId, .openDocument documentId⟩ : Message).Framable
        then [⟨.openDocument, c.clientId, .openDocument documentId⟩] else [])
      (c.openDocumentImpl documentId).state := by
  rw [openDocumentImpl]
  by_cases hs : c.state = .registered
  · by_cases hd : documentId = []
    · simp only [hs, hd, ne_eq, not_true_eq_false, if_false, if_true, and_false, false_and]
      exact hs ▸ writes_refl c
    · have hsend := writes_sendMessage { c with state := .syncing }
        ⟨.openDocument, c.clientId, .openDocument documentId⟩
      have hconn : NetworkClientState.syncing.Connected := by decide
      simp only [hs, hd, ne_eq, not_true_eq_false, not_false_eq_true, if_false, if_true, true_and,
        hconn] at hsend ⊢
      exact ⟨hsend.state, hsend.accepted, hsend.clientId, hsend.violations, hsend.incoming,
        hsend.outgoing⟩
  · simp only [hs, ne_eq, not_false_eq_true, if_true, false_and, if_false]
    exact writes_refl c

/-- `connect_impl`, which does nothing unless the client is disconnected. -/
theorem writes_connectImpl (c : NetworkClient) (opened : Bool) :
    Writes c (if c.state = .disconnected ∧ opened then .connecting else c.state) []
      (c.connectImpl opened) := by
  rw [connectImpl]
  by_cases hs : c.state = .disconnected
  · rw [if_neg (not_not.2 hs)]
    cases opened
    · rw [if_neg fun h => Bool.false_ne_true h.2]
      cases c.socketOpen <;> exact .of_eq rfl rfl rfl rfl rfl rfl
    · rw [if_pos ⟨hs, rfl⟩]
      cases c.socketOpen <;> exact .of_eq rfl rfl rfl rfl rfl rfl
  · rw [if_pos hs, if_neg fun h => hs h.1]
    exact writes_refl c

/-- `disconnect_impl`. -/
theorem writes_disconnectImpl (c : NetworkClient) :
    Writes c .disconnected [] c.disconnectImpl := by
  rw [disconnectImpl]
  split
  case isTrue hs => exact hs ▸ writes_refl c
  case isFalse => exact .of_eq rfl rfl rfl rfl rfl rfl

/-- The `HELLO` a client begins with. -/
def hello (clientId : Str) : Message := ⟨.hello, clientId, .monostate⟩

/-- The connection is there: the client says `HELLO`. -/
theorem writes_connected (c : NetworkClient) :
    Writes c .registering (if (hello c.clientId).Framable then [hello c.clientId] else [])
      c.connected := by
  have hsend := writes_sendMessage { c with state := .registering } (hello c.clientId)
  have hconn : NetworkClientState.registering.Connected := by decide
  simp only [hconn, true_and] at hsend
  have hw : Writes c .registering
      (if (hello c.clientId).Framable then [hello c.clientId] else [])
      (({ c with state := .registering } : NetworkClient).sendMessage (hello c.clientId)).state :=
    ⟨hsend.state, hsend.accepted, hsend.clientId, hsend.violations, hsend.incoming, hsend.outgoing⟩
  rw [connected, complete, if_neg (not_not.2 rfl), if_pos rfl]
  change Writes c _ _ (({ c with state := .registering } : NetworkClient).sendMessage
    (hello c.clientId) >>= fun c => pure c.startRead).state
  cases hr : ({ c with state := .registering } : NetworkClient).sendMessage (hello c.clientId) with
  | ok c' =>
    rw [hr] at hw
    have hread : Writes c' .registering [] c'.startRead :=
      .of_eq hw.state rfl rfl rfl rfl rfl
    have := hw.trans hread
    rwa [List.append_nil] at this
  | error e =>
    rw [hr] at hw
    exact hw

end NetworkClient

namespace System

variable (s : System) (id : Str) (handler : NetworkClient → NetworkClient)

/-- The network client of a process, with the queues it shares with the session. -/
def client : NetworkClient :=
  { s.network id with
    incoming := (s.session id).incomingQueue
    outgoing := (s.session id).outgoingQueue }

/-- A handler of one client runs in its own network client. -/
theorem network_run (k : Str) :
    (s.run id handler).network k = if k = id then handler (s.client id) else s.network k := by
  change (Function.update s.processes id ((s.processes id).run handler) k).network = _
  rw [Function.update_apply]
  split <;> rfl

/-- Its session gets what the network client has received, and what it queued is taken. -/
theorem session_run (k : Str) :
    (s.run id handler).session k =
      if k = id then { s.session id with
        incomingQueue := (handler (s.client id)).incoming
        outgoingQueue := (handler (s.client id)).outgoing }
      else s.session k := by
  change (Function.update s.processes id ((s.processes id).run handler) k).session = _
  rw [Function.update_apply]
  split <;> rfl

/-- **What a handler writes goes to the link of its client.** -/
theorem links_run {ms : List Message}
    (h : (handler (s.client id)).accepted.map (·.2) = (s.network id).accepted.map (·.2) ++ ms)
    (k : ConnId) :
    (s.run id handler).links k =
      if k = s.connection id then { s.links k with written := (s.links k).written ++ ms }
      else s.links k := by
  have hnew : ((handler (s.client id)).accepted.drop (s.network id).accepted.length).map (·.2) = ms := by
    rw [List.map_drop, h, ← List.length_map (f := (·.2)), List.drop_left]
  change Function.update s.links (s.connection id) _ k = _
  rw [Function.update_apply]
  split
  case isTrue he =>
    subst he
    change ({ s.link id with written := _ ++ List.map _ (List.drop _ (handler (s.client id)).accepted) } :
      Link) = _
    rw [hnew]
    rfl
  case isFalse => rfl

end System

end CrdtEditor
