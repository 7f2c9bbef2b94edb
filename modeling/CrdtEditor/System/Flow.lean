import CrdtEditor.Server.Sizes
import CrdtEditor.System.Known
import CrdtEditor.System.Phases

/-!
# System/Flow — where the operations of a session go

An operation that a session made is queued, written, read and recorded; one that is recorded is sent,
delivered, queued and taken.  `Flowing` says where on the way each operation is: once a client has asked
for a document, whatever its session knows is recorded for it, on its way to the server or queued
(`Attached.passed`), and whatever the server sent it is known or queued (`Online.arrived`).

The steps of the clients keep this where none of them loses an operation; `System/Quiet` has those of the
server, and what follows when nothing is on its way.
-/

open scoped List

namespace CrdtEditor

open Text

namespace Message

/-- What the server sends: it reads back, or names no operation. -/
def Passable (m : Message) : Prop :=
  m.Clean ∨ m.type = .cursorUpdate ∧ m.payload.operations = []

theorem Passable.ops_eq_nil {m : Message} (h : m.Passable) (hm : m.type = .helloAck ∨
    ∃ e, Message.deserialize m.serialize = .error e) : m.payload.operations = [] := by
  obtain hclean | ⟨-, hops⟩ := h
  · obtain hm | ⟨e, he⟩ := hm
    · obtain ⟨type, sender, payload⟩ := m
      obtain rfl : type = .helloAck := hm
      cases payload <;> first | rfl | exact absurd hclean.2 id
    · rw [deserialize_serialize hclean] at he
      cases he
  · exact hops

theorem Clean.effective {m : Message} (h : m.Clean) : m.effective = m.payload.operations := by
  obtain ⟨type, sender, payload⟩ := m
  obtain ⟨-, h⟩ := h
  cases type <;> cases payload <;> first | rfl | exact absurd h id

/-- **What passes is read with its operations.** -/
theorem Passable.read {m m' : Message} (h : m.Passable)
    (hm' : Message.deserialize m.serialize = .ok m') :
    m'.Formed ∧ m'.effective = m'.payload.operations ∧
      m'.payload.operations = m.payload.operations := by
  have hformed := formed_of_deserialize hm'
  obtain hclean | ⟨htype, hops⟩ := h
  · rw [deserialize_serialize hclean] at hm'
    obtain rfl := Except.ok.inj hm'
    exact ⟨hformed, hclean.effective, rfl⟩
  · have htype' := (type_of_deserialize_serialize hm').trans htype
    refine ⟨hformed, ?_⟩
    rw [Formed, htype'] at hformed
    rw [Message.effective, htype', hops]
    cases hp : m'.payload <;> rw [hp] at hformed <;>
      first | exact ⟨rfl, rfl⟩ | exact absurd hformed Bool.false_ne_true

/-- The document that the server reads a message to ask for. -/
def opens (m : Message) : Option DocumentID :=
  (deserialize m.serialize).toOption.bind fun m' =>
    if m'.type = .openDocument then m'.payload.getOpenDocument.toOption else none

theorem opens_eq_some {m : Message} {d : DocumentID} : m.opens = some d ↔
    ∃ m', deserialize m.serialize = .ok m' ∧ m'.type = .openDocument ∧
      m'.payload = .openDocument d := by
  have hpayload : ∀ p : MessagePayload, p.getOpenDocument.toOption = some d ↔ p = .openDocument d :=
    fun p => by cases p <;> simp [MessagePayload.getOpenDocument, Except.toOption]
  rw [opens]
  cases hm : deserialize m.serialize with
  | error e => simp [Except.toOption]
  | ok m' =>
    change (if m'.type = .openDocument then m'.payload.getOpenDocument.toOption else none) = some d ↔ _
    split
    case isTrue ht => simp [ht, hpayload]
    case isFalse ht => simp [ht]

theorem type_of_opens {m : Message} {d : DocumentID} (h : m.opens = some d) :
    m.type = .openDocument := by
  obtain ⟨m', hm', htype, -⟩ := opens_eq_some.1 h
  exact (type_of_deserialize_serialize hm').symm.trans htype

end Message

/-- **What a client does with a message it takes**: it queues it for the session, unless it is the
`HELLO_ACK` or does not decode. -/
theorem NetworkClient.receive_queues (c : NetworkClient) {m : Message} (h : c.state.Takes m.type)
    (hfits : m.Fits) :
    (c.receive m.serialize).outgoing = c.outgoing ∧
      (c.receive m.serialize).clientId = c.clientId ∧
      ((∃ m', Message.deserialize m.serialize = .ok m' ∧
          (c.receive m.serialize).incoming = c.incoming ++ [m']) ∨
        (m.type = .helloAck ∨ ∃ e, Message.deserialize m.serialize = .error e) ∧
          (c.receive m.serialize).incoming = c.incoming) := by
  rw [receive, if_neg (not_lt.2 hfits), handleMessage]
  cases hdec : Message.deserialize m.serialize with
  | error e => exact ⟨rfl, rfl, Or.inr ⟨Or.inr ⟨e, rfl⟩, rfl⟩⟩
  | ok m' =>
    rw [← Message.type_of_deserialize_serialize hdec] at h ⊢
    cases hs : c.state <;> rw [hs] at h
    case registering =>
      have hm : m'.type = .helloAck := h
      simp [hm]
    case syncing =>
      obtain hm | hm | hm : _ ∨ _ ∨ _ := h <;> simp [hm]
    case live =>
      obtain hm | hm : _ ∨ _ := h <;> simp [hm]
    all_goals exact h.elim

/-- What is recorded for the document that a connection has open. -/
def Server.opened (s : Server) (conn : ConnId) : Set Operation :=
  {op | ∃ d, (s.connections conn).currentDocument = some d ∧ op ∈ s.recorded d}

namespace System

variable {sha256 : Str → Vector UInt8 32} {s t : System} {id : Str}

/-- What a session queues for the server. -/
def Queues (s : System) (id : Str) (m : Message) : Prop :=
  (∃ op ∈ (s.session id).history, m = ⟨.operation, id, .operation op⟩) ∨
    m = ⟨.syncComplete, id, .monostate⟩ ∨
    ∃ x, s.Drawn x ∧ Plain x.siteId ∧ m = ⟨.cursorUpdate, id, .cursorUpdate x⟩

/-- What a client writes. -/
def Wires (s : System) (id : Str) (m : Message) : Prop :=
  s.Queues id m ∨ m = NetworkClient.hello id ∨
    ∃ d, m = ⟨.openDocument, id, .openDocument d⟩

/-- The client of the id and its connection, as the server sees it. -/
def peer (s : System) (id : Str) : ClientConnection := s.server.connections (s.connection id)

/-- The client of the connection asked for the document. -/
def Asks (s : System) (k : ConnId) (d : DocumentID) : Prop :=
  ∃ m, (s.links k).written[1]? = some m ∧ m.opens = some d

theorem Asks.unique {k : ConnId} {d d' : DocumentID} (h : s.Asks k d) (h' : s.Asks k d') : d = d' := by
  obtain ⟨m, hm, hd⟩ := h
  obtain ⟨m', hm', hd'⟩ := h'
  obtain rfl := Option.some.inj (hm.symm.trans hm')
  exact Option.some.inj (hd.symm.trans hd')

/-- What is written stays. -/
theorem Asks.mono {k : ConnId} {d : DocumentID} (h : s.Asks k d)
    (hw : (s.links k).written <+: (t.links k).written) : t.Asks k d := by
  obtain ⟨m, hm, hd⟩ := h
  refine ⟨m, ?_, hd⟩
  rw [← hm]
  obtain ⟨ms, hms⟩ := hw
  rw [← hms, List.getElem?_append_left (List.getElem?_eq_some_iff.1 hm).1]

/-- Whatever the session knows is recorded for the document or still queued, and whatever waits for it
is recorded. -/
def Carries (s : System) (id : Str) (d : DocumentID) : Prop :=
  (∀ op ∈ operationsOf (s.session id).incomingQueue, op ∈ s.server.recorded d) ∧
    ∀ op ∈ (s.session id).log.operationHistory, op ∈ s.server.recorded d ∨
      op ∈ operationsOf (s.session id).outgoingQueue

instance (s : System) (id : Str) : DecidablePred (s.Carries id) := fun _ =>
  inferInstanceAs (Decidable ((∀ op ∈ operationsOf (s.session id).incomingQueue, _) ∧
    ∀ op ∈ (s.session id).log.operationHistory, _))

/-- A connection that the server has not ended, whose client asked for a document: what its session
knows, and where it is. -/
structure Attached (s : System) (id : Str) (d : DocumentID) : Prop where
  incoming : ∀ op ∈ operationsOf (s.session id).incomingQueue, op ∈ s.server.recorded d
  passed : ∀ op ∈ (s.session id).history, op ∈ s.server.recorded d ∨
    op ∈ operationsOf ((s.link id).written.drop (s.link id).read) ∨
    op ∈ operationsOf (s.session id).outgoingQueue

/-- **A connected client.** -/
structure Online (s : System) (id : Str) : Prop where
  plain : Plain id
  enrolled : (s.peer id).isRegistered → (s.peer id).clientId = id
  written : ∀ m ∈ (s.link id).written, s.Wires id m
  delivered : (s.link id).delivered ≤ (s.peer id).sent.length
  arrived : ∀ op ∈ operationsOf ((s.peer id).sent.take (s.link id).delivered),
    op ∈ (s.session id).history ∨ op ∈ operationsOf (s.session id).incomingQueue
  submitted : (s.peer id).state ≠ .disconnected →
    ∀ op ∈ (s.peer id).submitted, op ∈ (s.session id).history
  attached : ∀ d, s.Asks (s.connection id) d → (s.peer id).state ≠ .disconnected → s.Attached id d

/-- **Where every operation is.** -/
structure Flowing (sha256 : Str → Vector UInt8 32) (s : System) : Prop where
  phased : s.Phased
  relays : Server.Relays sha256 s.server none Server.Settled
  known : s.Known
  named : ∀ id, (s.network id).clientId = id
  recorded : ∀ d, ∀ op ∈ s.server.recorded d, op ∈ s.known
  sent : ∀ k, ∀ m ∈ (s.server.connections k).sent, m.Passable
  wired : ∀ k, ∀ m ∈ (s.links k).written, ∃ id, Plain id ∧ s.Wires id m
  asked : ∀ k d, (s.server.connections k).state ≠ .disconnected →
    (s.server.connections k).currentDocument = some d → s.Asks k d
  queued : ∀ id, ∀ m ∈ (s.session id).outgoingQueue, s.Queues id m
  taken : ∀ id, ∀ m ∈ (s.session id).incomingQueue, m.Formed ∧
    m.effective = m.payload.operations ∧ ∀ op ∈ m.payload.operations, op ∈ s.known
  online : ∀ id, (s.network id).state.Connected → s.Online id

theorem flowing_start (sha256 : Str → Vector UInt8 32) : start.Flowing sha256 where
  phased := phased_start
  relays := Server.relays_start DocumentStore.sound_empty
  known := known_start
  named _ := rfl
  recorded _ _ hop := absurd hop List.not_mem_nil
  sent _ _ hm := absurd hm List.not_mem_nil
  wired _ _ hm := absurd hm List.not_mem_nil
  asked _ _ _ hd := by cases hd
  queued _ _ hm := absurd hm List.not_mem_nil
  taken _ _ hm := absurd hm List.not_mem_nil
  online _ hc := absurd rfl hc.1

/-! ## A step of a client -/

/-- From `s` to `t` every session knows what it knew. -/
structure Grows (s t : System) : Prop where
  history : ∀ id, (s.session id).history ⊆ (t.session id).history
  drawn : ∀ x, s.Drawn x → t.Drawn x

theorem Grows.known (h : Grows s t) {op : Operation} (hop : op ∈ s.known) : op ∈ t.known := by
  obtain ⟨id, hop⟩ := hop
  exact ⟨id, h.history id hop⟩

theorem Grows.queues (h : Grows s t) {m : Message} (hm : s.Queues id m) : t.Queues id m := by
  obtain ⟨op, hop, he⟩ | he | ⟨x, hx, hp, he⟩ := hm
  · exact Or.inl ⟨op, h.history id hop, he⟩
  · exact Or.inr (Or.inl he)
  · exact Or.inr (Or.inr ⟨x, h.drawn x hx, hp, he⟩)

theorem Grows.wires (h : Grows s t) {m : Message} (hm : s.Wires id m) : t.Wires id m :=
  hm.imp h.queues fun ho => ho

/-- **A step of one client.** -/
theorem Flowing.client (h : s.Flowing sha256) (id : Str) (hphased : t.Phased) (hknown : t.Known)
    (hname : (t.network id).clientId = id) (hgrows : Grows s t) (hserver : t.server = s.server)
    (hconnection : ∀ k, k ≠ id → t.connection k = s.connection k)
    (hnetwork : ∀ k, k ≠ id → t.network k = s.network k)
    (hsession : ∀ k, k ≠ id → t.session k = s.session k)
    (hlinks : ∀ k, t.links k = s.links k ∨
      (s.links k).written <+: (t.links k).written ∧ (t.network id).state.Connected ∧
        t.connection id = k)
    (hqueued : ∀ m ∈ (t.session id).outgoingQueue, t.Queues id m)
    (htaken : ∀ m ∈ (t.session id).incomingQueue, m.Formed ∧
      m.effective = m.payload.operations ∧ ∀ op ∈ m.payload.operations, op ∈ t.known)
    (honline : (t.network id).state.Connected → t.Online id) : t.Flowing sha256 := by
  refine
    { phased := hphased
      relays := hserver ▸ h.relays
      known := hknown
      named := fun k => ?_
      recorded := fun d op hop => hgrows.known (h.recorded d op (hserver ▸ hop))
      sent := fun k m hm => h.sent k m (hserver ▸ hm)
      wired := fun k m hm => ?_
      asked := fun k d hs hd => (h.asked k d (hserver ▸ hs) (hserver ▸ hd)).mono ?_
      queued := fun k => ?_
      taken := fun k => ?_
      online := fun k hk => ?_ }
  · by_cases hid : k = id
    · exact hid ▸ hname
    · rw [hnetwork k hid]
      exact h.named k
  · obtain hl | ⟨-, hc, rfl⟩ := hlinks k
    · rw [hl] at hm
      obtain ⟨id', hplain, hwires⟩ := h.wired k m hm
      exact ⟨id', hplain, hgrows.wires hwires⟩
    · exact ⟨id, (honline hc).plain, (honline hc).written m hm⟩
  · obtain hl | ⟨hl, -⟩ := hlinks k
    · rw [hl]
    · exact hl
  · by_cases hid : k = id
    · exact hid ▸ hqueued
    · rw [hsession k hid]
      exact fun m hm => hgrows.queues (h.queued k m hm)
  · by_cases hid : k = id
    · exact hid ▸ htaken
    · rw [hsession k hid]
      intro m hm
      obtain ⟨hformed, heffective, hops⟩ := h.taken k m hm
      exact ⟨hformed, heffective, fun op hop => hgrows.known (hops op hop)⟩
  · by_cases hid : k = id
    · exact hid ▸ honline (hid ▸ hk)
    · have ho := h.online k (hnetwork k hid ▸ hk)
      have hcon := hconnection k hid
      -- no other client has the connection
      have hlinks : t.links (s.connection k) = s.links (s.connection k) :=
        (hlinks _).resolve_right fun hown => hid
          (hphased.distinct k id hk hown.2.1 (hcon.trans hown.2.2.symm))
      have hlink : t.link k = s.link k := by rw [link, link, hcon, hlinks]
      have hpeer : t.peer k = s.peer k := by rw [peer, peer, hserver, hcon]
      exact
        { plain := ho.plain
          enrolled := by rw [hpeer]; exact ho.enrolled
          written := by rw [hlink]; exact fun m hm => hgrows.wires (ho.written m hm)
          delivered := by rw [hlink, hpeer]; exact ho.delivered
          arrived := by rw [hlink, hpeer, hsession k hid]; exact ho.arrived
          submitted := by rw [hpeer, hsession k hid]; exact ho.submitted
          attached := fun d hd hs => by
            rw [Asks, hcon, hlinks] at hd
            have ha := ho.attached d hd (hpeer ▸ hs)
            exact
              { incoming := by rw [hserver, hsession k hid]; exact ha.incoming
                passed := by rw [hserver, hlink, hsession k hid]; exact ha.passed } }

theorem session_setProcess (s : System) (id : Str) (p : Process) (k : Str) :
    (s.setProcess id p).session k = if k = id then p.session else s.session k := by
  change (Function.update s.processes id p k).session = _
  rw [Function.update_apply]
  split <;> rfl

/-- The system after a turn of one session. -/
def seat (s : System) (id : Str) (session : EditorSession) : System :=
  s.setProcess id { s.processes id with session := session }

theorem network_seat (s : System) (id : Str) (session : EditorSession) (k : Str) :
    (s.seat id session).network k = s.network k := by
  change (Function.update s.processes id { s.processes id with session := session } k).network = _
  rw [Function.update_apply]
  split
  case isTrue he => rw [he]; rfl
  case isFalse => rfl

/-- **A turn of a session.** -/
theorem Flowing.seat (h : s.Flowing sha256) (hid : Plain id) {taken own : List Operation}
    {ms : List Message} {session : EditorSession}
    (hturn : (s.session id).Turn taken own ms session)
    (htaken : ∀ op ∈ taken, op ∈ operationsOf (s.session id).incomingQueue) :
    (s.seat id session).Flowing sha256 := by
  set t := s.seat id session with ht
  have hsession : ∀ k, t.session k = if k = id then session else s.session k :=
    session_setProcess s id _
  have hself : t.session id = session := by rw [hsession, if_pos rfl]
  have hturns : s.Turns id taken own ms t :=
    ⟨hself.symm ▸ hturn, fun k hk => by rw [hsession, if_neg hk]⟩
  have htakenKnown : ∀ op ∈ taken, op ∈ s.known := fun op hop => by
    obtain ⟨m, hm, hop⟩ := mem_operationsOf.1 (htaken op hop)
    exact (h.taken id m hm).2.2 op hop
  have hknown : t.Known := h.known.turn hid hturns htakenKnown
  have hgrow : (s.session id).history ⊆ session.history := by
    rw [hturn.history]
    exact Set.subset_union_left
  have hgrows : Grows s t := by
    refine ⟨fun k => ?_, fun x => hturns.drawn⟩
    rw [hsession]
    split
    case isTrue he => exact he ▸ hgrow
    case isFalse => exact subset_rfl
  have hincoming : ∀ m ∈ session.incomingQueue, m ∈ (s.session id).incomingQueue := by
    obtain he | ⟨he, -⟩ := hturn.incoming <;> rw [he]
    exacts [fun _ hm => hm, fun _ hm => absurd hm List.not_mem_nil]
  have hincomingOps : ∀ op ∈ operationsOf session.incomingQueue,
      op ∈ operationsOf (s.session id).incomingQueue := fun op hop => by
    obtain ⟨m, hm, hop⟩ := mem_operationsOf.1 hop
    exact mem_operationsOf.2 ⟨m, hincoming m hm, hop⟩
  have hcases : ∀ op ∈ session.history, op ∈ (s.session id).history ∨
      op ∈ operationsOf (s.session id).incomingQueue ∨ op ∈ operationsOf ms := by
    intro op hop
    rw [hturn.history] at hop
    rcases hop with hop | hop | hop
    · exact Or.inl hop
    · exact Or.inr (Or.inl (htaken op hop))
    · refine Or.inr (Or.inr ?_)
      rw [← EditorSession.operationsOf_announce (s.session id) own] at hop
      obtain ⟨m, hm, hop⟩ := mem_operationsOf.1 hop
      exact mem_operationsOf.2 ⟨m, hturn.announced hm, hop⟩
  have hclientId : (s.session id).clientId = id := h.known.clientId id
  refine h.client id (h.phased.setProcess (Or.inl rfl)) hknown
    (by rw [network_seat]; exact h.named id) hgrows rfl (fun _ _ => rfl)
    (fun k _ => network_seat s id session k) hturns.others (fun _ => Or.inl rfl) ?_ ?_ fun hc => ?_
  · rw [hself, hturn.outgoing]
    intro m hm
    rcases List.mem_append.1 hm with hm | hm
    · exact hgrows.queues (h.queued id m hm)
    obtain hm | hm := hturn.tells m hm
    · obtain ⟨op, hop, rfl⟩ := List.mem_map.1 hm
      refine Or.inl ⟨op, ?_, by rw [hclientId]⟩
      rw [hself, hturn.history]
      exact Or.inr (Or.inr hop)
    · rw [EditorSession.Tells, hturn.clientId, hclientId] at hm
      obtain rfl | ⟨x, hx, rfl⟩ := hm
      · exact Or.inr (Or.inl rfl)
      · obtain ⟨hd, hp⟩ := hknown.names (hself.symm ▸ hx : (t.session id).Names x)
        exact Or.inr (Or.inr ⟨x, hd, hp, rfl⟩)
  · rw [hself]
    intro m hm
    obtain ⟨hformed, heffective, hops⟩ := h.taken id m (hincoming m hm)
    exact ⟨hformed, heffective, fun op hop => hgrows.known (hops op hop)⟩
  · rw [network_seat] at hc
    have ho := h.online id hc
    refine
      { plain := hid
        enrolled := ho.enrolled
        written := fun m hm => hgrows.wires (ho.written m hm)
        delivered := ho.delivered
        arrived := fun op hop => ?_
        submitted := fun hs op hop => hself.symm ▸ hgrow (ho.submitted hs op hop)
        attached := fun d hd hs => ?_ }
    · rw [hself]
      obtain hop | hop := ho.arrived op hop
      · exact Or.inl (hgrow hop)
      · obtain he | ⟨-, he⟩ := hturn.incoming
        · exact Or.inr (he.symm ▸ hop)
        · refine Or.inl ?_
          rw [hturn.history, he]
          exact Or.inr (Or.inl hop)
    · have ha := ho.attached d hd hs
      refine
        { incoming := fun op hop => ha.incoming op (hincomingOps op (hself ▸ hop))
          passed := fun op hop => ?_ }
      rw [hself] at hop ⊢
      rw [hturn.outgoing, operationsOf_append, List.mem_append]
      obtain hop | hop | hop := hcases op hop
      · exact (ha.passed op hop).imp (fun ho => ho) (Or.imp (fun ho => ho) Or.inl)
      · exact Or.inl (ha.incoming op hop)
      · exact Or.inr (Or.inr (Or.inr hop))

/-- **What a user and the timer make a session do.** -/
theorem Flowing.act (h : s.Flowing sha256) (hid : Plain id) {action : Action}
    (hclock : ∀ command, action = .command command → command.typed ≠ none →
      (s.session id).gen.lamportClock.toNat + 1 < 2 ^ 64 - 1) :
    (s.seat id ((s.session id).input action.input).state).Flowing sha256 := by
  have hsound := h.known.sound id hid
  have hnone : ∀ op ∈ ([] : List Operation), op ∈ operationsOf (s.session id).incomingQueue :=
    fun _ hop => absurd hop List.not_mem_nil
  cases action with
  | command command =>
    obtain ⟨own, hturn⟩ := hsound.turn_command (fun _ => h.known.fresh hid) (hclock command rfl)
    exact h.seat hid hturn hnone
  | queueCursorUpdate => exact h.seat hid hsound.turn_queueCursorUpdate hnone
  | mousePress line column =>
    obtain ⟨ms, hturn⟩ := hsound.turn_mousePressEvent line column
    exact h.seat hid hturn hnone
  | mouseMove line column =>
    obtain ⟨ms, hturn⟩ := hsound.turn_mouseMoveEvent line column
    exact h.seat hid hturn hnone
  | flush =>
    have htaken := h.taken id
    obtain ⟨ms, hturn⟩ := hsound.turn_flushIncoming (fun m hm => (htaken m hm).1)
      (fun m hm => (htaken m hm).2.1) (h.known.honest fun op hop => by
        obtain ⟨m, hm, hop⟩ := List.mem_flatMap.1 hop
        exact (htaken m hm).2.2 op hop)
    exact h.seat hid hturn fun _ hop => hop

/-! ## The handlers of a network client -/

theorem history_run (s : System) (id : Str) (handler : NetworkClient → NetworkClient) (k : Str) :
    ((s.run id handler).session k).history = (s.session k).history ∧
      ((s.run id handler).session k).log = (s.session k).log ∧
      ((s.run id handler).session k).gen = (s.session k).gen ∧
      ((s.run id handler).session k).clientId = (s.session k).clientId := by
  rw [session_run]
  split
  case isTrue he =>
    subst he
    exact ⟨rfl, rfl, rfl, rfl⟩
  case isFalse => exact ⟨rfl, rfl, rfl, rfl⟩

/-- Queues are not known. -/
theorem Known.run (h : s.Known) (hid : Plain id) (handler : NetworkClient → NetworkClient) :
    (s.run id handler).Known := by
  refine h.congr (fun k => (history_run s id handler k).2.1)
    (fun k => (history_run s id handler k).2.2.1) (fun k hk => ?_) (fun k hk => ?_)
    fun k => (history_run s id handler k).2.2.2
  · rw [session_run]
    split
    case isTrue he =>
      subst he
      have hs := h.sound k hk
      exact hs.congr rfl rfl rfl rfl rfl hs.anchor
    case isFalse => exact h.sound k hk
  · rw [session_run, if_neg fun he : k = id => hk (he ▸ hid)]

theorem grows_run (s : System) (id : Str) (handler : NetworkClient → NetworkClient) :
    Grows s (s.run id handler) := by
  refine ⟨fun k => (history_run s id handler k).1.symm.subset, fun x hx => ?_⟩
  rw [Drawn, (history_run s id handler x.siteId).2.2.1]
  exact hx

/-- **A handler that hands its queue on.** -/
theorem Flowing.run (h : s.Flowing sha256) (hid : Plain id)
    {handler : NetworkClient → NetworkClient} (hphased : (s.run id handler).Phased)
    {ms rest : List Message}
    (hw : (handler (s.client id)).accepted.map (·.2) = (s.network id).accepted.map (·.2) ++ ms)
    (hname : (handler (s.client id)).clientId = (s.network id).clientId)
    (hincoming : (handler (s.client id)).incoming = (s.session id).incomingQueue)
    (houtgoing : (handler (s.client id)).outgoing = rest)
    (hrest : ∀ m ∈ rest, m ∈ (s.session id).outgoingQueue)
    (hconn : (handler (s.client id)).state.Connected → (s.network id).state.Connected)
    (hms : ∀ m ∈ ms, s.Wires id m) (hopen : ms ≠ [] → (handler (s.client id)).state.Connected)
    (hasks : ∀ m ∈ ms, ∀ d, m.opens = some d → s.Carries id d)
    (hops : (s.network id).state.Connected → ∀ op ∈ operationsOf (s.session id).outgoingQueue,
      op ∈ operationsOf ms ∨ op ∈ operationsOf rest) : (s.run id handler).Flowing sha256 := by
  have hnetwork := network_run s id handler
  have hsession := session_run s id handler
  have hlinks := links_run s id handler hw
  have hgrows := grows_run s id handler
  have hself : (s.run id handler).session id = { s.session id with
      incomingQueue := (s.session id).incomingQueue, outgoingQueue := rest } := by
    rw [hsession, if_pos rfl, hincoming, houtgoing]
  have hnew : (s.run id handler).links (s.connection id) =
      { s.link id with written := (s.link id).written ++ ms } := by
    rw [hlinks, if_pos rfl]
    rfl
  have hlink : (s.run id handler).link id =
      { s.link id with written := (s.link id).written ++ ms } := hnew
  have hcself : ((s.run id handler).network id).state = (handler (s.client id)).state := by
    rw [hnetwork, if_pos rfl]
  refine h.client id hphased (h.known.run hid handler)
    (by rw [hnetwork, if_pos rfl, hname, h.named id]) hgrows rfl (fun _ _ => rfl)
    (fun k hk => by rw [hnetwork, if_neg hk]) (fun k hk => by rw [hsession, if_neg hk])
    (fun k => ?_) ?_ ?_ fun hc => ?_
  · by_cases hnil : ms = []
    · refine Or.inl ?_
      rw [hlinks, hnil]
      split
      · rw [List.append_nil]
      · rfl
    · by_cases he : k = s.connection id
      · refine Or.inr ⟨?_, hcself ▸ hopen hnil, he.symm⟩
        rw [he, hnew]
        exact List.prefix_append _ _
      · exact Or.inl (by rw [hlinks, if_neg he])
  · rw [hself]
    exact fun m hm => hgrows.queues (h.queued id m (hrest m hm))
  · rw [hself]
    intro m hm
    obtain ⟨hformed, heffective, hknown⟩ := h.taken id m hm
    exact ⟨hformed, heffective, fun op hop => hgrows.known (hknown op hop)⟩
  · have hc := hconn (hcself ▸ hc)
    have ho := h.online id hc
    have hread : (s.link id).read ≤ (s.link id).written.length :=
      (h.phased.kept (s.connection id)).read
    refine
      { plain := hid
        enrolled := ho.enrolled
        written := ?_
        delivered := by rw [hlink]; exact ho.delivered
        arrived := by rw [hlink, hself]; exact ho.arrived
        submitted := by rw [hself]; exact ho.submitted
        attached := fun d hd hs => ?_ }
    · rw [hlink]
      intro m hm
      rcases List.mem_append.1 hm with hm | hm
      exacts [hgrows.wires (ho.written m hm), hgrows.wires (hms m hm)]
    · -- the document was asked for before, or is now
      obtain ⟨hincoming, hpassed⟩ : (∀ op ∈ operationsOf (s.session id).incomingQueue,
          op ∈ s.server.recorded d) ∧ ∀ op ∈ (s.session id).history, op ∈ s.server.recorded d ∨
            op ∈ operationsOf ((s.link id).written.drop (s.link id).read) ∨
            op ∈ operationsOf (s.session id).outgoingQueue := by
        by_cases hold : s.Asks (s.connection id) d
        · have ha := ho.attached d hold hs
          exact ⟨ha.incoming, ha.passed⟩
        · obtain ⟨m, hm, hd⟩ := hd
          change ((s.run id handler).links (s.connection id)).written[1]? = some m at hm
          have hmem : m ∈ ms := by
            rw [hnew] at hm
            refine (List.mem_append.1 (List.mem_of_getElem? hm)).resolve_left fun hno => hold ?_
            by_cases hlen : 1 < (s.link id).written.length
            · rw [List.getElem?_append_left hlen] at hm
              exact ⟨m, hm, hd⟩
            · have hone := h.phased.opens_second (s.connection id) hno (Message.type_of_opens hd)
              exact absurd (List.getElem?_eq_some_iff.1 hone).1 hlen
          obtain ⟨hincoming, hpassed⟩ := hasks m hmem d hd
          exact ⟨hincoming, fun op hop => (hpassed op hop).imp (fun ho => ho) Or.inr⟩
      refine ⟨by rw [hself]; exact hincoming, fun op hop => ?_⟩
      rw [hself] at hop ⊢
      rw [hlink]
      change _ ∨ op ∈ operationsOf (((s.link id).written ++ ms).drop (s.link id).read) ∨ _
      rw [List.drop_append_of_le_length hread, operationsOf_append, List.mem_append]
      obtain hop | hop | hop := hpassed op hop
      · exact Or.inl hop
      · exact Or.inr (Or.inl (Or.inl hop))
      · exact Or.inr ((hops hc op hop).imp Or.inr fun ho => ho)

theorem Flowing.connectImpl (h : s.Flowing sha256) (hid : Plain id) (opened : Bool) :
    (s.run id (·.connectImpl opened)).Flowing sha256 := by
  have hw := NetworkClient.writes_connectImpl (s.client id) opened
  refine h.run hid (h.phased.connectImpl opened) hw.accepted hw.clientId hw.incoming hw.outgoing
    (fun _ hm => hm) (fun hc => ?_) (fun _ hm => absurd hm List.not_mem_nil) (fun hno => absurd rfl hno)
    (fun _ hm => absurd hm List.not_mem_nil) fun _ _ hop => Or.inr hop
  rw [hw.state] at hc
  split at hc
  case isTrue => exact absurd rfl hc.2
  case isFalse => exact hc

theorem Flowing.disconnectImpl (h : s.Flowing sha256) (hid : Plain id) :
    (s.run id NetworkClient.disconnectImpl).Flowing sha256 := by
  have hw := NetworkClient.writes_disconnectImpl (s.client id)
  refine h.run hid h.phased.disconnectImpl hw.accepted hw.clientId hw.incoming hw.outgoing
    (fun _ hm => hm) (fun hc => ?_) (fun _ hm => absurd hm List.not_mem_nil) (fun hno => absurd rfl hno)
    (fun _ hm => absurd hm List.not_mem_nil) fun _ _ hop => Or.inr hop
  rw [hw.state] at hc
  exact absurd rfl hc.1

/-- **`send_open_document_impl`**, where the session carries nothing that the document lacks. -/
theorem Flowing.openDocumentImpl (h : s.Flowing sha256) (hid : Plain id) {documentId : DocumentID}
    (hcarries : (s.network id).state = .registered →
      ∀ d, (⟨.openDocument, id, .openDocument documentId⟩ : Message).opens = some d → s.Carries id d) :
    (s.run id fun c => (c.openDocumentImpl documentId).state).Flowing sha256 := by
  have hw := NetworkClient.writes_openDocumentImpl (s.client id) documentId
  have hname : (s.client id).clientId = id := h.named id
  refine h.run hid (h.phased.openDocumentImpl documentId) hw.accepted hw.clientId hw.incoming hw.outgoing
    (fun _ hm => hm) (fun hc => ?_) (fun m hm => ?_) (fun hne => ?_) (fun m hm d hd => ?_)
    fun _ _ hop => Or.inr hop
  · rw [hw.state] at hc
    split at hc
    case isTrue hs =>
      have hregistered : (s.network id).state = .registered := hs.1
      rw [hregistered]
      decide
    case isFalse => exact hc
  · split at hm
    case isTrue =>
      rw [List.mem_singleton.1 hm, hname]
      exact Or.inr (Or.inr ⟨documentId, rfl⟩)
    case isFalse => cases hm
  · split at hne
    case isTrue hs =>
      rw [hw.state, if_pos ⟨hs.1, hs.2.1⟩]
      decide
    case isFalse => exact absurd rfl hne
  · split at hm
    case isTrue hs =>
      rw [List.mem_singleton.1 hm, hname] at hd
      exact hcarries hs.1 d hd
    case isFalse => cases hm

/-- **`process_outgoing`**, where it writes all that is queued. -/
theorem Flowing.processOutgoing (h : s.Flowing sha256) (hid : Plain id)
    (horderly : s.Orderly (.processOutgoing id))
    (hframable : (s.network id).state.Connected → ∀ m ∈ (s.session id).outgoingQueue, m.Framable) :
    (s.run id fun c => c.processOutgoing.state).Flowing sha256 := by
  have hw := NetworkClient.writes_processOutgoing (s.client id)
  have hqueued : ∀ m ∈ (if (s.client id).state.Connected
      then (s.client id).outgoing.takeWhile (·.Framable) else []), s.Queues id m := fun m hm => by
    split at hm
    · exact h.queued id m ((List.takeWhile_prefix _).subset hm)
    · cases hm
  refine h.run hid (h.phased.processOutgoing horderly) hw.accepted hw.clientId hw.incoming
    hw.outgoing (fun _ hm => absurd hm List.not_mem_nil) (fun hc => hw.state ▸ hc)
    (fun m hm => Or.inl (hqueued m hm)) (fun hne => ?_) (fun m hm d hd => ?_) fun hc op hop => ?_
  · rw [hw.state]
    split at hne
    case isTrue hc => exact hc
    case isFalse => exact absurd rfl hne
  · have htype := Message.type_of_opens hd
    obtain ⟨op, -, rfl⟩ | rfl | ⟨x, -, -, rfl⟩ := hqueued m hm <;> cases htype
  · have hc : (s.client id).state.Connected := hc
    have hframable : ∀ m ∈ (s.client id).outgoing, m.Framable := hframable hc
    rw [if_pos hc]
    refine Or.inl ?_
    rwa [List.takeWhile_eq_self_iff.2 fun m hm => decide_eq_true (hframable m hm)]

/-- **A new connection**, on which everything is still to pass. -/
theorem Flowing.establish (h : s.Flowing sha256) (hid : Plain id) :
    (s.establish id).Flowing sha256 := by
  by_cases hs : (s.network id).state = .connecting
  case neg =>
    rw [System.establish, if_neg hs]
    exact h
  have hphased := h.phased.establish id
  rw [System.establish, if_pos hs] at hphased ⊢
  set u : System := { s with
    connection := Function.update s.connection id s.opened
    opened := s.opened + 1 } with hu
  have hw := NetworkClient.writes_connected (u.client id)
  have hname : (u.client id).clientId = id := h.named id
  rw [hname] at hw
  set ms := if (NetworkClient.hello id).Framable then [NetworkClient.hello id] else [] with hms
  have hconnection : u.connection id = s.opened := Function.update_self ..
  have hnetwork := network_run u id NetworkClient.connected
  have hsession := session_run u id NetworkClient.connected
  have hlinks := links_run u id NetworkClient.connected hw.accepted
  rw [hconnection] at hlinks
  set t := u.run id NetworkClient.connected with ht
  have hfresh := h.phased.fresh s.opened le_rfl
  have hself : t.session id = s.session id := by
    rw [hsession, if_pos rfl, hw.incoming, hw.outgoing]
    rfl
  have hsessions : ∀ k, t.session k = s.session k := fun k => by
    by_cases hk : k = id
    · exact hk ▸ hself
    · rw [hsession, if_neg hk]
      rfl
  have hstate : (t.network id).state = .registering := by
    rw [hnetwork, if_pos rfl, hw.state]
  have hnew : t.links (t.connection id) = ⟨ms, 0, 0⟩ := by
    change t.links (u.connection id) = _
    rw [hconnection, hlinks, if_pos rfl]
    change ({ s.links s.opened with written := (s.links s.opened).written ++ ms } : Link) = _
    rw [hfresh.2]
    rfl
  have hlink : t.link id = ⟨ms, 0, 0⟩ := hnew
  have hpeer : t.peer id = .new := by
    change s.server.connections (u.connection id) = _
    rw [hconnection, hfresh.1]
  have hgrows : Grows s t := by
    refine ⟨fun k => by rw [hsessions], fun x hx => ?_⟩
    rw [Drawn, hsessions]
    exact hx
  have hconn : (t.network id).state.Connected := by
    rw [hstate]
    decide
  have hhello : ∀ m ∈ ms, m = NetworkClient.hello id := by
    intro m hm
    rw [hms] at hm
    split at hm
    case isTrue => exact List.mem_singleton.1 hm
    case isFalse => cases hm
  refine h.client id hphased ?_ ?_ hgrows rfl (fun k hk => Function.update_of_ne hk _ _)
    (fun k hk => by rw [hnetwork, if_neg hk]; rfl) (fun k _ => hsessions k) (fun k => ?_) ?_ ?_
    fun _ => ?_
  · exact h.known.congr (fun k => by rw [hsessions]) (fun k => by rw [hsessions])
      (fun k hk => by rw [hsessions]; exact h.known.sound k hk) (fun k _ => hsessions k)
      fun k => by rw [hsessions]
  · rw [hnetwork, if_pos rfl, hw.clientId, hname]
  · by_cases hk : k = s.opened
    · refine Or.inr ⟨?_, hconn, hconnection.trans hk.symm⟩
      rw [hk, hfresh.2]
      exact List.nil_prefix
    · exact Or.inl (by rw [hlinks, if_neg hk])
  · rw [hself]
    exact fun m hm => hgrows.queues (h.queued id m hm)
  · rw [hself]
    intro m hm
    obtain ⟨hformed, heffective, hknown⟩ := h.taken id m hm
    exact ⟨hformed, heffective, fun op hop => hgrows.known (hknown op hop)⟩
  · refine
      { plain := hid
        enrolled := by rw [hpeer]; exact fun hr => absurd hr Bool.false_ne_true
        written := by rw [hlink]; exact fun m hm => Or.inr (Or.inl (hhello m hm))
        delivered := by rw [hlink]; exact Nat.zero_le _
        arrived := by rw [hlink]; exact fun _ hop => absurd hop List.not_mem_nil
        submitted := by rw [hpeer]; exact fun _ _ hop => absurd hop List.not_mem_nil
        attached := fun d hd => ?_ }
    obtain ⟨m, hm, hd⟩ := hd
    have htype := Message.type_of_opens hd
    rw [hnew] at hm
    rw [hhello m (List.mem_of_getElem? hm)] at htype
    cases htype

/-- **The next message of the server**, where it is not too long. -/
theorem Flowing.deliver (h : s.Flowing sha256) (hid : Plain id)
    (hfits : ∀ m, (s.peer id).sent[(s.link id).delivered]? = some m → m.Fits) :
    (s.deliver id).Flowing sha256 := by
  by_cases hconn : (s.network id).state.Connected
  case neg =>
    rw [System.deliver, if_neg hconn]
    exact h
  have hphased := h.phased.deliver id
  rw [System.deliver, if_pos hconn] at hphased ⊢
  cases hm : (s.server.connections (s.connection id)).sent[(s.link id).delivered]? with
  | none => exact h
  | some m =>
    simp only [hm] at hphased ⊢
    set l : Link := { s.link id with delivered := (s.link id).delivered + 1 } with hl
    set u := s.setLink (s.connection id) l with hu
    set handler : NetworkClient → NetworkClient := (·.receive m.serialize) with hhandler
    have hkept := h.phased.kept (s.connection id)
    obtain ⟨htakes, -⟩ := (h.phased.stage id).takes hconn hkept hm
    obtain ⟨-, haccepted, hstate⟩ := (s.client id).receive_spec htakes
    obtain ⟨houtgoing, hname, hqueued⟩ := (s.client id).receive_queues htakes (hfits m hm)
    have hnetwork := network_run u id handler
    have hsession := session_run u id handler
    have hpassable := h.sent _ m (List.mem_of_getElem? hm)
    have ho := h.online id hconn
    set t := u.run id handler with ht
    have hself : t.session id = { s.session id with
        incomingQueue := (handler (s.client id)).incoming } := by
      rw [hsession, if_pos rfl]
      change ({ s.session id with
        incomingQueue := (handler (s.client id)).incoming
        outgoingQueue := ((s.client id).receive m.serialize).outgoing } : EditorSession) = _
      rw [houtgoing]
      rfl
    have hnew : t.network id = handler (s.client id) := by
      rw [hnetwork, if_pos rfl]
      rfl
    have hlinks : ∀ k, t.links k = if k = s.connection id then l else s.links k := fun k => by
      have hnothing : (handler (u.client id)).accepted.map (·.2) =
          (u.network id).accepted.map (·.2) ++ [] := by
        change ((s.client id).receive m.serialize).accepted.map (·.2) = _
        rw [haccepted, List.append_nil]
        rfl
      rw [links_run u id handler hnothing, List.append_nil]
      change (if k = s.connection id then Function.update s.links (s.connection id) l k else
        Function.update s.links (s.connection id) l k) = _
      rw [ite_self, Function.update_apply]
    have hlink : t.link id = l := by
      change t.links (s.connection id) = l
      rw [hlinks, if_pos rfl]
    have hknown : u.Known := h.known.congr (fun _ => rfl) (fun _ => rfl) h.known.sound
      (fun _ _ => rfl) fun _ => rfl
    have hgrows : Grows s t := ⟨(grows_run u id handler).history, (grows_run u id handler).drawn⟩
    have hconn' : (t.network id).state.Connected := by
      rw [hnew]
      obtain he | ⟨-, he⟩ := hstate
      · exact (congrArg NetworkClientState.Connected he).mpr hconn
      · exact (congrArg NetworkClientState.Connected he).mpr (by decide)
    have hown : ∀ op ∈ m.payload.operations, op ∈ s.server.opened (s.connection id) := fun op hop =>
      h.relays.agreement.own _ op (List.mem_flatMap.2 ⟨m, List.mem_of_getElem? hm, hop⟩)
    -- what reached the queue is what was there and what the message carries
    have hincoming : ∀ m' ∈ (handler (s.client id)).incoming, m' ∈ (s.session id).incomingQueue ∨
        m'.Formed ∧ m'.effective = m'.payload.operations ∧
          m'.payload.operations = m.payload.operations := by
      obtain ⟨m', hm', he⟩ | ⟨-, he⟩ := hqueued
      · intro m'' hm''
        rw [hhandler, he] at hm''
        rcases List.mem_append.1 hm'' with hm'' | hm''
        · exact Or.inl hm''
        · exact Or.inr (List.mem_singleton.1 hm'' ▸ hpassable.read hm')
      · intro m'' hm''
        rw [hhandler, he] at hm''
        exact Or.inl hm''
    have hops : ∀ op, op ∈ operationsOf (handler (s.client id)).incoming ↔
        op ∈ operationsOf (s.session id).incomingQueue ∨ op ∈ m.payload.operations := by
      intro op
      obtain ⟨m', hm', he⟩ | ⟨hor, he⟩ := hqueued
      · rw [hhandler, he, operationsOf_append, List.mem_append, ← (hpassable.read hm').2.2]
        exact or_congr Iff.rfl (by simp [operationsOf])
      · rw [hhandler, he, hpassable.ops_eq_nil hor]
        exact (or_iff_left List.not_mem_nil).symm
    refine h.client id hphased (hknown.run hid handler) ?_ hgrows rfl (fun _ _ => rfl)
      (fun k hk => by rw [hnetwork, if_neg hk]; rfl)
      (fun k hk => by rw [hsession, if_neg hk]; rfl) (fun k => ?_) ?_ ?_ fun _ => ?_
    · rw [hnew]
      exact hname.trans (h.named id)
    · by_cases hk : k = s.connection id
      · refine Or.inr ⟨?_, hconn', hk.symm⟩
        rw [hlinks, if_pos hk, hk]
        exact List.prefix_rfl
      · exact Or.inl (by rw [hlinks, if_neg hk])
    · rw [hself]
      exact fun m' hm' => hgrows.queues (h.queued id m' hm')
    · rw [hself]
      intro m' hm'
      obtain hm' | ⟨hformed, heffective, he⟩ := hincoming m' hm'
      · obtain ⟨hformed, heffective, hops⟩ := h.taken id m' hm'
        exact ⟨hformed, heffective, fun op hop => hgrows.known (hops op hop)⟩
      · refine ⟨hformed, heffective, fun op hop => hgrows.known ?_⟩
        obtain ⟨d, -, hop⟩ := hown op (he ▸ hop)
        exact h.recorded d op hop
    · refine
        { plain := hid
          enrolled := ho.enrolled
          written := by rw [hlink]; exact fun m' hm' => hgrows.wires (ho.written m' hm')
          delivered := by rw [hlink]; exact (List.getElem?_eq_some_iff.1 hm).1
          arrived := fun op hop => ?_
          submitted := by rw [hself]; exact ho.submitted
          attached := fun d hd hs => ?_ }
      · rw [hself]
        rw [hlink] at hop
        change op ∈ operationsOf ((s.peer id).sent.take ((s.link id).delivered + 1)) at hop
        rw [List.take_add_one, operationsOf_append, List.mem_append] at hop
        obtain hop | hop := hop
        · exact (ho.arrived op hop).imp (fun ho => ho) fun ho => (hops op).2 (Or.inl ho)
        · refine Or.inr ((hops op).2 (Or.inr ?_))
          have hm : (s.peer id).sent[(s.link id).delivered]? = some m := hm
          rw [hm] at hop
          simpa [operationsOf] using hop
      · have hd : s.Asks (s.connection id) d := by
          refine Asks.mono hd ?_
          rw [hlinks, if_pos rfl]
          exact List.prefix_rfl
        have ha := ho.attached d hd hs
        refine
          { incoming := fun op hop => ?_
            passed := by rw [hself, hlink]; exact ha.passed }
        rw [hself] at hop
        obtain hop | hop := (hops op).1 hop
        · exact ha.incoming op hop
        · -- what is sent is recorded for the document that the client asked for
          obtain ⟨d', hd', hop⟩ := hown op hop
          exact (h.asked _ d' hs hd').unique hd ▸ hop

end System

end CrdtEditor
