import CrdtEditor.Foundations.Run
import CrdtEditor.Persistence.Growth
import CrdtEditor.Server.Agreement
import CrdtEditor.Server.Protocol

/-!
# Server/Sizes — what the server sends and what a reader accepts

`frame_message` takes any body that a 32-bit length describes; both readers refuse one longer than
`MAX_MESSAGE_SIZE`.  A message the server passes on was read within that limit, but a
`SYNC_RESPONSE` is as long as the history of its document.

`admitted_along`: with histories, pending operations and cursors that fit, every message fits and
every document opens.  `unopened_after_operation`: one operation of the largest size that arrives is
enough for a document that no client opens again.
-/

open scoped List

namespace CrdtEditor

open Text

/-- The body of the message is one that `start_read` accepts. -/
def Message.Fits (m : Message) : Prop := m.serialize.length ≤ maxMessageSize

instance : DecidablePred Message.Fits := fun m =>
  inferInstanceAs (Decidable (m.serialize.length ≤ maxMessageSize))

/-- The bytes of a history, a line an operation. -/
def historySize (ops : List Operation) : ℕ := (ops.map fun op => op.serialize.length + 1).sum

/-- A history is serialized line by line. -/
theorem length_serialize_history (ops : List Operation) :
    (MessagePayload.history ops).serialize.length = historySize ops := by
  rw [MessagePayload.serialize, List.length_flatMap, historySize]
  simp

/-- Its size does not depend on the order in which the database returns the rows. -/
theorem historySize_perm {ops ops' : List Operation} (h : ops ~ ops') :
    historySize ops = historySize ops' :=
  (h.map _).sum_eq

/-- A history is longer than each of its operations. -/
theorem lt_historySize {ops : List Operation} {op : Operation} (h : op ∈ ops) :
    op.serialize.length < historySize ops :=
  List.single_le_sum (fun _ _ => Nat.zero_le _) _ (List.mem_map.2 ⟨op, h, rfl⟩)

/-- The header of a `SYNC_RESPONSE` takes 21 bytes. -/
theorem length_syncResponse (ops : List Operation) :
    (⟨.syncResponse, str "server", .history ops⟩ : Message).serialize.length =
      21 + historySize ops := by
  rw [Message.serialize, ← length_serialize_history]
  simp only [List.length_append, List.length_cons]
  have h1 : MessageType.syncResponse.serialize.length = 13 := rfl
  have h2 : (str "server").length = 6 := rfl
  omega

/-- The header of an `OPERATION` takes 11 bytes and the id of its sender. -/
theorem length_operation (sender : Str) (op : Operation) :
    (⟨.operation, sender, .operation op⟩ : Message).serialize.length =
      11 + sender.length + op.serialize.length := by
  have h1 : MessageType.operation.serialize.length = 9 := rfl
  simp only [Message.serialize, MessagePayload.serialize, List.length_append, List.length_cons]
  omega

/-- That of a `CURSOR_UPDATE` takes 15 and the id. -/
theorem length_cursorUpdate (sender : Str) (position : ElementID) :
    (⟨.cursorUpdate, sender, .cursorUpdate position⟩ : Message).serialize.length =
      15 + sender.length + position.serialize.length := by
  have h1 : MessageType.cursorUpdate.serialize.length = 13 := rfl
  simp only [Message.serialize, MessagePayload.serialize, List.length_append, List.length_cons]
  omega

/-- Every text stored for the document decodes. -/
def SQLiteDatabase.Readable (db : SQLiteDatabase) (documentId : DocumentID) : Prop :=
  ∀ data ∈ db.rows documentId, (Operation.deserialize data).toBool = true

instance (db : SQLiteDatabase) (documentId : DocumentID) : Decidable (db.Readable documentId) :=
  inferInstanceAs (Decidable (∀ data ∈ db.rows documentId, _))

/-- **A readable document loads**, its rows in any order. -/
theorem SQLiteDatabase.Readable.load {db : SQLiteDatabase} {documentId : DocumentID}
    (h : db.Readable documentId) (order : RowOrder Str) :
    ∃ history, PersistentOperationLog.load db order documentId = .ok history ∧
      history ~ db.recorded documentId := by
  have hdecode : ∀ data ∈ db.getOperations order documentId,
      ∃ op, Operation.deserialize data = .ok op := fun data hdata => by
    have := h data ((order.perm _).subset hdata)
    cases hd : Operation.deserialize data with
    | ok op => exact ⟨op, rfl⟩
    | error e => rw [hd] at this; cases this
  have hload := Except.mapM_eq_ok_filterMap hdecode
  exact ⟨_, hload, PersistentOperationLog.perm_load hload⟩

namespace Server

/-! ## The condition -/

/-- Another client that is sent what `sender` says about the document. -/
def Hears (s : Server) (sender : ConnId) (documentId : DocumentID) (conn : ConnId) : Prop :=
  s.Peer sender documentId conn ∧ (s.connections conn).isLive

instance (s : Server) (sender : ConnId) (documentId : DocumentID) (conn : ConnId) :
    Decidable (s.Hears sender documentId conn) :=
  inferInstanceAs (Decidable (_ ∧ _))

/-- A message for the other live clients fits, if there are any. -/
def RelaysWithin (s : Server) (sender : ConnId) (message : Message) : Prop :=
  ∀ d ∈ (s.connections sender).currentDocument, ∀ e ∈ s.clients.entries,
    s.Hears sender d e.2 → message.Fits

/-- What a client that finishes its synchronization is sent: the operations that wait for it, and
the cursors of the clients that are live on its document. -/
def CatchesUpWithin (s : Server) (conn : ConnId) : Prop :=
  (∀ op ∈ s.pending (s.connections conn).clientId, 17 + op.serialize.length ≤ maxMessageSize) ∧
  ∀ d ∈ (s.connections conn).currentDocument, ∀ e ∈ s.presence.entries,
    ∀ other ∈ AList.lookup e.1 s.clients, (s.connections other).currentDocument = some d →
      (s.connections other).isLive → 15 + e.1.length + e.2.serialize.length ≤ maxMessageSize

/-- The document can be read back and its history fits into one message. -/
def OpensWithin (s : Server) (documentId : DocumentID) : Prop :=
  s.store.database.Readable documentId ∧ 21 + historySize (s.recorded documentId) ≤ maxMessageSize

/-- What has to fit when a message is handled. -/
def Within (s : Server) (conn : ConnId) (message : Message) : Prop :=
  match message.type with
  | .operation => (s.connections conn).isLive → s.RelaysWithin conn message
  | .cursorUpdate => (s.connections conn).isLive → s.RelaysWithin conn message
  | .syncComplete => (s.connections conn).isSyncing → s.CatchesUpWithin conn
  | .openDocument => (s.connections conn).isRegistered →
      (s.connections conn).currentDocument = none →
        ∀ d ∈ message.payload.getOpenDocument.toOption, s.OpensWithin d
  | _ => True

/-- **What has to fit** when an event happens. -/
def Bounded (s : Server) : Event → Prop
  | .receive conn body _ => ∀ message ∈ (Message.deserialize body).toOption, s.Within conn message
  | _ => True

instance RelaysWithin.decidable (s : Server) (sender : ConnId) (message : Message) :
    Decidable (s.RelaysWithin sender message) :=
  inferInstanceAs (Decidable (∀ d ∈ (s.connections sender).currentDocument, _))

instance CatchesUpWithin.decidable (s : Server) (conn : ConnId) :
    Decidable (s.CatchesUpWithin conn) :=
  inferInstanceAs (Decidable (_ ∧ ∀ d ∈ (s.connections conn).currentDocument, _))

instance OpensWithin.decidable (s : Server) (documentId : DocumentID) :
    Decidable (s.OpensWithin documentId) :=
  inferInstanceAs (Decidable (_ ∧ _))

instance Within.decidable (s : Server) (conn : ConnId) : DecidablePred (s.Within conn)
  | ⟨.operation, sender, payload⟩ =>
    inferInstanceAs (Decidable (_ → s.RelaysWithin conn ⟨.operation, sender, payload⟩))
  | ⟨.cursorUpdate, sender, payload⟩ =>
    inferInstanceAs (Decidable (_ → s.RelaysWithin conn ⟨.cursorUpdate, sender, payload⟩))
  | ⟨.syncComplete, _, _⟩ => inferInstanceAs (Decidable (_ → s.CatchesUpWithin conn))
  | ⟨.openDocument, _, payload⟩ => inferInstanceAs
      (Decidable (_ → _ → ∀ d ∈ payload.getOpenDocument.toOption, s.OpensWithin d))
  | ⟨.hello, _, _⟩ => .isTrue trivial
  | ⟨.helloAck, _, _⟩ => .isTrue trivial
  | ⟨.syncRequest, _, _⟩ => .isTrue trivial
  | ⟨.syncResponse, _, _⟩ => .isTrue trivial

instance Bounded.decidable (s : Server) : DecidablePred s.Bounded
  | .receive conn body _ =>
    inferInstanceAs (Decidable (∀ m ∈ (Message.deserialize body).toOption, s.Within conn m))
  | .disconnect _ => .isTrue trivial
  | .restart _ _ => .isTrue trivial

/-! ## The property -/

section

variable (sha256 : Str → Vector UInt8 32)

/-- A registered client that asks for a document the server has gets it. -/
def Opens (s : Server) : Event → Prop
  | .receive conn body order => body.length ≤ maxMessageSize →
    ∀ message ∈ (Message.deserialize body).toOption, message.type = .openDocument →
      (s.connections conn).isRegistered → (s.connections conn).currentDocument = none →
        ∀ d ∈ message.payload.getOpenDocument.toOption, d ∈ s.store.documents →
          ∃ history, history ~ s.recorded d ∧
            (s.step sha256 (.receive conn body order)).connections conn =
              { s.connections conn with
                currentDocument := some d
                state := .syncing
                sent := (s.connections conn).sent ++
                  [⟨.syncResponse, str "server", .history history⟩] }
  | _ => True

/-- **What is sent is admitted**: every message of every connection fits, and who asks for a document
gets it. -/
structure Admits (s : Server) (e : Event) : Prop where
  fits : ∀ conn, ∀ message ∈ ((s.step sha256 e).connections conn).sent, message.Fits
  opens : s.Opens sha256 e

end

/-! ## What a handler sends -/

/-- From `s` to `t` the connections were sent only messages that fit, and nothing is out of place. -/
structure Gains (s t : Server) : Prop where
  sent : ∀ conn, ∀ m ∈ (t.connections conn).sent, m ∈ (s.connections conn).sent ∨ m.Fits
  filed : s.store.Filed → t.store.Filed
  enrolled : s.Enrolled → t.Enrolled

/-- From `s` to `t` nothing else happened either. -/
structure Emits (s t : Server) : Prop extends Gains s t where
  connections : ∀ conn, t.connections conn =
    { s.connections conn with sent := (t.connections conn).sent }
  clients : t.clients = s.clients
  presence : t.presence = s.presence
  store : t.store = s.store

variable {s t u : Server}

/-- A change that sends nothing and stores nothing. -/
theorem Gains.of_eq (hsent : ∀ conn, (t.connections conn).sent = (s.connections conn).sent)
    (hstore : t.store = s.store) (henrolled : s.Enrolled → t.Enrolled) : Gains s t where
  sent conn _ hm := Or.inl (hsent conn ▸ hm)
  filed h := hstore ▸ h
  enrolled := henrolled

/-- Doing nothing. -/
theorem gains_refl (s : Server) : Gains s s := .of_eq (fun _ => rfl) rfl id

theorem emits_refl (s : Server) : Emits s s :=
  ⟨gains_refl s, fun _ => rfl, rfl, rfl, rfl⟩

/-- One call after the other. -/
theorem Gains.trans (h : Gains s t) (h' : Gains t u) : Gains s u where
  sent conn m hm := (h'.sent conn m hm).elim (h.sent conn m) Or.inr
  filed hs := h'.filed (h.filed hs)
  enrolled hs := h'.enrolled (h.enrolled hs)

/-- A connection that stays as registered as it was, under its id. -/
theorem Gains.setConnection (h : Gains s t) {conn : ConnId} {c : ClientConnection}
    (hc : c.sent = (t.connections conn).sent) (hid : c.clientId = (t.connections conn).clientId)
    (hreg : c.isRegistered = (t.connections conn).isRegistered) : Gains s (t.setConnection conn c) := by
  refine h.trans (.of_eq (fun conn' => ?_) rfl fun ht => ht.rebase rfl fun conn' => ?_)
  · rw [connections_setConnection]
    split
    case isTrue he => rw [he, hc]
    case isFalse => rfl
  · rw [connections_setConnection]
    split
    case isTrue he => exact he ▸ ⟨hid, hreg⟩
    case isFalse => exact ⟨rfl, rfl⟩

/-- A disconnect keeps what was sent. -/
theorem Gains.disconnect (h : Gains s t) (conn : ConnId) : Gains s (t.disconnect conn) := by
  refine h.trans (.of_eq (fun conn' => ?_) (store_disconnect t conn) fun ht => ht.disconnect conn)
  rw [connections_disconnect]
  split
  case isTrue he => rw [he]
  case isFalse => rfl

/-- So does a refusal, which reports and disconnects. -/
theorem Gains.reject (h : Gains s t) (conn : ConnId) (report : Str) :
    Gains s (t.reject conn report) :=
  (h.trans (u := { t with violations := t.violations ++ [report] })
    (.of_eq (fun _ => rfl) rfl fun ht => ht.rebase rfl fun _ => ⟨rfl, rfl⟩)).disconnect conn

/-- **Sending a message that fits**, whatever the connection does with it. -/
theorem Emits.send (h : Emits s t) (conn : ConnId) {m : Message} (hm : m.Fits) :
    (t.send conn m).Ends (Emits s) (Emits s) := by
  refine ends_send (fun _ => ?_) (fun _ => h) fun _ => h
  refine
    { sent := fun conn' m' hm' => ?_
      filed := h.filed
      enrolled := fun hs => (h.enrolled hs).rebase rfl fun conn' => ?_
      connections := fun conn' => ?_
      clients := h.clients
      presence := h.presence
      store := h.store }
  · rw [connections_setConnection] at hm'
    split at hm'
    case isTrue he =>
      rcases List.mem_append.1 hm' with hm' | hm'
      · exact h.sent conn' m' (he ▸ hm')
      · exact Or.inr (List.mem_singleton.1 hm' ▸ hm)
    case isFalse => exact h.sent conn' m' hm'
  · rw [connections_setConnection]
    split
    case isTrue he => exact he ▸ ⟨rfl, rfl⟩
    case isFalse => exact ⟨rfl, rfl⟩
  · rw [connections_setConnection]
    split
    case isTrue he =>
      subst he
      rw [h.connections conn']
    case isFalse => exact h.connections conn'

/-- The same among other changes. -/
theorem Gains.send (h : Gains s t) (conn : ConnId) {m : Message} (hm : m.Fits) :
    (t.send conn m).Ends (Gains s) (Gains s) :=
  ((emits_refl t).send conn hm).imp (fun _ hu => h.trans hu.toGains) fun _ hu => h.trans hu.toGains

/-- Sending to one client after the other, up to the first exception. -/
theorem Emits.foldlM {β : Type} {f : Server → β → Except (Exn × Server) Server} {l : List β}
    (hf : ∀ b ∈ l, ∀ t, Emits s t → (f t b).Ends (Emits s) (Emits s)) (h : Emits s t) :
    (l.foldlM f t).Ends (Emits s) (Emits s) :=
  (Except.ends_foldlM (I := fun l' t => (∀ b ∈ l', b ∈ l) ∧ Emits s t)
    (fun b _ t ht => (hf b (ht.1 b List.mem_cons_self) t ht.2).imp
      (fun _ hu => ⟨fun b hb => ht.1 b (List.mem_cons_of_mem _ hb), hu⟩) fun _ hu => hu)
    ⟨fun _ hb => hb, h⟩).imp (fun _ ht => ht.2) fun _ ht => ht

/-! ## The handlers -/

/-- A `HELLO` is answered by `HELLO_ACK`, which fits. -/
theorem gains_registerClient (s : Server) {conn : ConnId} (hr : ¬ (s.connections conn).isRegistered)
    (clientId : Str) : (s.registerClient conn clientId).Ends (Gains s) (Gains s) := by
  rw [Server.registerClient]
  refine Except.ends_ite (fun _ => gains_refl s) fun hne => ?_
  refine Except.ends_ite (fun _ => gains_refl s) fun hfree => ?_
  have hack : (⟨.helloAck, str "server", .monostate⟩ : Message).Fits := by decide
  set c : ClientConnection := { s.connections conn with clientId := clientId, state := .registered }
  set t : Server := { s with
    clients := AList.insert clientId conn s.clients
    pendingSyncOperations := UMap.emplace s.pendingSyncOperations clientId []
    presence := UMap.emplace s.presence clientId rootId }
  have hst : Gains s (t.setConnection conn c) := by
    refine .of_eq (fun k => ?_) rfl fun hs => hs.register hr (c := c)
      (isRegistered_of_registered rfl) hne hfree rfl fun k => connections_setConnection t conn k c
    rw [connections_setConnection]
    split
    case isTrue he => rw [he]
    case isFalse => rfl
  exact Gains.send hst conn hack

/-- A client that becomes live is sent the cursors of the others. -/
theorem emits_sendPresence {conn : ConnId}
    (h : ∀ d ∈ (t.connections conn).currentDocument, ∀ e ∈ t.presence.entries,
      e.1 ≠ (t.connections conn).clientId →
      ∀ other ∈ AList.lookup e.1 t.clients, (t.connections other).currentDocument = some d →
        (t.connections other).isLive → (⟨.cursorUpdate, e.1, .cursorUpdate e.2⟩ : Message).Fits) :
    (t.sendPresence conn).Ends (Emits t) (Emits t) := by
  rw [Server.sendPresence]
  refine Except.ends_leaving_bind (fun d hd => ?_) (emits_refl t)
  refine Emits.foldlM (fun e he u hu => ?_) (emits_refl t)
  refine Except.ends_ite (fun _ => hu) fun hown => ?_
  rw [hu.connections conn] at hown
  cases ho : AList.lookup e.1 u.clients with
  | none => exact hu
  | some other =>
    refine Except.ends_ite (fun hother => hu.send conn ?_) fun _ => hu
    rw [hu.connections other] at hother
    exact h d (ClientConnection.getCurrentDocument_eq_ok.1 hd) e he hown other (hu.clients ▸ ho)
      hother.2 hother.1

/-- `SYNC_COMPLETE`: first the operations that wait for the client, then the cursors. -/
theorem gains_finishSync (henrolled : s.Enrolled) {conn : ConnId}
    (h : (s.connections conn).isSyncing → s.CatchesUpWithin conn) :
    (s.finishSync conn).Ends (Gains s) (Gains s) := by
  rw [Server.finishSync]
  refine Except.ends_ite (fun _ => gains_refl s) fun hs => ?_
  refine Except.ends_ite (fun _ => gains_refl s) fun _ => ?_
  obtain ⟨hpending, hpresence⟩ := h (not_not.1 hs)
  dsimp only
  cases hl : AList.lookup (s.connections conn).clientId s.pendingSyncOperations with
  | none => exact gains_refl s
  | some pending =>
    rw [Server.pending, UMap.bucket, hl, Option.getD_some] at hpending
    have hloop := (emits_refl s).foldlM (l := pending)
      (f := fun t operation => t.send conn ⟨.operation, str "server", .operation operation⟩)
      fun op hop t ht => ht.send conn (by
        rw [Message.Fits, length_operation]
        exact hpending op hop)
    refine (hloop.imp (fun _ ht => ht) fun _ ht => ht.toGains).bind fun t ht => ?_
    set u : Server := { t with
      pendingSyncOperations := AList.erase (s.connections conn).clientId t.pendingSyncOperations }
    have hu : Emits s u :=
      { ht with enrolled := fun hs => (ht.enrolled hs).rebase rfl fun _ => ⟨rfl, rfl⟩ }
    have hset : Gains s (u.setConnection conn { u.connections conn with state := .live }) :=
      hu.toGains.setConnection rfl rfl <| by
        have hsyncing : (u.connections conn).state = .syncing := by
          rw [hu.connections conn]
          exact of_decide_eq_true (not_not.1 hs)
        rw [isRegistered_of_syncing hsyncing]
        rfl
    refine (emits_sendPresence fun d hd e he hown other ho hdoc hlive => ?_).imp
      (fun _ hv => hset.trans hv.toGains) fun _ hv => hset.trans hv.toGains
    have hother : ∀ k, ((u.setConnection conn { u.connections conn with state := .live }).connections
        k).currentDocument = (s.connections k).currentDocument := fun k => by
      rw [connections_setConnection]
      split
      case isTrue hk => rw [hk, hu.connections conn]
      case isFalse => rw [hu.connections k]
    rw [hother] at hd hdoc
    rw [Message.Fits, length_cursorUpdate]
    have ho : AList.lookup e.1 s.clients = some other := hu.clients ▸ ho
    have hk : other ≠ conn := fun hk => by
      refine hown ?_
      rw [connections_setConnection_self, hu.connections conn]
      exact (henrolled.registered e.1 conn (hk ▸ ho)).1.symm
    rw [connections_setConnection, if_neg hk, hu.connections other] at hlive
    exact hpresence d hd e (hu.presence ▸ he) other ho hdoc hlive

/-- Sending to others changes nobody's document or state. -/
theorem Emits.hears (h : Emits s t) (sender : ConnId) (d : DocumentID) (conn : ConnId) :
    t.Hears sender d conn ↔ s.Hears sender d conn := by
  rw [Hears, Hears, Peer, Peer, h.connections conn]
  rfl

/-- The operation goes to the live clients on the document, and waits for those that synchronize. -/
theorem emits_routeMessage {sender : ConnId} {message : Message}
    (h : t.RelaysWithin sender message) :
    (t.routeMessage sender message).Ends (Emits t) (Emits t) := by
  rw [Server.routeMessage]
  refine Except.ends_leaving_bind (fun d hd => ?_) (emits_refl t)
  refine Except.ends_leaving_bind (fun operation _ => ?_) (emits_refl t)
  refine Emits.foldlM (fun e he u hu => ?_) (emits_refl t)
  rw [routeTo]
  refine Except.ends_ite (fun hpeer => ?_) fun _ => hu
  have hpush : ∀ pending, Emits t { u with pendingSyncOperations := pending } := fun pending =>
    { hu with enrolled := fun hs => (hu.enrolled hs).rebase rfl fun _ => ⟨rfl, rfl⟩ }
  refine Except.ends_ite (fun _ => hpush _) fun _ => ?_
  refine Except.ends_ite (fun hlive => hu.send e.2 ?_) fun _ => hu
  exact h d (ClientConnection.getCurrentDocument_eq_ok.1 hd) e he ((hu.hears sender d e.2).1 ⟨hpeer, hlive⟩)

/-- The cursor is recorded and relayed to the live clients on the document. -/
theorem gains_routeCursorUpdate {sender : ConnId} {message : Message}
    (h : s.RelaysWithin sender message) :
    (s.routeCursorUpdate sender message).Ends (Gains s) (Gains s) := by
  rw [Server.routeCursorUpdate]
  refine Except.ends_leaving_bind (fun d hd => ?_) (gains_refl s)
  refine Except.ends_leaving_bind (fun position _ => ?_) (gains_refl s)
  refine Except.ends_ite (fun _ => gains_refl s) fun _ => ?_
  set t : Server := { s with
    presence := AList.insert (s.connections sender).clientId position s.presence }
  have hst : Gains s t := .of_eq (fun _ => rfl) rfl fun hs => hs.rebase rfl fun _ => ⟨rfl, rfl⟩
  refine (Emits.foldlM (fun e he u hu => ?_) (emits_refl t)).imp
    (fun u hu => hst.trans hu.toGains) fun u hu => hst.trans hu.toGains
  refine Except.ends_ite (fun hpeer => hu.send e.2 ?_) fun _ => hu
  exact h d (ClientConnection.getCurrentDocument_eq_ok.1 hd) e he ((hu.hears sender d e.2).1 hpeer)

variable {sha256 : Str → Vector UInt8 32}

/-- An operation that the store refuses is not relayed. -/
theorem gains_applyAndRoute {sender : ConnId} {message : Message}
    (h : s.RelaysWithin sender message) :
    (s.applyAndRoute sha256 sender message).Ends (Gains s) (Gains s) := by
  rw [Server.applyAndRoute]
  refine Except.ends_leaving_bind (fun operation _ => ?_) (gains_refl s)
  refine Except.ends_leaving_bind (fun d _ => ?_) (gains_refl s)
  have hstored : ∀ store, (s.store.Filed → store.Filed) → Gains s { s with store := store } :=
    fun store hfiled => ⟨fun _ _ hm => Or.inl hm, hfiled, fun hs => hs.rebase rfl fun _ => ⟨rfl, rfl⟩⟩
  cases happ : s.store.applyOperation sha256 d operation with
  | error e =>
    refine hstored e.2 fun hs => ?_
    have := hs.applyOperation sha256 d operation
    rw [happ] at this
    exact this.filed
  | ok store =>
    have hfiled : s.store.Filed → store.Filed := fun hs => by
      have := hs.applyOperation sha256 d operation
      rw [happ] at this
      exact this.filed
    dsimp only
    set t := ({ s with store := store } : Server).setConnection sender { s.connections sender with
      submitted := (s.connections sender).submitted ++ [operation] }
    have hst : Gains s t := (hstored store hfiled).setConnection rfl rfl rfl
    have hdoc : ∀ k, (t.connections k).currentDocument = (s.connections k).currentDocument ∧
        (t.connections k).isLive = (s.connections k).isLive := fun k => by
      rw [connections_setConnection]
      split
      case isTrue hk => rw [hk]; exact ⟨rfl, rfl⟩
      case isFalse => exact ⟨rfl, rfl⟩
    have hroute : t.RelaysWithin sender message := fun d hd e he hhears => by
      rw [(hdoc sender).1] at hd
      rw [Hears, Peer, (hdoc e.2).1, (hdoc e.2).2] at hhears
      exact h d hd e he hhears
    exact (emits_routeMessage hroute).imp (fun u hu => hst.trans hu.toGains)
      fun u hu => hst.trans hu.toGains

/-! ## Opening a document -/

/-- The history a document is opened with, if it can be read back. -/
theorem OpensWithin.history {d : DocumentID} (h : s.OpensWithin d) (hfiled : s.store.Filed)
    {p : PersistentDocument} (hp : AList.lookup d s.store.documents = some p)
    (order : RowOrder Str) :
    ∃ history, p.getHistory s.store.database order = .ok history ∧ history ~ s.recorded d := by
  obtain ⟨history, hload, hperm⟩ := h.1.load order
  refine ⟨history, ?_, hperm⟩
  rw [PersistentDocument.getHistory, hfiled d p hp, hload]

/-- The history that `open_document` sends is the recorded one, in some order. -/
theorem OpensWithin.fits {d : DocumentID} (h : s.OpensWithin d) {history : List Operation}
    (hperm : history ~ s.recorded d) :
    (⟨.syncResponse, str "server", .history history⟩ : Message).Fits := by
  rw [Message.Fits, length_syncResponse, historySize_perm hperm]
  exact h.2

/-- `OPEN_DOCUMENT` sends the history, of a document that exists or that it creates. -/
theorem gains_openDocument (hfiled : s.store.Filed) (order : RowOrder Str) {conn : ConnId}
    {d : DocumentID} (h : s.OpensWithin d) :
    (s.openDocument order conn d).Ends (Gains s) (Gains s) := by
  rw [Server.openDocument]
  refine Except.ends_ite (fun _ => gains_refl s) fun _ => ?_
  refine Except.ends_ite (fun _ => gains_refl s) fun hr => ?_
  have hopened : ∀ store : DocumentStore, store.Filed →
      (∀ history, history ~ store.database.recorded d → history ~ s.recorded d) →
      (do
        let t : Server := { s with store := store }
        let p ← Except.leaving t (t.store.getDocument d)
        let history ← Except.leaving t (p.getHistory t.store.database order)
        let t := t.setConnection conn
          { t.connections conn with currentDocument := some d, state := .syncing }
        t.send conn ⟨.syncResponse, str "server", .history history⟩ :
          Except (Exn × Server) Server).Ends (Gains s) (Gains s) := fun store hstore hrecorded => by
    have hst : Gains s { s with store := store } :=
      ⟨fun _ _ hm => Or.inl hm, fun _ => hstore, fun hs => hs.rebase rfl fun _ => ⟨rfl, rfl⟩⟩
    refine Except.ends_leaving_bind (fun p hp => ?_) hst
    refine Except.ends_leaving_bind (fun history hhistory => ?_) hst
    have hlookup : AList.lookup d store.documents = some p := by
      rw [DocumentStore.getDocument] at hp
      cases hl : AList.lookup d store.documents with
      | none => rw [hl] at hp; cases hp
      | some q => rw [hl] at hp; rw [Except.ok.inj hp]
    rw [PersistentDocument.getHistory, hstore d p hlookup] at hhistory
    have hfits := h.fits (hrecorded history (PersistentOperationLog.perm_load hhistory))
    refine Gains.send (hst.setConnection ?_ ?_ ?_) conn hfits
    · rfl
    · rfl
    · exact (not_not.1 hr).symm
  split
  · exact hopened s.store hfiled fun _ hp => hp
  · refine Except.ends_leaving_bind (fun store hstore => ?_) (gains_refl s)
    obtain ⟨hstore, -, hrecorded⟩ := hfiled.createDocument hstore
    exact hopened store hstore fun history hp => by rwa [recorded, ← hrecorded d]

/-- **A document that can be read back opens.** -/
theorem openDocument_eq (hfiled : s.store.Filed) (order : RowOrder Str) {conn : ConnId}
    {d : DocumentID} (h : s.OpensWithin d) (hne : d ≠ []) (hr : (s.connections conn).isRegistered)
    (hd : d ∈ s.store.documents) :
    ∃ history, history ~ s.recorded d ∧
      s.openDocument order conn d = .ok (s.setConnection conn { s.connections conn with
        currentDocument := some d
        state := .syncing
        sent := (s.connections conn).sent ++
          [⟨.syncResponse, str "server", .history history⟩] }) := by
  obtain ⟨p, hp⟩ := UMap.mem_iff_lookup.1 hd
  obtain ⟨history, hhistory, hperm⟩ := h.history hfiled hp order
  refine ⟨history, hperm, ?_⟩
  have hsize : ¬ 2 ^ 32 ≤
      (⟨.syncResponse, str "server", .history history⟩ : Message).serialize.length := by
    have := h.fits hperm
    rw [Message.Fits, maxMessageSize] at this
    omega
  have hcontains : s.store.contains d = true := decide_eq_true hd
  simp only [Server.openDocument, if_neg hne, hr, hcontains, DocumentStore.getDocument_of_lookup hp,
    hhistory, Except.leaving, bind, Except.bind, pure, Except.pure, Server.send,
    ClientConnection.send, connections_setConnection_self, not_true_eq_false, if_false, if_true,
    reduceCtorEq, or_self, if_neg hsize, setConnection_setConnection]

/-! ## Runs -/

variable (sha256) in
/-- **One message**: each handler sends what `Within` bounds. -/
theorem gains_handle (hfiled : s.store.Filed) (henrolled : s.Enrolled) (order : RowOrder Str)
    {sender : ConnId} {message : Message} (h : s.Within sender message) :
    (s.handle sha256 order sender message).Ends (Gains s) (Gains s) := by
  have hreject : ∀ report, Gains s (s.reject sender report) := (gains_refl s).reject sender
  obtain ⟨type, from_, payload⟩ := message
  rw [Server.handle]
  cases type with
  | hello =>
    refine Except.ends_ite (fun _ => hreject _) fun hr => ?_
    exact ends_caught (gains_registerClient s hr from_) fun t ht => ht.disconnect sender
  | operation =>
    refine Except.ends_ite (fun _ => hreject _) fun hlive => ?_
    exact Except.ends_ite (fun _ => hreject _) fun _ => gains_applyAndRoute (h (not_not.1 hlive))
  | syncComplete => exact Except.ends_ite (fun _ => hreject _) fun _ => gains_finishSync henrolled h
  | cursorUpdate =>
    refine Except.ends_ite (fun _ => hreject _) fun hlive => ?_
    exact gains_routeCursorUpdate (h (not_not.1 hlive))
  | openDocument =>
    refine Except.ends_ite (fun _ => hreject _) fun hr => ?_
    refine Except.ends_ite (fun _ => hreject _) fun hdoc => ?_
    refine Except.ends_leaving_bind (fun d hd => ?_) (gains_refl s)
    have hopens : s.OpensWithin d :=
      h (not_not.1 hr) (not_not.1 hdoc) d (by rw [hd]; rfl)
    exact ends_caught (gains_openDocument hfiled order hopens) fun t ht => ht.disconnect sender
  | helloAck => exact hreject _
  | syncRequest => exact hreject _
  | syncResponse => exact hreject _

/-- **The invariant of a run**: what was sent fits, every document is filed under its id, and every client
under its own. -/
structure Fitting (s : Server) : Prop extends s.Enrolled where
  filed : s.store.Filed
  sent : ∀ conn, ∀ m ∈ (s.connections conn).sent, m.Fits

/-- Nothing was sent yet. -/
theorem fitting_start {store : DocumentStore} (h : store.Filed) : (start store).Fitting where
  __ := Enrolled.start store
  filed := h
  sent _ _ hm := absurd hm List.not_mem_nil

/-- What a handler did keeps the invariant. -/
theorem Fitting.gains (h : s.Fitting) (ht : Gains s t) : t.Fitting where
  __ := ht.enrolled h.toEnrolled
  filed := ht.filed h.filed
  sent conn m hm := (ht.sent conn m hm).elim (h.sent conn m) id

/-- **One event** keeps it, whatever its bytes. -/
theorem Fitting.step (h : s.Fitting) {e : Event} (he : s.Bounded e) : (s.step sha256 e).Fitting := by
  cases e with
  | disconnect conn => exact h.gains ((gains_refl s).disconnect conn)
  | restart documentOrder rowOrder =>
    rw [Server.step]
    cases hstore : DocumentStore.reopen s.store.database documentOrder rowOrder with
    | ok store => exact fitting_start (DocumentStore.filed_reopen hstore)
    | error e => exact h
  | receive conn body order =>
    rw [Server.step]
    split
    · exact h.gains ((gains_refl s).disconnect conn)
    · rw [receiveMessage]
      cases hm : Message.deserialize body with
      | error e => exact h.gains ((gains_refl s).disconnect conn)
      | ok message =>
        have hends := gains_handle sha256 h.filed h.toEnrolled order (he message (by rw [hm]; rfl))
        dsimp only
        cases hh : s.handle sha256 order conn message with
        | ok t => rw [hh] at hends; exact h.gains hends
        | error e => rw [hh] at hends; exact h.gains (Gains.disconnect hends conn)

/-- A document that is asked for has a name. -/
theorem ne_nil_of_deserialize {body : Str} {message : Message} {d : DocumentID}
    (h : Message.deserialize body = .ok message) (ht : message.type = .openDocument)
    (hd : message.payload.getOpenDocument = .ok d) : d ≠ [] := by
  obtain ⟨-, hp⟩ := Message.of_deserialize h
  rw [ht, Message.payloadOf] at hp
  split at hp
  case isTrue => simp [throw, throwThe, MonadExceptOf.throw, bind, Except.bind] at hp
  case isFalse hline =>
    rw [Message.token] at hp
    cases h2 : (split newline body)[2]? with
    | none => simp [h2, bind, Except.bind] at hp
    | some line =>
      simp only [h2, bind, Except.bind, pure, Except.pure] at hp
      rw [← Except.ok.inj hp] at hd
      obtain rfl := Except.ok.inj hd
      exact fun hnil => hline (Or.inr (by rw [h2, hnil]))

/-- **A client that asks gets the document**: the history can be read back and fits. -/
theorem opens_of_bounded (hfiled : s.store.Filed) {e : Event} (h : s.Bounded e) :
    s.Opens sha256 e := by
  cases e with
  | disconnect conn => trivial
  | restart documentOrder rowOrder => trivial
  | receive conn body order =>
    intro hlen message hm ht hr hdoc d hd hstored
    have hdec : Message.deserialize body = .ok message := Except.toOption_eq_some.1 hm
    have hget : message.payload.getOpenDocument = .ok d := Except.toOption_eq_some.1 hd
    have hwithin := h message hm
    rw [Within, ht] at hwithin
    obtain ⟨history, hperm, hopen⟩ := openDocument_eq hfiled order (hwithin hr hdoc d hd)
      (ne_nil_of_deserialize hdec ht hget) hr hstored
    refine ⟨history, hperm, ?_⟩
    rw [Server.step, if_neg (not_lt.2 hlen), receiveMessage]
    simp only [hdec, Server.handle, ht, hr, hdoc, hget, hopen, Except.leaving, bind, Except.bind,
      pure, Except.pure, not_true_eq_false, if_false, ne_eq, connections_setConnection_self]

/-- **Whatever is sent is admitted.**  In every run whose histories, waiting operations and cursors
fit, every message the server sends is one that the reader at the other end accepts, and every client
opens the document it asks for. -/
theorem admitted_along {events : List Event}
    (h : Along (step sha256) Bounded (start .empty) events) :
    Along (step sha256) (Admits sha256) (start .empty) events :=
  Along.of_invariant
    (fun _ _ hs he => ⟨⟨(hs.step he).sent, opens_of_bounded hs.filed he⟩, hs.step he⟩)
    (fitting_start DocumentStore.filed_empty) h

/-- The run of `sampleEvents`. -/
theorem admitted_along_sample :
    Along (step DocumentStore.sampleDigest) (Admits DocumentStore.sampleDigest) (start .empty)
      sampleEvents :=
  admitted_along (by decide +kernel)

/-! ## A document that no client opens again -/

/-- A document whose history is too long is sent with a message that is, or not at all. -/
theorem not_admits_of_lt {conn : ConnId} {body : Str} {order : RowOrder Str} {sender : Str}
    {d : DocumentID} (hlen : body.length ≤ maxMessageSize)
    (hdec : Message.deserialize body = .ok ⟨.openDocument, sender, .openDocument d⟩)
    (hr : (s.connections conn).isRegistered) (hdoc : (s.connections conn).currentDocument = none)
    (hd : d ∈ s.store.documents) (hsize : maxMessageSize < 21 + historySize (s.recorded d)) :
    ¬ s.Admits sha256 (.receive conn body order) := fun h => by
  obtain ⟨history, hperm, hconn⟩ :=
    h.opens hlen _ (Except.toOption_eq_some.2 hdec) rfl hr hdoc d rfl hd
  have hfits := h.fits conn ⟨.syncResponse, str "server", .history history⟩ (by
    rw [hconn]
    exact List.mem_append_right _ (List.mem_singleton_self _))
  rw [Message.Fits, length_syncResponse, historySize_perm hperm] at hfits
  omega

/-- `t` holds the operation; the other connections of `s` have neither come nor gone. -/
structure Gathers (s : Server) (sender : ConnId) (d : DocumentID) (operation : Operation)
    (t : Server) : Prop where
  others : ∀ k, k ≠ sender → (t.connections k).isRegistered = (s.connections k).isRegistered ∧
    (t.connections k).currentDocument = (s.connections k).currentDocument
  document : d ∈ t.store.documents
  recorded : operation ∈ t.recorded d

/-- Disconnecting the sender concerns neither the others nor the store. -/
theorem Gathers.disconnect {sender : ConnId} {d : DocumentID} {operation : Operation}
    (h : Gathers s sender d operation t) : Gathers s sender d operation (t.disconnect sender) := by
  have hstore := store_disconnect t sender
  refine ⟨fun k hk => ?_, hstore ▸ h.document, ?_⟩
  · rw [connections_disconnect, if_neg hk]
    exact h.others k hk
  · rw [Server.recorded, hstore]
    exact h.recorded

/-- **An operation that fits is recorded and relayed.** -/
theorem gathers_step (h : Relays sha256 s none Settled) (conn : ConnId) (sender : Str)
    {d : DocumentID} {operation : Operation} (order : RowOrder Str)
    (hfits : (⟨.operation, sender, .operation operation⟩ : Message).Fits)
    (hclean : (⟨.operation, sender, .operation operation⟩ : Message).Clean)
    (hlive : (s.connections conn).isLive) (hdoc : (s.connections conn).currentDocument = some d)
    (hnul : operation.Avoids nul) (hnone : s.store.database.rows d = []) :
    Gathers s conn d operation (s.step sha256 (.receive conn
      (⟨.operation, sender, .operation operation⟩ : Message).serialize order)) := by
  have hd := (h.served conn).document d hdoc
  have hrecorded : s.store.database.recorded d = [] := by
    rw [SQLiteDatabase.recorded, hnone, List.filterMap_nil]
  obtain ⟨store, happ, -, hdocs, -, hrec⟩ := h.store.applyOperation hd hclean.2.2 hnul
    (fun data hdata => by rw [hnone] at hdata; cases hdata) fun a b ha hb _ => by
      rw [hrecorded] at ha hb
      injection (ha.resolve_right List.not_mem_nil).trans (hb.resolve_right List.not_mem_nil).symm
  have hget : (s.connections conn).getCurrentDocument = .ok d :=
    ClientConnection.getCurrentDocument_eq_ok.2 hdoc
  set t := ({ s with store := store } : Server).setConnection conn { s.connections conn with
    submitted := (s.connections conn).submitted ++ [operation] } with ht
  have happly : s.handle sha256 order conn ⟨.operation, sender, .operation operation⟩ =
      t.routeMessage conn ⟨.operation, sender, .operation operation⟩ := by
    have hsome : (s.connections conn).currentDocument ≠ none := by simp [hdoc]
    rw [Server.handle, if_neg (not_not.2 hlive), if_neg hsome, Server.applyAndRoute]
    simp only [MessagePayload.getOperation, hget, happ, Except.leaving, bind, Except.bind, ht]
  have hgathers : ∀ u, Emits t u → Gathers s conn d operation u := fun u hu => by
    refine ⟨fun k hk => ?_, ?_, ?_⟩
    · rw [hu.connections k, ht, connections_setConnection, if_neg hk]
      exact ⟨rfl, rfl⟩
    · rw [hu.store]
      exact (hdocs d).2 hd
    · rw [Server.recorded, hu.store]
      exact (hrec d operation).2 (Or.inr ⟨rfl, rfl⟩)
  have hends : (t.routeMessage conn ⟨.operation, sender, .operation operation⟩).Ends
      (Emits t) (Emits t) := emits_routeMessage fun _ _ _ _ _ => hfits
  rw [Server.step, if_neg (not_lt.2 hfits), receiveMessage, Message.deserialize_serialize hclean]
  dsimp only
  rw [happly]
  cases hroute : t.routeMessage conn ⟨.operation, sender, .operation operation⟩ with
  | ok u => rw [hroute] at hends; exact hgathers u hends
  | error e => rw [hroute] at hends; exact (hgathers e.2 hends).disconnect

/-- Two clients, one of them live on `d`. -/
def meetingEvents : List Event :=
  [arrives 0 [str "HELLO", str "a", []],
   arrives 0 [str "OPEN_DOCUMENT", str "a", str "d"],
   arrives 0 [str "SYNC_COMPLETE", str "a", []],
   arrives 1 [str "HELLO", str "b", []]]

/-- The removal whose message is as long as a message may be. -/
def longRemoval : Operation := .remove ⟨⟨0, List.replicate (maxMessageSize - 21) (Char.toUInt8 'a')⟩⟩

/-- A removal is as long as the site of its target and nine bytes. -/
theorem length_serialize_remove (site : Str) :
    (Operation.remove ⟨⟨0, site⟩⟩).serialize.length = 9 + site.length := by
  have h1 : (str "REMOVE|").length = 7 := rfl
  have h2 : (decimal (0 : UInt64).toNat).length = 1 := by decide
  simp only [Operation.serialize, RemoveOperation.serialize, ElementID.serialize,
    List.length_append, List.length_cons]
  omega

/-- The message around it adds the twelve bytes that are missing. -/
theorem length_serialize_longRemoval : longRemoval.serialize.length = maxMessageSize - 12 := by
  rw [longRemoval, length_serialize_remove, List.length_replicate, maxMessageSize]

/-- Its site holds no other byte, so it has no newline and no NUL. -/
theorem longRemoval_avoids {c : UInt8} (hc : c ≠ Char.toUInt8 'a') : longRemoval.Avoids c :=
  fun site hsite => by
    rw [List.mem_singleton.1 hsite]
    exact fun hm => hc (List.eq_of_mem_replicate hm)

/-- **One operation of the largest size leaves a document that no client opens**: its history is ten
bytes longer than a reader accepts. -/
theorem unopened_after_operation :
    ¬ ∀ events, Along (step DocumentStore.sampleDigest) (Admits DocumentStore.sampleDigest)
      (start .empty) events := fun h => by
  have hrun := h (meetingEvents ++
    [.receive 0 (⟨.operation, str "a", .operation longRemoval⟩ : Message).serialize (.inserted Str),
     arrives 1 [str "OPEN_DOCUMENT", str "b", str "d"]])
  rw [along_append] at hrun
  set s := meetingEvents.foldl (step DocumentStore.sampleDigest) (start .empty) with hs
  have hrelays : Relays DocumentStore.sampleDigest s none Settled :=
    Along.invariant (fun s e hr he => Relays.step hr e he.1 he.2)
      (relays_start DocumentStore.sound_empty)
      (P := fun s e => Assumed DocumentStore.sampleDigest s e ∧ s.NulFree e) (by decide +kernel)
  have hlength : (⟨.operation, str "a", .operation longRemoval⟩ : Message).serialize.length =
      maxMessageSize := by
    rw [length_operation, length_serialize_longRemoval]
    rfl
  have hgathers := gathers_step (d := str "d") hrelays 0 (str "a") (.inserted Str) hlength.le
    ⟨by decide, longRemoval_avoids (by decide), longRemoval_avoids (by decide)⟩
    (by decide +kernel) (by decide +kernel) (longRemoval_avoids (by decide)) (by decide +kernel)
  obtain ⟨-, -, hadmits, -⟩ := hrun
  have hdec : Message.deserialize ([newline].intercalate [str "OPEN_DOCUMENT", str "b", str "d"]) =
      .ok ⟨.openDocument, str "b", .openDocument (str "d")⟩ := by decide +kernel
  refine not_admits_of_lt (by decide) hdec ?_ ?_ hgathers.document ?_ hadmits
  · rw [(hgathers.others 1 (by decide)).1]
    decide +kernel
  · rw [(hgathers.others 1 (by decide)).2]
    decide +kernel
  · have hlt := lt_historySize hgathers.recorded
    rw [length_serialize_longRemoval, maxMessageSize] at hlt
    rw [maxMessageSize]
    omega

end Server

end CrdtEditor
