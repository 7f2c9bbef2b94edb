import CrdtEditor.Server.Agreement
import CrdtEditor.Server.Failures
import CrdtEditor.Server.Registry

/-!
# Server/Protocol — what one message may change

A message is answered (`Answers`): its sender advances or is disconnected, live peers are sent the
message itself, clients that synchronize have its operation held back, and the record grows by it.  A
message that does not decode or that the sender's phase does not expect disconnects it and changes
nothing else.

All of this holds whatever the operations are and whichever calls to the database fail.
-/

open scoped List

namespace CrdtEditor

open Text

/-- The types a connection may send in each phase. -/
def ClientState.Expects : ClientState → MessageType → Prop
  | .unregistered, type => type = .hello
  | .registered, type => type = .openDocument
  | .syncing, type => type = .syncComplete
  | .live, type => type = .operation ∨ type = .cursorUpdate
  | .disconnected, _ => False

instance ClientState.Expects.decidable : ∀ state, DecidablePred (ClientState.Expects state)
  | .unregistered, _ => inferInstanceAs (Decidable (_ = _))
  | .registered, _ => inferInstanceAs (Decidable (_ = _))
  | .syncing, _ => inferInstanceAs (Decidable (_ = _))
  | .live, _ => inferInstanceAs (Decidable (_ ∨ _))
  | .disconnected, _ => inferInstanceAs (Decidable False)

/-- Only a live client sends operations and cursors. -/
theorem ClientState.live_of_expects {state : ClientState} {type : MessageType}
    (h : state.Expects type) (htype : type = .operation ∨ type = .cursorUpdate) : state = .live := by
  obtain rfl | rfl := htype <;> cases state <;> first | rfl | cases h

/-- Who sends anything but a `HELLO` is registered. -/
theorem ClientState.isRegistered_of_expects {c : ClientConnection} {type : MessageType}
    (h : c.state.Expects type) (htype : type ≠ .hello) : c.isRegistered := by
  rw [ClientConnection.isRegistered]
  cases hs : c.state <;> rw [hs] at h <;> first | rfl | exact absurd h htype | cases h

namespace ClientConnection

theorem getCurrentDocument_eq_ok {c : ClientConnection} {d : DocumentID} :
    c.getCurrentDocument = .ok d ↔ c.currentDocument = some d := by
  rw [getCurrentDocument]
  cases c.currentDocument <;> simp

/-- The connection after a message that is accepted. -/
def accept (c : ClientConnection) (message : Message) : ClientConnection :=
  match message.type, message.payload with
  | .hello, _ => { c with clientId := message.sender, state := .registered }
  | .openDocument, .openDocument d => { c with currentDocument := some d, state := .syncing }
  | .syncComplete, _ => { c with state := .live }
  | .operation, .operation op => { c with submitted := c.submitted ++ [op] }
  | _, _ => c

variable {c : ClientConnection} {m : Message}

theorem clientId_accept (c : ClientConnection) (m : Message) :
    (c.accept m).clientId = if m.type = .hello then m.sender else c.clientId := by
  obtain ⟨type, sender, payload⟩ := m
  cases type <;> cases payload <;> rfl

theorem document_accept {d : DocumentID} (h : (c.accept m).currentDocument = some d) :
    c.currentDocument = some d ∨ m.type = .openDocument ∧ m.payload = .openDocument d := by
  obtain ⟨type, sender, payload⟩ := m
  cases type with
  | openDocument =>
    cases payload with
    | openDocument d' => exact Or.inr ⟨rfl, congrArg _ (Option.some.inj h)⟩
    | _ => exact Or.inl h
  | operation => cases payload <;> exact Or.inl h
  | _ => exact Or.inl h

theorem submitted_accept {op : Operation} (h : op ∈ (c.accept m).submitted) :
    op ∈ c.submitted ∨ m.type = .operation ∧ m.payload = .operation op := by
  obtain ⟨type, sender, payload⟩ := m
  cases type with
  | operation =>
    cases payload with
    | operation op' =>
      obtain h | h := List.mem_append.1 h
      exacts [Or.inl h, Or.inr ⟨rfl, congrArg _ (List.mem_singleton.1 h).symm⟩]
    | _ => exact Or.inl h
  | openDocument => cases payload <;> exact Or.inl h
  | _ => exact Or.inl h

end ClientConnection

namespace Server

variable {sha256 : Str → Vector UInt8 32}

/-- A live client other than `c` on the same document. -/
def Neighbour (s : Server) (c : ClientConnection) (id : Str) : Prop :=
  id ≠ c.clientId ∧ ∃ other ∈ AList.lookup id s.clients, (s.connections other).state = .live ∧
    (s.connections other).currentDocument = c.currentDocument

instance (s : Server) (c : ClientConnection) : DecidablePred (s.Neighbour c) := fun _ =>
  inferInstanceAs (Decidable (_ ∧ ∃ other ∈ AList.lookup _ s.clients, _))

/-- A message of a synchronization that finishes: an operation that was held back, or the cursor of
another live client on the document. -/
def Caught (s : Server) (c : ClientConnection) (m : Message) : Prop :=
  (∃ op ∈ s.pending c.clientId, m = ⟨.operation, str "server", .operation op⟩) ∨
    ∃ id position, s.Neighbour c id ∧ AList.lookup id s.presence = some position ∧
      m = ⟨.cursorUpdate, id, .cursorUpdate position⟩

/-- What the sender of a message is sent in reply. -/
def Reply (s : Server) (c : ClientConnection) (message : Message) (ms : List Message) : Prop :=
  match message.type with
  | .hello => ms = [⟨.helloAck, str "server", .monostate⟩]
  | .openDocument => ∃ d history, message.payload = .openDocument d ∧
    ms = [⟨.syncResponse, str "server", .history history⟩] ∧ history.Perm (s.recorded d)
  | .syncComplete => ∀ m ∈ ms, s.Caught c m
  | _ => ms = []

/-- A sender that was cut off in the middle of an answer. -/
def Broken (s : Server) (c : ClientConnection) (message : Message) (c' : ClientConnection) : Prop :=
  ∃ ms, c'.sent = c.sent ++ ms ∧
    (ms = [] ∨ message.type = .syncComplete ∧ ∀ m ∈ ms, s.Caught c m)

/-- A sender whose message was accepted. -/
def Accepted (s : Server) (c : ClientConnection) (message : Message) (c' : ClientConnection) : Prop :=
  ∃ ms, c' = { c.accept message with sent := c.sent ++ ms } ∧ s.Reply c message ms

/-- A sender that was answered, or cut off and disconnected. -/
def Answered (s : Server) (c : ClientConnection) (message : Message) (c' : ClientConnection) : Prop :=
  c'.state = .disconnected ∧ s.Broken c message c' ∨ s.Accepted c message c'

/-- A live client with the document of the sender open. -/
def Live (s : Server) (conn k : ConnId) : Prop :=
  (s.connections k).state = .live ∧
    (s.connections k).currentDocument = (s.connections conn).currentDocument

instance (s : Server) (conn : ConnId) : DecidablePred (s.Live conn) := fun _ =>
  inferInstanceAs (Decidable (_ ∧ _))

/-- **What a handler changes** on the way, with `own` telling where the sender is. -/
structure Serves (s : Server) (conn : ConnId) (message : Message) (own : ClientConnection → Prop)
    (t : Server) : Prop where
  registry : t.Registry
  violations : t.violations = s.violations
  sender : own (t.connections conn)
  others : ∀ k, k ≠ conn → ∃ ms, t.connections k =
      { s.connections k with sent := (s.connections k).sent ++ ms } ∧
    ∀ m ∈ ms, m = message ∧ s.Live conn k ∧
      (message.type = .operation ∨ message.type = .cursorUpdate)
  pending : ∀ id, ∀ op ∈ t.pending id, op ∈ s.pending id ∨ op ∈ message.payload.operations
  kept : ∀ d, ∀ op ∈ s.recorded d, op ∈ t.recorded d
  added : ∀ d, ∀ op ∈ t.recorded d, op ∈ s.recorded d ∨
    ∃ operation d', message.type = .operation ∧ message.payload = .operation operation ∧
      operation.StoredAs op ∧ (s.connections conn).currentDocument = some d' ∧
      CText.ofStr d = CText.ofStr d'

/-- What a handler that returns changes. -/
abbrev Accepts (s : Server) (conn : ConnId) (message : Message) (t : Server) : Prop :=
  s.Serves conn message (s.Accepted (s.connections conn) message) t

/-- **What one message may change.** -/
abbrev Answers (s : Server) (conn : ConnId) (message : Message) (t : Server) : Prop :=
  s.Serves conn message (s.Answered (s.connections conn) message) t

/-- What a handler that throws leaves. -/
abbrev Breaks (s : Server) (conn : ConnId) (message : Message) (t : Server) : Prop :=
  s.Serves conn message (s.Broken (s.connections conn) message) t

variable {s t u : Server} {conn : ConnId} {message : Message} {own own' : ClientConnection → Prop}

theorem broken_refl (s : Server) (c : ClientConnection) (message : Message) :
    s.Broken c message c :=
  ⟨[], (List.append_nil _).symm, Or.inl rfl⟩

theorem serves_refl (h : s.Registry) (conn : ConnId) (message : Message)
    (hown : own (s.connections conn)) : s.Serves conn message own s where
  registry := h
  violations := rfl
  sender := hown
  others _ _ := ⟨[], by rw [List.append_nil], by simp⟩
  pending _ _ := Or.inl
  kept _ _ := id
  added _ _ := Or.inl

/-- A handler that throws on the spot breaks off. -/
theorem Registry.breaks (h : s.Registry) (conn : ConnId) (message : Message) :
    s.Breaks conn message s :=
  serves_refl h conn message (broken_refl s _ message)

theorem Serves.answers (h : s.Accepts conn message t) : s.Answers conn message t :=
  { h with sender := Or.inr h.sender }

theorem Serves.imp (h : s.Serves conn message own t) (hown : ∀ c, own c → own' c) :
    s.Serves conn message own' t :=
  { h with sender := hown _ h.sender }

/-- **Disconnecting the sender turns a broken answer into an answer.** -/
theorem Serves.disconnect (h : s.Breaks conn message t) : s.Answers conn message (t.disconnect conn) := by
  have hd := h.registry.disconnect conn
  have hrecorded : ∀ d, (t.disconnect conn).recorded d = t.recorded d := fun d => by
    rw [recorded, recorded, hd.store]
  refine
    { registry := hd.registry
      violations := hd.violations.trans h.violations
      sender := ?_
      others := fun k hk => ?_
      pending := fun id op hop => h.pending id op (hd.pending id op hop)
      kept := fun d op hop => hrecorded d ▸ h.kept d op hop
      added := fun d op hop => h.added d op (hrecorded d ▸ hop) }
  · rw [hd.connections, if_pos rfl]
    exact Or.inl ⟨rfl, h.sender⟩
  · rw [hd.connections, if_neg hk]
    exact h.others k hk

/-- The messages a handler sends: `mine` to the sender, its own message to live peers. -/
def Routes (s : Server) (conn : ConnId) (message : Message) (mine : Message → Prop) (k : ConnId)
    (m : Message) : Prop :=
  if k = conn then mine m
  else m = message ∧ s.Live conn k ∧
    (message.type = .operation ∨ message.type = .cursorUpdate)

/-- **Sending on.** -/
theorem Serves.passes {mine : Message → Prop} (h : s.Serves conn message own t)
    (hp : Passes (s.Routes conn message mine) (· ∈ message.payload.operations) t u)
    (hown : ∀ c ms, own c → (∀ m ∈ ms, mine m) → own' { c with sent := c.sent ++ ms }) :
    s.Serves conn message own' u := by
  refine
    { registry := hp.registry h.registry
      violations := hp.violations.trans h.violations
      sender := ?_
      others := fun k hk => ?_
      pending := fun id op hop => (hp.pending id op hop).elim (h.pending id op) Or.inr
      kept := fun d op hop => hp.recorded d ▸ h.kept d op hop
      added := fun d op hop => h.added d op (hp.recorded d ▸ hop) }
  · obtain ⟨ms, hms, hmine⟩ := hp.connections conn
    rw [hms]
    refine hown _ ms h.sender fun m hm => ?_
    have := hmine m hm
    rwa [Routes, if_pos rfl] at this
  · obtain ⟨ms, hms, hall⟩ := h.others k hk
    obtain ⟨ms', hms', hall'⟩ := hp.connections k
    refine ⟨ms ++ ms', by rw [hms', hms, List.append_assoc], fun m hm => ?_⟩
    rcases List.mem_append.mp hm with hm | hm
    · exact hall m hm
    · have := hall' m hm
      rwa [Routes, if_neg hk] at this

/-! ## Registering -/

/-- **A new client enters the registry.** -/
theorem Registry.register (h : s.Registry) (hr : ¬ (s.connections conn).isRegistered)
    {c : ClientConnection} (hs : c.state = .registered) (hd : c.currentDocument = none)
    (hne : c.clientId ≠ []) (hfree : c.clientId ∉ s.clients)
    (hclients : t.clients = AList.insert c.clientId conn s.clients)
    (hpending : t.pendingSyncOperations = AList.insert c.clientId [] s.pendingSyncOperations)
    (hpresence : t.presence = AList.insert c.clientId rootId s.presence) (hstore : t.store = s.store)
    (hconn : ∀ k, t.connections k = if k = conn then c else s.connections k) : t.Registry := by
  refine
    { h.toEnrolled.register hr (isRegistered_of_registered hs) hne hfree hclients hconn with
      presence := fun id => by
        rw [hpresence, hclients, AList.mem_insert, AList.mem_insert, h.presence]
      pendingClient := fun id hid => ?_
      pending := fun id k hl => ?_
      coherent := fun k => ?_
      stored := fun k d hd' => ?_
      filed := hstore ▸ h.filed }
  · rw [hpending] at hid
    rw [hclients]
    exact (AList.mem_insert _).mpr (((AList.mem_insert _).mp hid).imp (fun he => he) (h.pendingClient id))
  · rw [hpending, AList.mem_insert, hconn]
    rw [hclients, UMap.lookup_insert] at hl
    split at hl
    case isTrue he =>
      rw [if_pos (Option.some.inj hl).symm]
      simp [he, hs]
    case isFalse hid =>
      have hreg := h.registered id k hl
      rw [if_neg fun he : k = conn => hr (he ▸ hreg.2), h.pending id k hl]
      exact or_iff_right hid
  · rw [hconn]
    split
    · exact ⟨fun _ => hd, fun hor => by simp [hs] at hor⟩
    · exact h.coherent k
  · rw [hstore]
    rw [hconn] at hd'
    split at hd'
    · rw [hd] at hd'
      cases hd'
    · exact h.stored k d hd'

/-- **`HELLO`.** -/
theorem Registry.registerClient (h : s.Registry) (hu : (s.connections conn).state = .unregistered)
    (hm : message.type = .hello) :
    (s.registerClient conn message.sender).Ends (s.Accepts conn message) (s.Breaks conn message) := by
  have hbreaks := h.breaks conn message
  rw [Server.registerClient]
  refine Except.ends_ite (fun _ => hbreaks) fun hne => ?_
  refine Except.ends_ite (fun _ => hbreaks) fun hfree => ?_
  have hpending : message.sender ∉ s.pendingSyncOperations := fun hm =>
    hfree (h.pendingClient _ hm)
  have hpresence : message.sender ∉ s.presence := fun hm => hfree ((h.presence _).mp hm)
  have hr : ¬ (s.connections conn).isRegistered := by simp [isRegistered_iff, hu]
  rw [UMap.emplace_of_notMem hpending, UMap.emplace_of_notMem hpresence]
  set c : ClientConnection := { s.connections conn with
    clientId := message.sender
    state := .registered
    sent := (s.connections conn).sent ++ [⟨.helloAck, str "server", .monostate⟩] } with hc
  refine ends_send (fun _ => ?_) (fun hno => absurd ?_ hno) fun hlen => absurd hlen (by decide)
  · rw [setConnection_setConnection, connections_setConnection_self]
    refine
      { registry := h.register hr (c := c) rfl ((h.coherent conn).unopened (Or.inl hu)) hne hfree rfl
          rfl rfl rfl fun k => connections_setConnection _ conn k c
        violations := rfl
        sender := ?_
        others := fun k hk => ⟨[], ?_, by simp⟩
        pending := fun id op hop => Or.inl ?_
        kept := fun _ _ hop => hop
        added := fun _ _ => Or.inl }
    · rw [connections_setConnection_self]
      exact ⟨[⟨.helloAck, str "server", .monostate⟩], by simp [ClientConnection.accept, hm],
        by simp [Reply, hm]⟩
    · rw [connections_setConnection, if_neg hk, List.append_nil]
    · change op ∈ UMap.bucket (AList.insert message.sender [] s.pendingSyncOperations) id at hop
      rw [UMap.bucket_insert] at hop
      split at hop
      · cases hop
      · exact hop
  · rw [connections_setConnection_self]
    exact isRegistered_of_registered rfl

/-! ## Opening a document -/

/-- Replacing a connection by one under the same id, as registered and as live as it was. -/
theorem Registry.setConnection (h : s.Registry) {c : ClientConnection}
    (hid : c.clientId = (s.connections conn).clientId)
    (hreg : c.isRegistered = (s.connections conn).isRegistered)
    (hlive : c.state = .live ↔ (s.connections conn).state = .live) (hc : c.Coherent)
    (hstored : ∀ d, c.currentDocument = some d → d ∈ s.store.documents) :
    (s.setConnection conn c).Registry := by
  refine h.rebase rfl (fun _ => Iff.rfl) h.filed (fun conn' => ?_) (fun _ hid => hid)
    fun id conn' hl => ?_ <;> rw [connections_setConnection]
  · split
    case isTrue he =>
      subst he
      exact ⟨hid, hreg, hc, hstored⟩
    case isFalse => exact ⟨rfl, rfl, h.coherent conn', h.stored conn'⟩
  · refine (h.pending id conn' hl).trans (not_congr ?_)
    split
    case isTrue he => rw [hlive, he]
    case isFalse => exact Iff.rfl

/-- A store that kept its documents and whose records grew by the operation of the message. -/
theorem Registry.breaks_store (h : s.Registry) {store : DocumentStore} (hfiled : store.Filed)
    (hdocs : ∀ d ∈ s.store.documents, d ∈ store.documents)
    (hkept : ∀ d, ∀ op ∈ s.recorded d, op ∈ store.database.recorded d)
    (hadded : ∀ d, ∀ op ∈ store.database.recorded d, op ∈ s.recorded d ∨
      ∃ operation d', message.type = .operation ∧ message.payload = .operation operation ∧
        operation.StoredAs op ∧ (s.connections conn).currentDocument = some d' ∧
        CText.ofStr d = CText.ofStr d') :
    s.Breaks conn message { s with store := store } where
  registry := { h with
    stored := fun k d hd => hdocs d (h.stored k d hd)
    filed := hfiled }
  violations := rfl
  sender := broken_refl s _ message
  others k _ := ⟨[], by rw [List.append_nil], by simp⟩
  pending _ _ := Or.inl
  kept := hkept
  added := hadded

/-- **`OPEN_DOCUMENT`**: the client is sent the record of its document. -/
theorem Registry.openDocumentWith (h : s.Registry) (faults : Faults) (order : RowOrder Str)
    (hs : (s.connections conn).state = .registered) (hm : message.type = .openDocument)
    {d : DocumentID} (hp : message.payload = .openDocument d) :
    (s.openDocumentWith faults order conn d).Ends (s.Accepts conn message)
      (s.Breaks conn message) := by
  have hbreaks := h.breaks conn message
  rw [Server.openDocumentWith]
  refine Except.ends_ite (fun _ => hbreaks) fun _ => ?_
  refine Except.ends_ite (fun _ => hbreaks) fun _ => ?_
  -- the store the history is taken from
  have hbody : ∀ store, s.Breaks conn message { s with store := store } →
      (∀ d, store.database.recorded d = s.recorded d) →
      Except.Ends (s.Accepts conn message) (s.Breaks conn message) (do
        let s := { s with store := store }
        let p ← Except.leaving s (s.store.getDocument d)
        Except.leaving s (SQLiteDatabase.checkGetOperations faults)
        let history ← Except.leaving s (p.getHistory s.store.database order)
        let s := s.setConnection conn
          { s.connections conn with currentDocument := some d, state := .syncing }
        s.send conn ⟨.syncResponse, str "server", .history history⟩) := by
    intro store hstore hrecorded
    refine Except.ends_leaving_bind (fun p hp' => ?_) hstore
    refine Except.ends_leaving_bind (fun _ _ => ?_) hstore
    refine Except.ends_leaving_bind (fun history hhistory => ?_) hstore
    obtain ⟨hd, hpid⟩ : d ∈ store.documents ∧ p.documentId = d := by
      simp only [DocumentStore.getDocument] at hp'
      split at hp'
      case _ q hq =>
        obtain rfl := Except.ok.inj hp'
        exact ⟨UMap.mem_of_lookup hq, hstore.registry.filed d q hq⟩
      case _ => cases hp'
    have hperm : history.Perm (s.recorded d) := by
      rw [← hrecorded, ← hpid]
      exact PersistentOperationLog.perm_load hhistory
    -- the client is synchronizing, whatever was written to it
    have hserves : ∀ (own : ClientConnection → Prop) (sent : List Message),
        own { s.connections conn with currentDocument := some d, state := .syncing, sent := sent } →
        s.Serves conn message own (({ s with store := store } : Server).setConnection conn
          { s.connections conn with
            currentDocument := some d, state := .syncing, sent := sent }) := by
      intro own sent hown
      refine
        { registry := hstore.registry.setConnection rfl ?_ (by simp [hs])
            ⟨by simp, fun _ => ⟨d, rfl⟩⟩ fun d' hd' => Option.some.inj hd' ▸ hd
          violations := rfl
          sender := by rwa [connections_setConnection_self]
          others := fun k hk => ⟨[], ?_, by simp⟩
          pending := hstore.pending
          kept := hstore.kept
          added := hstore.added }
      · rw [isRegistered_of_syncing rfl]
        exact (isRegistered_of_registered hs).symm
      · rw [connections_setConnection, if_neg hk, List.append_nil]
    refine ends_send (fun _ => ?_) (fun hno => absurd ?_ hno) fun _ => ?_
    · rw [setConnection_setConnection, connections_setConnection_self]
      refine hserves _ _ ⟨[⟨.syncResponse, str "server", .history history⟩], ?_, ?_⟩
      · simp only [ClientConnection.accept, hm, hp]
      · simp only [Reply, hm]
        exact ⟨d, history, hp, rfl, hperm⟩
    · rw [connections_setConnection_self]
      exact isRegistered_of_syncing rfl
    · exact hserves _ _ ⟨[], (List.append_nil _).symm, Or.inl rfl⟩
  by_cases hexists : s.store.contains d = true
  · simp only [hexists, if_true, pure_bind]
    exact hbody s.store hbreaks fun _ => rfl
  · simp only [hexists, Bool.false_eq_true, if_false]
    refine Except.ends_leaving_bind (fun store hstore => ?_) hbreaks
    obtain hwith | ⟨e, hwith⟩ := DocumentStore.createDocumentWith_eq faults s.store d
    · rw [hwith] at hstore
      obtain ⟨hfiled, hdocs, hrecorded⟩ := h.filed.createDocument hstore
      refine hbody store (h.breaks_store hfiled (fun d' hd' => (hdocs d').mpr (Or.inr hd'))
        (fun d' op hop => ?_) fun d' op hop => Or.inl ?_) hrecorded
      · rw [hrecorded]
        exact hop
      · rwa [hrecorded] at hop
    · rw [hwith] at hstore
      cases hstore

/-! ## Finishing a synchronization -/

/-- A sender in a given phase that was sent what it missed. -/
def CaughtUp (s : Server) (c : ClientConnection) (state : ClientState) (c' : ClientConnection) :
    Prop :=
  ∃ ms, c' = { c with state := state, sent := c.sent ++ ms } ∧ ∀ m ∈ ms, s.Caught c m

theorem CaughtUp.append {c c' : ClientConnection} {state : ClientState} {ms : List Message}
    (h : s.CaughtUp c state c') (hms : ∀ m ∈ ms, s.Caught c m) :
    s.CaughtUp c state { c' with sent := c'.sent ++ ms } := by
  obtain ⟨ms', rfl, hms'⟩ := h
  refine ⟨ms' ++ ms, by rw [List.append_assoc], fun m hm => ?_⟩
  exact (List.mem_append.mp hm).elim (hms' m) (hms m)

/-- Who its neighbours are, a connection that changes its phase does not change. -/
theorem Enrolled.neighbour_congr (h : s.Enrolled) (hclients : t.clients = s.clients)
    (hid : (t.connections conn).clientId = (s.connections conn).clientId)
    (hdoc : (t.connections conn).currentDocument = (s.connections conn).currentDocument)
    (hothers : ∀ k, k ≠ conn → (t.connections k).state = (s.connections k).state ∧
      (t.connections k).currentDocument = (s.connections k).currentDocument) (id : Str) :
    t.Neighbour (t.connections conn) id ↔ s.Neighbour (s.connections conn) id := by
  rw [Neighbour, Neighbour, hid, hdoc, hclients]
  refine and_congr_right fun hne => exists_congr fun other => and_congr_right fun hother => ?_
  have hoc : other ≠ conn := fun he => hne (he ▸ (h.registered id other hother).1.symm)
  rw [(hothers other hoc).1, (hothers other hoc).2]

/-- The cursor of a live client on the document that a connection has open. -/
def Seen (s : Server) (conn : ConnId) (k : ConnId) (m : Message) : Prop :=
  k = conn ∧ ∃ id position, s.Neighbour (s.connections conn) id ∧
    AList.lookup id s.presence = some position ∧ m = ⟨.cursorUpdate, id, .cursorUpdate position⟩

/-- **`send_presence`** sends the cursors of peers and nothing else. -/
theorem passes_sendPresence {held : Operation → Prop} (s : Server) (conn : ConnId) :
    (s.sendPresence conn).Ends (Passes (s.Seen conn) held s) (Passes (s.Seen conn) held s) := by
  rw [Server.sendPresence]
  refine Except.ends_leaving_bind (fun d hd => ?_) (passes_refl s)
  refine Passes.foldlM (fun e he v hv => ?_) (passes_refl s)
  refine Except.ends_ite (fun _ => hv) fun hid => ?_
  rw [(hv.state conn).2.1] at hid
  rw [hv.clients]
  cases hother : AList.lookup e.1 s.clients with
  | none => exact hv
  | some other =>
    refine Except.ends_ite (fun hpeer => hv.send ?_) fun _ => hv
    obtain ⟨hstate, -, hdoc⟩ := hv.state other
    refine ⟨rfl, e.1, e.2, ⟨hid, other, hother, ?_, ?_⟩, UMap.mem_entries.mp he, rfl⟩
    · exact hstate ▸ by simpa [ClientConnection.isLive] using hpeer.1
    · exact (hdoc ▸ hpeer.2).trans (ClientConnection.getCurrentDocument_eq_ok.mp hd).symm

/-- A synchronizing client that becomes live. -/
def markLive (s : Server) (conn : ConnId) : Server :=
  ({ s with
    pendingSyncOperations :=
      AList.erase (s.connections conn).clientId s.pendingSyncOperations } : Server).setConnection conn
    { s.connections conn with state := .live }

/-- **A client that is live waits for nothing.** -/
theorem Registry.markLive (h : s.Registry) (hs : (s.connections conn).state = .syncing) :
    (s.markLive conn).Registry := by
  have hregistered := isRegistered_of_syncing hs
  refine h.rebase rfl (fun _ => Iff.rfl) h.filed (fun k => ?_)
    (fun id hid => (AList.mem_erase.mp hid).2) fun id k hl => ?_
  · rw [Server.markLive, connections_setConnection]
    split
    case isTrue he =>
      subst he
      exact ⟨rfl, (isRegistered_of_live rfl).trans hregistered.symm,
        ⟨by simp, fun _ => (h.coherent k).opened (Or.inl hs)⟩, h.stored k⟩
    case isFalse => exact ⟨rfl, rfl, h.coherent k, h.stored k⟩
  · change id ∈ AList.erase _ s.pendingSyncOperations ↔ _
    obtain ⟨rfl, hk⟩ := h.registered id k hl
    rw [AList.mem_erase, Server.markLive, connections_setConnection]
    split
    case isTrue he => exact iff_of_false (fun hno => hno.1 (by rw [he])) (by simp)
    case isFalse hne =>
      rw [h.pending _ k hl]
      exact and_iff_right (h.toEnrolled.clientId_ne hk hregistered hne)

/-- **`SYNC_COMPLETE`**: the client is sent what was held back, and the cursors of its peers. -/
theorem Registry.finishSync (h : s.Registry) (hs : (s.connections conn).state = .syncing)
    (hm : message.type = .syncComplete) :
    (s.finishSync conn).Ends (s.Accepts conn message) (s.Breaks conn message) := by
  obtain ⟨ops, hops⟩ := UMap.mem_iff_lookup.mp
    ((h.pending _ conn (h.client conn (isRegistered_of_syncing hs))).mpr (by simp [hs]))
  have hpending : s.pending (s.connections conn).clientId = ops := by
    rw [Server.pending, UMap.bucket, hops, Option.getD_some]
  have hbroken : ∀ state c', s.CaughtUp (s.connections conn) state c' →
      s.Broken (s.connections conn) message c' := by
    rintro state _ ⟨ms, rfl, hms⟩
    exact ⟨ms, rfl, Or.inr ⟨hm, hms⟩⟩
  have hserves : ∀ {state : ClientState} {t u : Server},
      s.Serves conn message (s.CaughtUp (s.connections conn) state) t →
      Passes (s.Routes conn message (s.Caught (s.connections conn)))
        (· ∈ message.payload.operations) t u →
      s.Serves conn message (s.CaughtUp (s.connections conn) state) u := fun ht hu =>
    ht.passes hu fun c ms hc hms => hc.append hms
  rw [Server.finishSync]
  refine Except.ends_ite (fun hno => absurd hno (by simp [ClientConnection.isSyncing, hs]))
    fun _ => ?_
  refine Except.ends_ite (fun _ => h.breaks conn message) fun _ => ?_
  simp only [hops]
  -- the operations held back are sent one by one
  have hsyncing : s.Serves conn message (s.CaughtUp (s.connections conn) .syncing) s :=
    serves_refl h conn message ⟨[], by rw [List.append_nil, ← hs], by simp⟩
  have hloop : (ops.foldlM
      (fun (t : Server) operation =>
        t.send conn ⟨.operation, str "server", .operation operation⟩) s).Ends
      (Passes (s.Routes conn message (s.Caught (s.connections conn)))
        (· ∈ message.payload.operations) s)
      (Passes (s.Routes conn message (s.Caught (s.connections conn)))
        (· ∈ message.payload.operations) s) := by
    refine Passes.foldlM (fun op hop t ht => ht.send ?_) (passes_refl s)
    rw [Routes, if_pos rfl]
    exact Or.inl ⟨op, hpending ▸ hop, rfl⟩
  refine (hloop.imp (fun _ ht => ht) fun t ht => (hserves hsyncing ht).imp (hbroken _)).bind
    fun t ht => ?_
  -- the client is live
  have htserves := hserves hsyncing ht
  obtain ⟨hstate, hid, hdoc⟩ := ht.state conn
  obtain ⟨ms, hc, hms⟩ := htserves.sender
  have hlive : s.Serves conn message (s.CaughtUp (s.connections conn) .live) (t.markLive conn) := by
    refine { htserves with
      registry := htserves.registry.markLive (hstate.trans hs)
      sender := ?_
      others := fun k hk => ?_
      pending := fun id op hop => htserves.pending id op ?_ }
    · rw [Server.markLive, connections_setConnection_self, hc]
      exact ⟨ms, rfl, hms⟩
    · rw [Server.markLive, connections_setConnection, if_neg hk]
      exact htserves.others k hk
    · change op ∈ UMap.bucket (AList.erase _ t.pendingSyncOperations) id at hop
      rw [UMap.bucket_erase] at hop
      split at hop
      case isTrue => cases hop
      case isFalse => exact hop
  rw [← hid]
  change ((t.markLive conn).sendPresence conn).Ends _ _
  -- and is sent the cursors of its peers
  have hself : (t.markLive conn).connections conn = { t.connections conn with state := .live } :=
    connections_setConnection_self _ _ _
  have hseen : ∀ k m, (t.markLive conn).Seen conn k m →
      s.Routes conn message (s.Caught (s.connections conn)) k m := by
    rintro k m ⟨rfl, id, position, hn, hlookup, rfl⟩
    rw [Routes, if_pos rfl]
    refine Or.inr ⟨id, position, (h.toEnrolled.neighbour_congr (t := t.markLive k) ht.clients ?_ ?_
      (fun k' hk' => ?_) id).mp hn, ht.presence ▸ hlookup, rfl⟩
    · rw [hself, hid]
    · rw [hself, hdoc]
    · rw [Server.markLive, connections_setConnection, if_neg hk']
      exact ⟨(ht.state k').1, (ht.state k').2.2⟩
  refine (passes_sendPresence _ conn).imp (fun v hv => (hserves hlive (hv.mono hseen)).imp ?_)
    fun v hv => (hserves hlive (hv.mono hseen)).imp (hbroken _)
  rintro _ ⟨ms, rfl, hms⟩
  exact ⟨ms, by simp [ClientConnection.accept, hm], by simpa [Reply, hm] using hms⟩

/-! ## Routing -/

/-- A sender that is not written to. -/
theorem Serves.passes_routed {c : ClientConnection} (h : s.Serves conn message (· = c) t)
    (hp : Passes (s.Routes conn message fun _ => False) (· ∈ message.payload.operations) t u) :
    s.Serves conn message (· = c) u :=
  h.passes hp fun c' ms hc hms => by
    obtain rfl : ms = [] := List.eq_nil_iff_forall_not_mem.mpr hms
    rw [List.append_nil]
    exact hc

/-- The peers of a sender are live where the message is sent on. -/
theorem Serves.routes (h : s.Serves conn message own t) {k : ConnId} (hk : k ≠ conn)
    (hl : (t.connections k).isLive)
    (hd : (t.connections k).currentDocument = (s.connections conn).currentDocument)
    (hm : message.type = .operation ∨ message.type = .cursorUpdate) {mine : Message → Prop} :
    s.Routes conn message mine k message := by
  obtain ⟨ms, hms, -⟩ := h.others k hk
  rw [Routes, if_neg hk]
  rw [hms] at hl hd
  exact ⟨rfl, ⟨by simpa [ClientConnection.isLive] using hl, hd⟩, hm⟩

/-- **`OPERATION`**: recorded, applied and routed, or the sender is disconnected. -/
theorem Registry.applyAndRouteWith (h : s.Registry) (faults : Faults)
    (hm : message.type = .operation) :
    (s.applyAndRouteWith sha256 faults conn message).Ends (s.Accepts conn message)
      (s.Breaks conn message) := by
  have hbreaks := h.breaks conn message
  rw [Server.applyAndRouteWith]
  refine Except.ends_leaving_bind (fun operation hop => ?_) hbreaks
  refine Except.ends_leaving_bind (fun d hd => ?_) hbreaks
  have hp : message.payload = .operation operation := by
    cases hp : message.payload <;> rw [hp] at hop <;> cases hop
    rfl
  have hdoc : (s.connections conn).currentDocument = some d :=
    ClientConnection.getCurrentDocument_eq_ok.mp hd
  -- whatever the store is left as
  have hstore : (s.store.applyOperationWith sha256 faults d operation).Ends
      (fun store => s.Breaks conn message { s with store := store })
      (fun store => s.Breaks conn message { s with store := store }) := by
    have hextended : ∀ store, s.store.Extended store d operation →
        s.Breaks conn message { s with store := store } := fun store he => by
      refine h.breaks_store he.filed he.documents he.grown.kept fun d' op hop => ?_
      refine (he.grown.added d' op hop).imp_right fun hadded => ?_
      exact ⟨operation, d, hm, hp, hadded.2, hdoc, hadded.1⟩
    obtain hwith | ⟨e, hwith⟩ := DocumentStore.applyOperationWith_eq faults s.store d operation
    · rw [hwith]
      exact (h.filed.applyOperation sha256 d operation).imp hextended hextended
    · rw [hwith]
      exact hbreaks
  revert hstore
  cases s.store.applyOperationWith sha256 faults d operation with
  | error e => exact id
  | ok store =>
    intro hstore
    replace hstore : s.Breaks conn message { s with store := store } := hstore
    have hsubmitted : s.Serves conn message
        (· = { s.connections conn with submitted := (s.connections conn).submitted ++ [operation] })
        (({ s with store := store } : Server).setConnection conn
          { s.connections conn with
            submitted := (s.connections conn).submitted ++ [operation] }) :=
      { hstore with
        registry := hstore.registry.setConnection rfl rfl Iff.rfl
          ⟨(h.coherent conn).unopened, (h.coherent conn).opened⟩ (hstore.registry.stored conn)
        sender := connections_setConnection_self _ _ _
        others := fun k hk => ⟨[], by rw [connections_setConnection, if_neg hk, List.append_nil],
          by simp⟩ }
    dsimp only
    rw [Server.routeMessage]
    refine Except.Ends.imp (P := s.Serves conn message
        (· = { s.connections conn with submitted := (s.connections conn).submitted ++ [operation] }))
      (Q := s.Serves conn message
        (· = { s.connections conn with submitted := (s.connections conn).submitted ++ [operation] }))
      ?_ (fun u hu => hu.imp ?_) fun u hu => hu.imp ?_
    · refine Except.ends_leaving_bind (fun d' hd' => ?_) hsubmitted
      rw [connections_setConnection_self, ClientConnection.getCurrentDocument_eq_ok] at hd'
      refine Except.ends_leaving_bind (fun op hop' => ?_) hsubmitted
      obtain rfl : operation = op := Except.ok.inj (hop.symm.trans hop')
      refine Except.Ends.imp
        (P := Passes (s.Routes conn message fun _ => False) (· ∈ message.payload.operations) _)
        (Q := Passes (s.Routes conn message fun _ => False) (· ∈ message.payload.operations) _)
        (Passes.foldlM (fun e he v hv => ?_) (passes_refl _))
        (fun v hv => hsubmitted.passes_routed hv) fun v hv => hsubmitted.passes_routed hv
      have hserves := hsubmitted.passes_routed hv
      rw [routeTo]
      refine Except.ends_ite (fun hpeer => ?_) fun _ => hv
      refine Except.ends_ite (fun hsyncing => ?_) fun _ => Except.ends_ite (fun hlive => ?_) fun _ => hv
      · have hclient : AList.lookup e.1 v.clients = some e.2 := by
          rw [hv.clients]
          exact UMap.mem_entries.mp he
        refine hv.push ((hserves.registry.pending _ _ hclient).mpr fun hl => ?_) ?_
        · simp [ClientConnection.isSyncing, hl] at hsyncing
        · rw [hp]
          exact List.mem_singleton_self _
      · exact hv.send (hserves.routes hpeer.1 hlive (hpeer.2.trans hd'.symm) (Or.inl hm))
    · rintro _ rfl
      refine ⟨[], ?_, by simp [Reply, hm]⟩
      simp [ClientConnection.accept, hm, hp]
    · rintro _ rfl
      exact ⟨[], (List.append_nil _).symm, Or.inl rfl⟩

/-- **`CURSOR_UPDATE`**: remembered and routed. -/
theorem Registry.routeCursorUpdate (h : s.Registry) (hm : message.type = .cursorUpdate) :
    (s.routeCursorUpdate conn message).Ends (s.Accepts conn message) (s.Breaks conn message) := by
  have hbreaks := h.breaks conn message
  rw [Server.routeCursorUpdate]
  refine Except.ends_leaving_bind (fun d hd => ?_) hbreaks
  refine Except.ends_leaving_bind (fun position _ => ?_) hbreaks
  refine Except.ends_ite (fun _ => hbreaks) fun hmem => ?_
  have hd := ClientConnection.getCurrentDocument_eq_ok.mp hd
  have hkeys : ∀ id, id ∈ AList.insert (s.connections conn).clientId position s.presence ↔
      id ∈ s.presence := fun id =>
    (AList.mem_insert _).trans ⟨fun hor => hor.elim (fun he => he ▸ not_not.mp hmem) fun hid => hid,
      Or.inr⟩
  have hmoved : s.Serves conn message (· = s.connections conn)
      { s with presence := AList.insert (s.connections conn).clientId position s.presence } :=
    { serves_refl h conn message rfl with
      registry := { h with presence := fun id => (hkeys id).trans (h.presence id) } }
  refine Except.Ends.imp (P := s.Serves conn message (· = s.connections conn))
    (Q := s.Serves conn message (· = s.connections conn)) ?_
    (fun u hu => hu.imp ?_) fun u hu => hu.imp ?_
  · refine Except.Ends.imp
      (P := Passes (s.Routes conn message fun _ => False) (· ∈ message.payload.operations) _)
      (Q := Passes (s.Routes conn message fun _ => False) (· ∈ message.payload.operations) _)
      (Passes.foldlM (fun e he v hv => ?_) (passes_refl _))
      (fun v hv => hmoved.passes_routed hv) fun v hv => hmoved.passes_routed hv
    refine Except.ends_ite (fun hpeer => ?_) fun _ => hv
    exact hv.send ((hmoved.passes_routed hv).routes hpeer.1.1 hpeer.2 (hpeer.1.2.trans hd.symm)
      (Or.inr hm))
  · rintro _ rfl
    exact ⟨[], by simp [ClientConnection.accept, hm], by simp [Reply, hm]⟩
  · rintro _ rfl
    exact broken_refl s _ message

/-! ## One message -/

variable (sha256) in
/-- What a message brings about: an answer, or the end of its connection. -/
theorem Registry.handleWith (h : s.Registry) (faults : Faults) (order : RowOrder Str)
    (hexpects : (s.connections conn).state.Expects message.type) :
    (s.handleWith sha256 faults order conn message).Ends (s.Answers conn message)
      (s.Breaks conn message) := by
  have hcoherent := h.coherent conn
  have hanswers : ∀ t, s.Accepts conn message t → s.Answers conn message t := fun _ ht => ht.answers
  have hbreaks : ∀ t, s.Breaks conn message t → s.Breaks conn message t := fun _ ht => ht
  rw [Server.handleWith]
  cases hs : (s.connections conn).state with
  | disconnected => rw [hs] at hexpects; exact hexpects.elim
  | unregistered =>
    have hm : message.type = .hello := by rwa [hs] at hexpects
    simp only [hm, Server.handle]
    refine Except.ends_ite (fun hno => absurd (isRegistered_iff.mp hno) (by simp [hs])) fun _ => ?_
    exact ends_caught ((h.registerClient hs hm).imp hanswers hbreaks) fun t ht => ht.disconnect
  | registered =>
    have hm : message.type = .openDocument := by rwa [hs] at hexpects
    simp only [hm]
    refine Except.ends_ite (fun hno => absurd (isRegistered_of_registered hs) hno) fun _ => ?_
    refine Except.ends_ite (fun hno => absurd (hcoherent.unopened (Or.inr hs)) hno) fun _ => ?_
    refine Except.ends_leaving_bind (fun d hd => ?_) (h.breaks conn message)
    have hp : message.payload = .openDocument d := by
      cases hp : message.payload <;> rw [hp] at hd <;> cases hd
      rfl
    exact ends_caught ((h.openDocumentWith faults order hs hm hp).imp hanswers hbreaks)
      fun t ht => ht.disconnect
  | syncing =>
    have hm : message.type = .syncComplete := by rwa [hs] at hexpects
    simp only [hm, Server.handle]
    refine Except.ends_ite (fun hno => absurd hno (by simp [ClientConnection.isSyncing, hs]))
      fun _ => ?_
    exact (h.finishSync hs hm).imp hanswers hbreaks
  | live =>
    rw [hs] at hexpects
    obtain hm | hm := hexpects
    · simp only [hm]
      refine Except.ends_ite (fun hno => absurd hno (by simp [ClientConnection.isLive, hs]))
        fun _ => ?_
      refine Except.ends_ite (fun hno => ?_) fun _ => ?_
      · obtain ⟨d, hd⟩ := hcoherent.opened (Or.inr hs)
        rw [hd] at hno
        cases hno
      · exact (h.applyAndRouteWith faults hm).imp hanswers hbreaks
    · simp only [hm, Server.handle]
      refine Except.ends_ite (fun hno => absurd hno (by simp [ClientConnection.isLive, hs]))
        fun _ => ?_
      exact (h.routeCursorUpdate hm).imp hanswers hbreaks

variable (sha256) in
/-- A message out of turn is reported and its connection ended. -/
theorem Registry.handleWith_of_not_expects (h : s.Registry) (faults : Faults)
    (order : RowOrder Str) (hs : (s.connections conn).state ≠ .disconnected)
    (hexpects : ¬ (s.connections conn).state.Expects message.type) :
    ∃ report, s.handleWith sha256 faults order conn message = .ok (s.reject conn report) := by
  have hcoherent := h.coherent conn
  have hopened : (s.connections conn).state = .syncing ∨ (s.connections conn).state = .live →
      (s.connections conn).currentDocument ≠ none := fun hor hno => by
    obtain ⟨d, hd⟩ := hcoherent.opened hor
    rw [hno] at hd
    cases hd
  cases hstate : (s.connections conn).state <;> rw [hstate] at hexpects hs hopened <;>
    cases hm : message.type <;> rw [hm] at hexpects <;>
    simp [ClientState.Expects] at hexpects hs hopened <;>
    exact ⟨_, by
      simp [Server.handleWith, Server.handle, hm, ClientConnection.isRegistered,
        ClientConnection.isLive, ClientConnection.isSyncing, hstate, hopened, pure, Except.pure]
      first | done | rfl⟩

/-- What a received body brings about. -/
inductive Outcome (s : Server) (conn : ConnId) (body : Str) (t : Server) : Prop
  /-- A message in its turn. -/
  | answered (message : Message) (size : body.length ≤ maxMessageSize)
    (decoded : Message.deserialize body = .ok message)
    (expected : (s.connections conn).state.Expects message.type) (answers : s.Answers conn message t)
  /-- A message out of turn, reported. -/
  | rejected (message : Message) (size : body.length ≤ maxMessageSize)
    (decoded : Message.deserialize body = .ok message)
    (unexpected : ¬ (s.connections conn).state.Expects message.type) (report : Str)
    (drops : Drops { s with violations := s.violations ++ [report] } conn t)
  /-- A body that is too long or does not decode. -/
  | dropped (undecoded : maxMessageSize < body.length ∨ ∃ e, Message.deserialize body = .error e)
    (drops : Drops s conn t)

theorem Registry.with_violations (h : s.Registry) (reports : List Str) :
    Registry { s with violations := reports } :=
  { h with }

variable (sha256) in
/-- **A body that arrives is a message in its turn, or ends its connection.** -/
theorem Registry.outcome (h : s.Registry) (faults : Faults)
    (hs : (s.connections conn).state ≠ .disconnected) (body : Str) (order : RowOrder Str) :
    s.Outcome conn body (s.stepWith sha256 faults (.receive conn body order)) := by
  rw [stepWith]
  split
  case isTrue hlen => exact .dropped (Or.inl hlen) (h.disconnect conn)
  case isFalse hlen =>
    rw [receiveMessageWith]
    cases hm : Message.deserialize body with
    | error e => exact .dropped (Or.inr ⟨e, hm⟩) (h.disconnect conn)
    | ok message =>
      by_cases hexpects : (s.connections conn).state.Expects message.type
      · have hends := h.handleWith sha256 faults order hexpects
        revert hends
        dsimp only
        cases s.handleWith sha256 faults order conn message with
        | ok t => exact fun ht => .answered message (not_lt.mp hlen) hm hexpects ht
        | error e => exact fun ht => .answered message (not_lt.mp hlen) hm hexpects ht.disconnect
      · obtain ⟨report, hreport⟩ := h.handleWith_of_not_expects sha256 faults order hs hexpects
        simp only [hreport]
        exact .rejected message (not_lt.mp hlen) hm hexpects report
          ((h.with_violations _).disconnect conn)

/-- Whatever arrives keeps the registry. -/
theorem Outcome.registry {body : Str} (h : s.Outcome conn body t) : t.Registry := by
  obtain ⟨message, _, _, _, h⟩ | ⟨message, _, _, _, report, h⟩ | ⟨_, h⟩ := h <;> exact h.registry

/-- **A connection that is not ended** was at most sent to, or its message was accepted. -/
theorem Outcome.connections_of_ne {body : Str} (h : s.Outcome conn body t) {k : ConnId}
    (hk : (t.connections k).state ≠ .disconnected) : ∃ ms,
    k ≠ conn ∧ t.connections k = { s.connections k with sent := (s.connections k).sent ++ ms } ∨
      k = conn ∧ ∃ m, Message.deserialize body = .ok m ∧ (s.connections k).state.Expects m.type ∧
        t.connections k =
          { (s.connections k).accept m with sent := (s.connections k).sent ++ ms } := by
  have hdrops : ∀ {u : Server}, Drops u conn t → u.connections = s.connections → k ≠ conn ∧
      t.connections k = { s.connections k with sent := (s.connections k).sent ++ [] } :=
    fun hd hu => by
      have he := hd.connections k
      rw [hu] at he
      split at he
      case isTrue => rw [he] at hk; exact absurd rfl hk
      case isFalse hne => exact ⟨hne, by rw [he, List.append_nil]⟩
  obtain ⟨m, -, hdec, hexpects, hanswers⟩ | ⟨_, -, -, -, _, hd⟩ | ⟨-, hd⟩ := h
  · by_cases he : k = conn
    · subst he
      obtain ⟨hd, -⟩ | ⟨ms, hc, -⟩ := hanswers.sender
      · exact absurd hd hk
      · exact ⟨ms, Or.inr ⟨rfl, m, hdec, hexpects, hc⟩⟩
    · obtain ⟨ms, hms, -⟩ := hanswers.others k he
      exact ⟨ms, Or.inl ⟨he, hms⟩⟩
  · exact ⟨[], Or.inl (hdrops hd rfl)⟩
  · exact ⟨[], Or.inl (hdrops hd rfl)⟩

/-- What a body that arrives makes the server send. -/
theorem Outcome.sent {body : Str} (h : s.Outcome conn body t) (k : ConnId) : ∃ ms,
    (t.connections k).sent = (s.connections k).sent ++ ms ∧ ∀ m ∈ ms, ∃ message,
      Message.deserialize body = .ok message ∧ (s.connections conn).state.Expects message.type ∧
        (m = message ∧ (m.type = .operation ∨ m.type = .cursorUpdate) ∨
          ∃ ms', s.Reply (s.connections conn) message ms' ∧ m ∈ ms') := by
  have hnone : (t.connections k).sent = (s.connections k).sent → ∃ ms,
      (t.connections k).sent = (s.connections k).sent ++ ms ∧ ∀ m ∈ ms, ∃ message,
        Message.deserialize body = .ok message ∧ (s.connections conn).state.Expects message.type ∧
          (m = message ∧ (m.type = .operation ∨ m.type = .cursorUpdate) ∨
            ∃ ms', s.Reply (s.connections conn) message ms' ∧ m ∈ ms') :=
    fun he => ⟨[], by rw [he, List.append_nil], by simp⟩
  obtain ⟨message, -, hdec, hexpects, hanswers⟩ | ⟨_, -, -, -, _, hd⟩ | ⟨-, hd⟩ := h
  · by_cases he : k = conn
    · subst he
      obtain ⟨-, ms, hsent, rfl | ⟨hsync, hcaught⟩⟩ | ⟨ms, hc, hreply⟩ := hanswers.sender
      · exact hnone (by rw [hsent, List.append_nil])
      · refine ⟨ms, hsent, fun m hm => ⟨message, hdec, hexpects, Or.inr ⟨ms, ?_, hm⟩⟩⟩
        rw [Reply, hsync]
        exact hcaught
      · exact ⟨ms, by rw [hc], fun m hm => ⟨message, hdec, hexpects, Or.inr ⟨ms, hreply, hm⟩⟩⟩
    · obtain ⟨ms, hms, hall⟩ := hanswers.others k he
      refine ⟨ms, by rw [hms], fun m hm => ⟨message, hdec, hexpects, Or.inl ?_⟩⟩
      obtain ⟨rfl, -, htype⟩ := hall m hm
      exact ⟨rfl, htype⟩
  all_goals
    refine hnone ?_
    rw [hd.connections]
    split
    case isTrue he => rw [he]
    case isFalse => rfl

/-- What a body that arrives adds to the record. -/
theorem Outcome.recorded {body : Str} (h : s.Outcome conn body t) (d : DocumentID) :
    (∀ op ∈ s.recorded d, op ∈ t.recorded d) ∧ ∀ op ∈ t.recorded d, op ∈ s.recorded d ∨
      ∃ m operation, Message.deserialize body = .ok m ∧ m.type = .operation ∧
        m.payload = .operation operation ∧ operation.StoredAs op := by
  have hdrops : t.store = s.store → t.recorded d = s.recorded d := fun he => by
    rw [Server.recorded, Server.recorded, he]
  obtain ⟨m, -, hdec, -, hanswers⟩ | ⟨_, -, -, -, _, hd⟩ | ⟨-, hd⟩ := h
  · refine ⟨hanswers.kept d, fun op hop => (hanswers.added d op hop).imp (fun ho => ho) ?_⟩
    rintro ⟨operation, -, htype, hp, hstored, -⟩
    exact ⟨m, operation, hdec, htype, hp, hstored⟩
  all_goals
    rw [hdrops hd.store]
    exact ⟨fun _ hop => hop, fun _ => Or.inl⟩

end Server

end CrdtEditor
