import CrdtEditor.Server.Enrolled

/-!
# Server/Relay — the relay loses no operation and leaks none

An operation reaches a client by one of three ways: in the history it is answered with, through
`pendingSyncOperations` while it syncs, or routed once it is live.  `Relays` says that for every
connection these ways cover the record of its document, up to the operations still *owed* to it in
the middle of routing, and that nothing else was sent.  Its frame rules say what a handler may change.
-/

open scoped List

namespace CrdtEditor

open Text

/-- The operations a connection was sent. -/
def ClientConnection.operationsSent (c : ClientConnection) : List Operation :=
  c.sent.flatMap fun m => m.payload.operations

/-- The operations of the histories a connection was sent. -/
def ClientConnection.historySent (c : ClientConnection) : List Operation :=
  (c.sent.filter fun m => m.type = .syncResponse).flatMap fun m => m.payload.operations

namespace Server

/-- The operations waiting for a client to finish its synchronization. -/
def pending (s : Server) (clientId : Str) : List Operation :=
  UMap.bucket s.pendingSyncOperations clientId

/-- The operations recorded for a document. -/
def recorded (s : Server) (documentId : DocumentID) : List Operation :=
  s.store.database.recorded documentId

/-- **What the relay owes every client**, in terms of the record of its document. -/
structure Agreement (s : Server) : Prop where
  syncing : ∀ conn d, (s.connections conn).state = .syncing →
    (s.connections conn).currentDocument = some d → ∀ op, op ∈ s.recorded d ↔
      op ∈ (s.connections conn).historySent ∨ op ∈ s.pending (s.connections conn).clientId
  live : ∀ conn d, (s.connections conn).state = .live →
    (s.connections conn).currentDocument = some d → ∀ op, op ∈ s.recorded d ↔
      op ∈ (s.connections conn).operationsSent ∨ op ∈ (s.connections conn).submitted
  own : ∀ conn, ∀ op ∈ (s.connections conn).operationsSent,
    ∃ d, (s.connections conn).currentDocument = some d ∧ op ∈ s.recorded d

/-! ## The invariant -/

/-- What the server keeps for a connection: the operations on it are recorded ones, and unless it is
`busy` with an answer every recorded operation was sent, waits to be sent or is still `owed`. -/
structure Served (s : Server) (c : ClientConnection) (busy : Prop) (owed : Operation → Prop) :
    Prop where
  document : ∀ d, c.currentDocument = some d → d ∈ s.store.documents
  opened : c.state = .syncing ∨ c.state = .live → ∃ d, c.currentDocument = some d
  pendingRegistered : c.state = .registered →
    AList.lookup c.clientId s.pendingSyncOperations = some []
  pendingSyncing : c.state = .syncing → c.clientId ∈ s.pendingSyncOperations
  pendingRecorded : ∀ d, c.state = .syncing → c.currentDocument = some d →
    ∀ op ∈ s.pending c.clientId, op ∈ s.recorded d
  own : ∀ op, op ∈ c.operationsSent ∨ op ∈ c.submitted →
    ∃ d, c.currentDocument = some d ∧ op ∈ s.recorded d
  history : ¬ busy → c.state = .syncing →
    ∀ m ∈ c.sent, m.payload.operations ≠ [] → m.type = .syncResponse
  syncing : ¬ busy → ∀ d, c.state = .syncing → c.currentDocument = some d →
    ∀ op ∈ s.recorded d, op ∈ c.operationsSent ∨ op ∈ s.pending c.clientId ∨ owed op
  live : ¬ busy → ∀ d, c.state = .live → c.currentDocument = some d →
    ∀ op ∈ s.recorded d, op ∈ c.operationsSent ∨ op ∈ c.submitted ∨ owed op

variable {sha256 : Str → Vector UInt8 32}

/-- `Agreement` in the middle of a handler: the connection `busy` is being answered, and `owed` are
the operations recorded but not yet handed on. -/
structure Relays (sha256 : Str → Vector UInt8 32) (s : Server) (busy : Option ConnId)
    (owed : ConnId → Operation → Prop) : Prop extends s.Enrolled where
  store : s.store.Sound sha256
  pendingClient : ∀ id ∈ s.pendingSyncOperations, id ∈ s.clients
  served : ∀ conn, s.Served (s.connections conn) (some conn = busy) (owed conn)

/-- Nothing is owed. -/
abbrev Settled : ConnId → Operation → Prop := fun _ _ => False

/-- A syncing client was sent no operation outside a history. -/
theorem historySent_eq {c : ClientConnection}
    (h : ∀ m ∈ c.sent, m.payload.operations ≠ [] → m.type = .syncResponse) (op : Operation) :
    op ∈ c.historySent ↔ op ∈ c.operationsSent := by
  simp only [ClientConnection.historySent, ClientConnection.operationsSent, List.mem_flatMap,
    List.mem_filter, decide_eq_true_eq]
  refine ⟨fun ⟨m, hm, hop⟩ => ⟨m, hm.1, hop⟩, fun ⟨m, hm, hop⟩ => ⟨m, ⟨hm, h m hm ?_⟩, hop⟩⟩
  exact List.ne_nil_of_mem hop

/-- **The invariant at rest is the agreement.** -/
theorem Relays.agreement {s : Server} (h : Relays sha256 s none Settled) : s.Agreement where
  syncing conn d hs hd op := by
    have hc := h.served conn
    rw [historySent_eq (hc.history (by simp) hs)]
    refine ⟨fun hop => ?_, ?_⟩
    · obtain hop | hop | hop := hc.syncing (by simp) d hs hd op hop
      exacts [Or.inl hop, Or.inr hop, hop.elim]
    · rintro (hop | hop)
      · obtain ⟨d', hd', hop⟩ := hc.own op (Or.inl hop)
        rwa [Option.some.inj (hd.symm.trans hd')]
      · exact hc.pendingRecorded d hs hd op hop
  live conn d hs hd op := by
    have hc := h.served conn
    refine ⟨fun hop => ?_, fun hop => ?_⟩
    · obtain hop | hop | hop := hc.live (by simp) d hs hd op hop
      exacts [Or.inl hop, Or.inr hop, hop.elim]
    · obtain ⟨d', hd', hop⟩ := hc.own op hop
      rwa [Option.some.inj (hd.symm.trans hd')]
  own conn op hop := (h.served conn).own op (Or.inl hop)

/-! ## Frames -/

/-- A connection whose operations are all recorded and which is not registered is served. -/
theorem served_of_not_isRegistered {s : Server} {c : ClientConnection} {busy : Prop}
    {owed : Operation → Prop} (hc : ¬ c.isRegistered)
    (hdoc : ∀ d, c.currentDocument = some d → d ∈ s.store.documents)
    (hown : ∀ op, op ∈ c.operationsSent ∨ op ∈ c.submitted →
      ∃ d, c.currentDocument = some d ∧ op ∈ s.recorded d) : s.Served c busy owed := by
  obtain ⟨hs, hl, hr⟩ : c.state ≠ .syncing ∧ c.state ≠ .live ∧ c.state ≠ .registered := by
    simpa [isRegistered_iff] using hc
  exact
    { document := hdoc
      opened := fun h => (h.elim hs hl).elim
      pendingRegistered := fun h => absurd h hr
      pendingSyncing := fun h => absurd h hs
      pendingRecorded := fun _ h => absurd h hs
      own := hown
      history := fun _ h => absurd h hs
      syncing := fun _ _ h => absurd h hs
      live := fun _ _ h => absurd h hl }

/-- **Serving survives a growing record**, where what is new is owed. -/
theorem Served.grow {s s' : Server} {c : ClientConnection} {busy busy' : Prop}
    {owed owed' : Operation → Prop} (h : s.Served c busy owed)
    (hdoc : ∀ d ∈ s.store.documents, d ∈ s'.store.documents)
    (hrec : ∀ d, c.currentDocument = some d → ∀ op ∈ s.recorded d, op ∈ s'.recorded d)
    (hnew : c.isRegistered → ¬ busy' → ∀ d, c.currentDocument = some d →
      ∀ op ∈ s'.recorded d, op ∈ s.recorded d ∨ owed' op)
    (hpending : c.isRegistered → AList.lookup c.clientId s'.pendingSyncOperations =
      AList.lookup c.clientId s.pendingSyncOperations)
    (hbusy : ¬ busy' → ¬ busy) (howed : ¬ busy' → ∀ op, owed op → owed' op) :
    s'.Served c busy' owed' where
  document d hd := hdoc d (h.document d hd)
  opened := h.opened
  pendingRegistered hs := (hpending (isRegistered_of_registered hs)).trans (h.pendingRegistered hs)
  pendingSyncing hs := by
    rw [UMap.mem_iff_lookup, hpending (isRegistered_of_syncing hs), ← UMap.mem_iff_lookup]
    exact h.pendingSyncing hs
  pendingRecorded d hs hd op hop := by
    rw [pending, UMap.bucket, hpending (isRegistered_of_syncing hs)] at hop
    exact hrec d hd op (h.pendingRecorded d hs hd op hop)
  own op hop := by
    obtain ⟨d, hd, hop⟩ := h.own op hop
    exact ⟨d, hd, hrec d hd op hop⟩
  history hb := h.history (hbusy hb)
  syncing hb d hs hd op hop := by
    rw [pending, UMap.bucket, hpending (isRegistered_of_syncing hs)]
    rcases hnew (isRegistered_of_syncing hs) hb d hd op hop with hop | hop
    · exact (h.syncing (hbusy hb) d hs hd op hop).imp id (Or.imp id (howed hb op))
    · exact Or.inr (Or.inr hop)
  live hb d hs hd op hop := by
    rcases hnew (isRegistered_of_live hs) hb d hd op hop with hop | hop
    · exact (h.live (hbusy hb) d hs hd op hop).imp id (Or.imp id (howed hb op))
    · exact Or.inr (Or.inr hop)

/-- What serving a connection reads of the server: the documents, their records and the operations
pending under its id. -/
theorem Served.congr {s s' : Server} {c : ClientConnection} {busy busy' : Prop}
    {owed owed' : Operation → Prop} (h : s.Served c busy owed)
    (hdoc : ∀ d ∈ s.store.documents, d ∈ s'.store.documents)
    (hrec : ∀ d, c.currentDocument = some d → s'.recorded d = s.recorded d)
    (hpending : c.isRegistered → AList.lookup c.clientId s'.pendingSyncOperations =
      AList.lookup c.clientId s.pendingSyncOperations)
    (hbusy : ¬ busy' → ¬ busy) (howed : ¬ busy' → ∀ op, owed op → owed' op) :
    s'.Served c busy' owed' :=
  h.grow hdoc (fun d hd _ hop => (hrec d hd).symm ▸ hop)
    (fun _ _ d hd _ hop => Or.inl (hrec d hd ▸ hop)) hpending hbusy howed

/-- **Replacing a connection** by one under the same id, as registered as it was, leaves the other
connections as they were served. -/
theorem Relays.setConnection {s : Server} {busy busy' : Option ConnId}
    {owed owed' : ConnId → Operation → Prop} (h : Relays sha256 s busy owed) {conn : ConnId}
    {c : ClientConnection} (hid : c.clientId = (s.connections conn).clientId)
    (hreg : c.isRegistered = (s.connections conn).isRegistered)
    (hserved : s.Served c (some conn = busy') (owed' conn))
    (hbusy : ∀ conn', conn' ≠ conn → some conn' ≠ busy' → some conn' ≠ busy)
    (howed : ∀ conn', conn' ≠ conn → ∀ op, owed conn' op → owed' conn' op) :
    Relays sha256 (s.setConnection conn c) busy' owed' := by
  have henrolled : (s.setConnection conn c).Enrolled := h.toEnrolled.rebase rfl fun conn' => by
    rw [connections_setConnection]
    split
    case isTrue he => exact he ▸ ⟨hid, hreg⟩
    case isFalse => exact ⟨rfl, rfl⟩
  refine
    { henrolled with
      store := h.store
      pendingClient := h.pendingClient
      served := fun conn' => ?_ }
  rw [connections_setConnection]
  split
  case isTrue he =>
    subst he
    exact hserved.congr (fun _ hd => hd) (fun _ _ => rfl) (fun _ => rfl) id fun _ _ ho => ho
  case isFalse hne =>
    exact (h.served conn').congr (fun _ hd => hd) (fun _ _ => rfl) (fun _ => rfl)
      (hbusy conn' hne) fun _ => howed conn' hne

theorem relays_start {store : DocumentStore} (h : store.Sound sha256) :
    Relays sha256 (start store) none Settled where
  __ := Enrolled.start store
  store := h
  pendingClient id hid := absurd hid (AList.notMem_empty _)
  served conn := by
    refine served_of_not_isRegistered (c := .new) (by decide) (fun d hd => ?_) fun op hop => ?_
    · simp [ClientConnection.new] at hd
    · simp [ClientConnection.new, ClientConnection.operationsSent] at hop

/-! ## Disconnecting -/

/-- **A disconnect settles whatever was unfinished on the connection**, and leaves the others their
entries. -/
theorem Relays.disconnect {s : Server} {busy : Option ConnId} (h : Relays sha256 s busy Settled)
    (conn : ConnId) (hbusy : busy = none ∨ busy = some conn) :
    Relays sha256 (s.disconnect conn) none Settled := by
  have hnotbusy : ∀ conn', conn' ≠ conn → some conn' ≠ busy := by
    rintro conn' hne rfl
    exact hbusy.elim (by simp) fun he => hne (Option.some.inj he)
  have hstore := store_disconnect s conn
  have hrecorded : ∀ d, (s.disconnect conn).recorded d = s.recorded d := fun d => by
    rw [recorded, recorded, hstore]
  refine
    { h.toEnrolled.disconnect conn with
      store := hstore ▸ h.store
      pendingClient := fun id hid => ?_
      served := fun conn' => ?_ }
  · obtain ⟨hclients, hpending, -⟩ := h.toEnrolled.mem_disconnect conn id
    obtain ⟨hne, hid⟩ := hpending.mp hid
    exact hclients.mpr ⟨hne, h.pendingClient id hid⟩
  · rw [connections_disconnect]
    split
    case isTrue =>
      have hc := h.served conn
      refine served_of_not_isRegistered (not_isRegistered_of_disconnected rfl) ?_ ?_
      · rw [hstore]
        exact hc.document
      · simp only [hrecorded]
        exact hc.own
    case isFalse he =>
      exact (h.served conn').congr (fun d hd => hstore.symm ▸ hd) (fun d _ => hrecorded d)
        (fun hr => (h.toEnrolled.lookup_disconnect conn he hr).1) (fun _ => hnotbusy conn' he)
        fun _ _ ho => ho

/-! ## Sending -/

theorem mem_operationsSent_append {c c' : ClientConnection} {m : Message}
    (h : c'.sent = c.sent ++ [m]) (op : Operation) :
    op ∈ c'.operationsSent ↔ op ∈ c.operationsSent ∨ op ∈ m.payload.operations := by
  rw [ClientConnection.operationsSent, ClientConnection.operationsSent, h, List.flatMap_append,
    List.mem_append, List.flatMap_singleton]

/-- The rule of `send`: the message is accepted, ignored or too large. -/
theorem ends_send {s : Server} {conn : ConnId} {m : Message} {P Q : Server → Prop}
    (hok : (s.connections conn).isRegistered → P (s.setConnection conn
      { s.connections conn with sent := (s.connections conn).sent ++ [m] }))
    (hskip : ¬ (s.connections conn).isRegistered → P s)
    (herr : 2 ^ 32 ≤ m.serialize.length → Q s) : (s.send conn m).Ends P Q := by
  rw [Server.send, ClientConnection.send]
  split
  case isTrue hs =>
    have hskip := hskip (by rcases hs with hs | hs <;> simp [isRegistered_iff, hs])
    simpa [Except.leaving, bind, Except.bind, setConnection_self] using hskip
  case isFalse hs =>
    split
    case isTrue hlen => exact herr hlen
    case isFalse =>
      refine hok ?_
      cases hst : (s.connections conn).state <;> simp_all [isRegistered_iff]

/-- A handler whose exceptions are caught and answered. -/
theorem ends_caught {r : Except (Exn × Server) Server} {P Q Q' : Server → Prop}
    {f : Server → Server} (h : r.Ends P Q) (hf : ∀ s, Q s → P (f s)) :
    (match r with
      | .ok s => (pure s : Except (Exn × Server) Server)
      | .error (_, s) => pure (f s)).Ends P Q' := by
  match r, h with
  | .ok _, h => exact h
  | .error (_, s), h => exact hf s h

/-- The invariant reads neither the presence nor the reports. -/
theorem Relays.congr {s t : Server} {busy : Option ConnId} {owed : ConnId → Operation → Prop}
    (h : Relays sha256 s busy owed) (hconn : t.connections = s.connections)
    (hclients : t.clients = s.clients)
    (hpending : t.pendingSyncOperations = s.pendingSyncOperations) (hstore : t.store = s.store) :
    Relays sha256 t busy owed := by
  obtain ⟨_, _, _, _, _, _⟩ := s
  obtain ⟨_, _, _, _, _, _⟩ := t
  subst hconn hclients hpending hstore
  exact ⟨⟨h.nonempty, h.registered, h.client⟩, h.store, h.pendingClient, fun conn =>
    (h.served conn).congr (fun _ hd => hd) (fun _ _ => rfl) (fun _ => rfl) id fun _ _ ho => ho⟩

theorem Relays.mono {s : Server} {busy busy' : Option ConnId} {owed owed' : ConnId → Operation → Prop}
    (h : Relays sha256 s busy owed) (hbusy : ∀ conn, some conn ≠ busy' → some conn ≠ busy)
    (howed : ∀ conn op, owed conn op → owed' conn op) : Relays sha256 s busy' owed' :=
  { h with
    served := fun conn => (h.served conn).congr (fun _ hd => hd) (fun _ _ => rfl) (fun _ => rfl)
      (hbusy conn) fun _ => howed conn }

/-- Answering a connection suspends what is said of it. -/
theorem Relays.answering {s : Server} (h : Relays sha256 s none Settled) (conn : ConnId) :
    Relays sha256 s (some conn) Settled :=
  h.mono (fun _ _ => by simp) fun _ _ ho => ho

/-- Nothing is owed to a connection that neither syncs nor lives. -/
theorem Relays.waive {s : Server} {busy : Option ConnId} {owed owed' : ConnId → Operation → Prop}
    (h : Relays sha256 s busy owed) {conn : ConnId} (hs : (s.connections conn).state ≠ .syncing)
    (hl : (s.connections conn).state ≠ .live)
    (howed : ∀ conn', conn' ≠ conn → ∀ op, owed conn' op → owed' conn' op) :
    Relays sha256 s busy owed' := by
  have hc : s.Served (s.connections conn) (some conn = busy) (owed' conn) :=
    { h.served conn with
      syncing := fun _ _ hc => absurd hc hs
      live := fun _ _ hc => absurd hc hl }
  rw [← setConnection_self s conn]
  exact h.setConnection rfl rfl hc (fun _ _ hb => hb) howed

/-- **A message sent discharges what it carries.** -/
theorem Relays.sent {s : Server} {busy : Option ConnId} {owed owed' : ConnId → Operation → Prop}
    (h : Relays sha256 s busy owed) {conn : ConnId} {m : Message}
    (hops : ∀ op ∈ m.payload.operations,
      ∃ d, (s.connections conn).currentDocument = some d ∧ op ∈ s.recorded d)
    (hhistory : some conn ≠ busy → (s.connections conn).state = .syncing →
      m.payload.operations = [])
    (howed : ∀ conn' op, owed conn' op →
      owed' conn' op ∨ conn' = conn ∧ op ∈ m.payload.operations) :
    Relays sha256 (s.setConnection conn
      { s.connections conn with sent := (s.connections conn).sent ++ [m] }) busy owed' := by
  have hc := h.served conn
  have hsent : ∀ op, op ∈ ({ s.connections conn with
        sent := (s.connections conn).sent ++ [m] } : ClientConnection).operationsSent ↔
      op ∈ (s.connections conn).operationsSent ∨ op ∈ m.payload.operations :=
    mem_operationsSent_append rfl
  refine h.setConnection rfl rfl ?_ (fun _ _ hb => hb) fun conn' hne op ho =>
    (howed conn' op ho).resolve_right fun he => hne he.1
  exact
    { hc with
      own := fun op hop => by
        rw [hsent, or_right_comm] at hop
        exact hop.elim (hc.own op) (hops op)
      history := fun hb hs m' hm' hne => by
        rcases List.mem_append.mp hm' with hm' | hm'
        · exact hc.history hb hs m' hm' hne
        · rw [List.mem_singleton.mp hm'] at hne
          exact absurd (hhistory hb hs) hne
      syncing := fun hb d hs hd op hop => by
        rw [hsent]
        obtain ho | ho | ho := hc.syncing hb d hs hd op hop
        exacts [Or.inl (Or.inl ho), Or.inr (Or.inl ho),
          (howed conn op ho).elim (fun ho => Or.inr (Or.inr ho)) fun ho => Or.inl (Or.inr ho.2)]
      live := fun hb d hs hd op hop => by
        rw [hsent]
        obtain ho | ho | ho := hc.live hb d hs hd op hop
        exacts [Or.inl (Or.inl ho), Or.inr (Or.inl ho),
          (howed conn op ho).elim (fun ho => Or.inr (Or.inr ho)) fun ho => Or.inl (Or.inr ho.2)] }

/-- A message without operations changes nothing. -/
theorem Relays.send_quiet {s : Server} {busy : Option ConnId}
    {owed : ConnId → Operation → Prop} (h : Relays sha256 s busy owed) (conn : ConnId) {m : Message}
    (hm : m.payload.operations = []) :
    (s.send conn m).Ends (Relays sha256 · busy owed) (Relays sha256 · busy owed) :=
  ends_send
    (fun _ => h.sent (fun op hop => by rw [hm] at hop; cases hop) (fun _ _ => hm) fun _ _ => Or.inl)
    (fun _ => h) fun _ => h

/-- A loop of messages without operations changes nothing. -/
theorem Relays.foldlM_quiet {s : Server} {busy : Option ConnId} {owed : ConnId → Operation → Prop}
    {β : Type} {f : Server → β → Except (Exn × Server) Server} {l : List β}
    (h : Relays sha256 s busy owed)
    (hf : ∀ t b, Relays sha256 t busy owed →
      (f t b).Ends (Relays sha256 · busy owed) (Relays sha256 · busy owed)) :
    (l.foldlM f s).Ends (Relays sha256 · busy owed) (Relays sha256 · busy owed) :=
  Except.ends_foldlM (I := fun _ t => Relays sha256 t busy owed) (fun b _ t ht => hf t b ht) h

theorem Relays.reject {s : Server} (h : Relays sha256 s none Settled) (conn : ConnId)
    (report : Str) : Relays sha256 (s.reject conn report) none Settled :=
  (h.congr (t := { s with violations := s.violations ++ [report] }) rfl rfl rfl rfl).disconnect conn
    (Or.inl rfl)

end Server

end CrdtEditor
