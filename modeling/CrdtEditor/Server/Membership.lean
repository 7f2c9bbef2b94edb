import CrdtEditor.Server.Protocol

/-!
# Server/Membership — who is a client, over whole runs

`registry_along`: whatever arrives, and whichever calls to the database fail, the registry fits the
connections after every event, so the lookups of the handlers never fail.

`final_along`: a connection that was disconnected stays so, unless a `HELLO` that had been read before
is still processed.  `register_client` does not ask whether the connection is dead, so such a `HELLO`
registers it again: `readmitted_after_disconnect`.
-/

namespace CrdtEditor.Server

open Text

variable {sha256 : Str → Vector UInt8 32}

/-! ## The registry -/

/-- The events of one run of the server, where only a connection that is not disconnected is read. -/
def Arrives (s : Server) : Event → Prop
  | .receive conn _ _ => (s.connections conn).state ≠ .disconnected
  | .disconnect _ => True
  | .restart _ _ => False

instance Arrives.decidable (s : Server) : DecidablePred s.Arrives
  | .receive _ _ _ => inferInstanceAs (Decidable (_ ≠ _))
  | .disconnect _ => .isTrue trivial
  | .restart _ _ => .isFalse id

/-- The lookups of the handlers, none of which fails. -/
structure Lookups (s : Server) : Prop where
  presence : ∀ conn, (s.connections conn).state = .live →
    (s.connections conn).clientId ∈ s.presence
  pending : ∀ conn, (s.connections conn).state = .syncing →
    (s.connections conn).clientId ∈ s.pendingSyncOperations
  document : ∀ conn, (s.connections conn).state = .syncing ∨ (s.connections conn).state = .live →
    ∃ d p, (s.connections conn).getCurrentDocument = .ok d ∧ s.store.getDocument d = .ok p
  distinct : ∀ id id' conn, AList.lookup id s.clients = some conn →
    AList.lookup id' s.clients = some conn → id = id'

theorem Registry.lookups {s : Server} (h : s.Registry) : s.Lookups where
  presence conn hs :=
    (h.presence _).mpr (UMap.mem_of_lookup (h.client conn (isRegistered_of_live hs)))
  pending conn hs :=
    (h.pending _ conn (h.client conn (isRegistered_of_syncing hs))).mpr (by simp [hs])
  document conn hs := by
    obtain ⟨d, hd⟩ := (h.coherent conn).opened hs
    obtain ⟨p, hp⟩ := UMap.mem_iff_lookup.mp (h.stored conn d hd)
    exact ⟨d, p, by rw [ClientConnection.getCurrentDocument, hd],
      DocumentStore.getDocument_of_lookup hp⟩
  distinct id id' conn hl hl' := (h.registered id conn hl).1.symm.trans (h.registered id' conn hl').1

/-- A `HELLO` under the id of another client. -/
def Duplicate (s : Server) (conn : ConnId) (body : Str) : Prop :=
  ∃ message, Message.deserialize body = .ok message ∧ message.type = .hello ∧
    (s.connections conn).state = .unregistered ∧ message.sender ∈ s.clients

/-- An empty id and an id in use are refused on the spot. -/
theorem registerClient_refuses {s : Server} (conn : ConnId) {id : Str}
    (h : id = [] ∨ id ∈ s.clients) : ∃ e, s.registerClient conn id = .error (e, s) := by
  rw [registerClient]
  by_cases hne : id = []
  · exact ⟨_, by rw [if_pos hne]; rfl⟩
  · exact ⟨_, by rw [if_neg hne, if_pos (h.resolve_left hne)]; rfl⟩

/-- **A duplicate registration is refused** and leaves the entries of every client alone. -/
theorem Registry.refuses {s : Server} (h : s.Registry) (faults : Faults) {conn : ConnId} {body : Str}
    (hd : s.Duplicate conn body) (order : RowOrder Str) :
    let t := s.stepWith sha256 faults (.receive conn body order)
    t.clients = s.clients ∧ t.pendingSyncOperations = s.pendingSyncOperations ∧
      t.presence = s.presence ∧ ∀ k, k ≠ conn → t.connections k = s.connections k := by
  obtain ⟨message, hm, htype, hs, hmem⟩ := hd
  have hstep : s.stepWith sha256 faults (.receive conn body order) = s.disconnect conn := by
    rw [stepWith]
    split
    case isTrue => rfl
    case isFalse =>
      obtain ⟨e, he⟩ := registerClient_refuses conn (Or.inr hmem)
      simp only [receiveMessageWith, hm, Server.handleWith, Server.handle, htype, he]
      simp [ClientConnection.isRegistered, hs, pure, Except.pure]
  dsimp only
  rw [hstep, h.toEnrolled.disconnect_eq]
  have hr : ¬ (s.connections conn).isRegistered = true := by simp [isRegistered_iff, hs]
  simp only [hr, Bool.false_eq_true, if_false]
  exact ⟨rfl, rfl, rfl, fun k hk => by rw [connections_setConnection, if_neg hk]⟩

/-- One event keeps the registry. -/
theorem Registry.step {s : Server} (h : s.Registry) (faults : Faults) {e : Event} (he : s.Arrives e) :
    (s.stepWith sha256 faults e).Registry := by
  match e, he with
  | .receive conn body order, hs => exact (h.outcome sha256 faults hs body order).registry
  | .disconnect conn, _ => exact (h.disconnect conn).registry

/-- **The registry fits the connections after every event**: a malformed or untimely message, a
duplicate registration, a failing database or a disconnect leaves no map stale. -/
theorem registry_along {database : SQLiteDatabase} {documentOrder : RowOrder CText}
    {rowOrder : DocumentID → RowOrder Str} {store : DocumentStore}
    (hstore : DocumentStore.reopen database documentOrder rowOrder = .ok store)
    {events : List (Faults × Event)}
    (h : Along (fun s e => s.stepWith sha256 e.1 e.2) (fun s e => s.Arrives e.2) (start store)
      events) :
    Along (fun s e => s.stepWith sha256 e.1 e.2)
      (fun s e => (s.stepWith sha256 e.1 e.2).Registry ∧ (s.stepWith sha256 e.1 e.2).Lookups ∧
        ∀ conn body order, e.2 = .receive conn body order → s.Duplicate conn body →
          let t := s.stepWith sha256 e.1 e.2
          t.clients = s.clients ∧ t.pendingSyncOperations = s.pendingSyncOperations ∧
            t.presence = s.presence ∧ ∀ k, k ≠ conn → t.connections k = s.connections k)
      (start store) events := by
  refine Along.of_invariant (fun s e hs he => ?_)
    (registry_start (DocumentStore.filed_reopen hstore)) h
  have ht : (s.stepWith sha256 e.1 e.2).Registry := hs.step e.1 he
  refine ⟨⟨ht, ht.lookups, fun conn body order heq hd => ?_⟩, ht⟩
  rw [heq]
  exact hs.refuses e.1 hd order

/-- Two clients, the second of which first asks for the id of the first; a query of the database
fails; a message that does not decode; a disconnect. -/
def sampleFaults : List (Faults × Event) :=
  [(fun _ => false, arrives 0 [str "HELLO", str "a", []]),
   (fun c => c = .step .insertDocument, arrives 0 [str "OPEN_DOCUMENT", str "a", str "d"]),
   (fun _ => false, arrives 1 [str "HELLO", str "b", []]),
   (fun _ => false, arrives 1 [str "OPEN_DOCUMENT", str "b", str "d"]),
   (fun _ => false, arrives 2 [str "HELLO", str "b", []]),
   (fun _ => false, arrives 3 [str "HELLO", str "a", []]),
   (fun c => c = .prepare .selectOperations, arrives 3 [str "OPEN_DOCUMENT", str "a", str "d"]),
   (fun _ => false, arrives 1 [str "NONSENSE"]),
   (fun _ => false, .disconnect 3)]

theorem registry_along_sample :
    Along (fun s e => s.stepWith DocumentStore.sampleDigest e.1 e.2)
      (fun s e => (s.stepWith DocumentStore.sampleDigest e.1 e.2).Registry ∧
        (s.stepWith DocumentStore.sampleDigest e.1 e.2).Lookups ∧
        ∀ conn body order, e.2 = .receive conn body order → s.Duplicate conn body →
          let t := s.stepWith DocumentStore.sampleDigest e.1 e.2
          t.clients = s.clients ∧ t.pendingSyncOperations = s.pendingSyncOperations ∧
            t.presence = s.presence ∧ ∀ k, k ≠ conn → t.connections k = s.connections k)
      (start .empty) sampleFaults :=
  have hstore : DocumentStore.reopen .empty (.inserted CText) (fun _ => .inserted Str) =
      .ok .empty := rfl
  registry_along hstore (by decide +kernel)

/-! ## Disconnected connections -/

/-- A `HELLO` that `register_client` accepts. -/
def Acceptable (s : Server) (message : Message) : Prop :=
  message.type = .hello ∧ message.sender ≠ [] ∧ message.sender ∉ s.clients

instance Acceptable.decidable (s : Server) : DecidablePred s.Acceptable := fun _ =>
  inferInstanceAs (Decidable (_ ∧ _ ∧ _))

/-- An acceptable `HELLO` is processed on a connection that is disconnected. -/
def Readmits (s : Server) : Event → Prop
  | .receive conn body _ => (s.connections conn).state = .disconnected ∧
    body.length ≤ maxMessageSize ∧
    ∃ message ∈ (Message.deserialize body).toOption, s.Acceptable message
  | _ => False

/-- One run of the server: a start on the database file begins another. -/
def Event.Continues : Event → Prop
  | .restart _ _ => False
  | _ => True

instance Readmits.decidable (s : Server) : DecidablePred s.Readmits
  | .receive _ body _ =>
    inferInstanceAs (Decidable (_ ∧ _ ∧ ∃ message ∈ (Message.deserialize body).toOption, _))
  | .disconnect _ => .isFalse id
  | .restart _ _ => .isFalse id

instance Event.Continues.decidable : DecidablePred Event.Continues
  | .receive _ _ _ => .isTrue trivial
  | .disconnect _ => .isTrue trivial
  | .restart _ _ => .isFalse id

/-- **A disconnected connection is out of the run**: it stays disconnected, no map names it, and what
arrives on it changes no document and reaches no client. -/
structure Final (s : Server) (e : Event) (t : Server) : Prop where
  stays : ∀ conn, (s.connections conn).state = .disconnected →
    (t.connections conn).state = .disconnected
  absent : ∀ conn, (s.connections conn).state = .disconnected →
    ∀ id, AList.lookup id t.clients ≠ some conn
  entries : ∀ id, id ∈ t.pendingSyncOperations ∨ id ∈ t.presence →
    ∃ conn, AList.lookup id t.clients = some conn ∧ (t.connections conn).state ≠ .disconnected
  ignored : ∀ conn body order, e = .receive conn body order →
    (s.connections conn).state = .disconnected →
      t.store = s.store ∧ t.connections = s.connections ∧ t.clients = s.clients ∧
        t.pendingSyncOperations = s.pendingSyncOperations ∧ t.presence = s.presence

variable (sha256) in
/-- **What arrives on a disconnected connection is only reported**, unless it registers it again. -/
theorem step_of_disconnected {s : Server} {conn : ConnId} {body : Str} {order : RowOrder Str}
    (hs : (s.connections conn).state = .disconnected)
    (hno : ¬ s.Readmits (.receive conn body order)) :
    ∃ reports, s.step sha256 (.receive conn body order) = { s with violations := reports } := by
  have hreject : ∀ report, s.reject conn report =
      { s with violations := s.violations ++ [report] } := fun report =>
    disconnect_of_disconnected hs
  rw [step]
  split
  case isTrue => exact ⟨s.violations, disconnect_of_disconnected hs⟩
  case isFalse hlen =>
    rw [receiveMessage]
    cases hm : Message.deserialize body with
    | error e => exact ⟨s.violations, disconnect_of_disconnected hs⟩
    | ok message =>
      dsimp only
      by_cases ht : message.type = .hello
      · obtain ⟨e, he⟩ := registerClient_refuses conn (show message.sender = [] ∨ message.sender ∈ s.clients by
          by_contra hor
          obtain ⟨hne, hmem⟩ := not_or.mp hor
          refine hno ⟨hs, not_lt.mp hlen, message, ?_, ht, hne, hmem⟩
          rw [hm]
          rfl)
        refine ⟨s.violations, ?_⟩
        simp [handle, ht, he, ClientConnection.isRegistered, hs, disconnect_of_disconnected hs,
          pure, Except.pure]
      · obtain ⟨report, hreport⟩ : ∃ report,
            s.handle sha256 order conn message = .ok (s.reject conn report) := by
          cases hm : message.type <;> first
            | exact absurd hm ht
            | exact ⟨_, by
                simp [handle, hm, ClientConnection.isRegistered, ClientConnection.isLive,
                  ClientConnection.isSyncing, hs, pure, Except.pure]; rfl⟩
        exact ⟨s.violations ++ [report], by rw [hreport]; exact hreject report⟩

/-- Every entry of the maps is a registered client. -/
theorem Registry.entry {s : Server} (h : s.Registry) {id : Str}
    (hid : id ∈ s.pendingSyncOperations ∨ id ∈ s.presence) :
    ∃ conn, AList.lookup id s.clients = some conn ∧
      (s.connections conn).state ≠ .disconnected := by
  have hmem : id ∈ s.clients := hid.elim (h.pendingClient id) (h.presence id).mp
  obtain ⟨conn, hl⟩ := UMap.mem_iff_lookup.mp hmem
  refine ⟨conn, hl, fun hs => ?_⟩
  have := (h.registered id conn hl).2
  simp [isRegistered_iff, hs] at this

/-- A connection out of every map cannot be looked up. -/
theorem Registry.absent {s : Server} (h : s.Registry) {conn : ConnId}
    (hs : (s.connections conn).state = .disconnected) (id : Str) :
    AList.lookup id s.clients ≠ some conn := fun hl => by
  have := (h.registered id conn hl).2
  simp [isRegistered_iff, hs] at this

/-- An event that is not processed on it leaves a disconnected connection alone. -/
theorem Registry.stays {s : Server} (h : s.Registry) {e : Event} (he : s.Arrives e) {conn : ConnId}
    (hs : (s.connections conn).state = .disconnected) :
    ((s.step sha256 e).connections conn).state = .disconnected := by
  match e, he with
  | .disconnect conn', _ =>
    change ((s.disconnect conn').connections conn).state = _
    rw [(h.disconnect conn').connections]
    split
    exacts [rfl, hs]
  | .receive conn' body order, hs' =>
    have hne : conn ≠ conn' := fun he => hs' (he ▸ hs)
    rw [← stepWith_none]
    obtain ⟨message, _, _, _, ht⟩ | ⟨message, _, _, _, report, ht⟩ | ⟨_, ht⟩ :=
      h.outcome sha256 (fun _ => false) hs' body order
    · obtain ⟨ms, hms, -⟩ := ht.others conn hne
      rw [hms]
      exact hs
    · rw [ht.connections, if_neg hne]
      exact hs
    · rw [ht.connections, if_neg hne]
      exact hs

/-- **One event keeps the disconnected connections out.** -/
theorem Registry.final {s : Server} (h : s.Registry) {e : Event} (he : e.Continues)
    (hno : ¬ s.Readmits e) : s.Final e (s.step sha256 e) ∧ (s.step sha256 e).Registry := by
  by_cases ha : s.Arrives e
  · have ht : (s.step sha256 e).Registry := by
      rw [← stepWith_none]
      exact h.step _ ha
    refine ⟨⟨fun conn hs => h.stays ha hs, fun conn hs => ht.absent (h.stays ha hs),
      fun id hid => ht.entry hid, ?_⟩, ht⟩
    rintro conn body order rfl hs
    exact absurd hs ha
  · match e, he with
    | .disconnect conn, _ => exact absurd trivial ha
    | .receive conn body order, _ =>
      obtain ⟨reports, ht⟩ := step_of_disconnected sha256 (not_not.mp ha) hno
      have hreg := h.with_violations reports
      rw [ht]
      exact ⟨⟨fun _ hs => hs, fun conn' hs => hreg.absent hs, fun id hid => hreg.entry hid,
        fun _ _ _ _ _ => ⟨rfl, rfl, rfl, rfl, rfl⟩⟩, hreg⟩

/-- **Disconnected is final** in every run that processes no acceptable `HELLO` on a connection that
is disconnected. -/
theorem final_along {database : SQLiteDatabase} {documentOrder : RowOrder CText}
    {rowOrder : DocumentID → RowOrder Str} {store : DocumentStore}
    (hstore : DocumentStore.reopen database documentOrder rowOrder = .ok store)
    {events : List Event}
    (h : Along (step sha256) (fun s e => e.Continues ∧ ¬ s.Readmits e) (start store) events) :
    Along (step sha256) (fun s e => s.Final e (s.step sha256 e)) (start store) events :=
  Along.of_invariant (fun _ _ hs he => hs.final he.1 he.2)
    (registry_start (DocumentStore.filed_reopen hstore)) h

/-- A client leaves, and a message of its that was read before is still processed. -/
def leavingEvents : List Event :=
  [arrives 0 [str "HELLO", str "a", []],
   arrives 0 [str "OPEN_DOCUMENT", str "a", str "d"],
   arrives 0 [str "SYNC_COMPLETE", str "a", []],
   .disconnect 0,
   arrives 0 [str "OPERATION", str "a", str "REMOVE|1,a"],
   arrives 0 [str "OPEN_DOCUMENT", str "a", str "d"]]

theorem final_along_sample :
    Along (step DocumentStore.sampleDigest)
      (fun s e => s.Final e (s.step DocumentStore.sampleDigest e)) (start .empty) leavingEvents :=
  have hstore : DocumentStore.reopen .empty (.inserted CText) (fun _ => .inserted Str) =
      .ok .empty := rfl
  final_along hstore (by decide +kernel)

/-- The client registers, is disconnected, and its second `HELLO` had been read already. -/
def helloEvents : List Event :=
  [arrives 0 [str "HELLO", str "a", []],
   .disconnect 0,
   arrives 0 [str "HELLO", str "a", []]]

/-- **A `HELLO` that was still to be processed registers a dead connection.** -/
theorem readmitted_after_disconnect :
    let s := (helloEvents.take 2).foldl (step DocumentStore.sampleDigest) (start .empty)
    let t := helloEvents.foldl (step DocumentStore.sampleDigest) (start .empty)
    (s.connections 0).state = .disconnected ∧ (t.connections 0).state = .registered ∧
      AList.lookup (str "a") t.clients = some 0 ∧
      ¬ Along (step DocumentStore.sampleDigest)
        (fun s e => s.Final e (s.step DocumentStore.sampleDigest e)) (start .empty)
        helloEvents := by
  refine ⟨by decide +kernel, by decide +kernel, by decide +kernel, ?_⟩
  rintro ⟨-, -, h, -⟩
  exact absurd (h.stays 0 (by decide +kernel)) (by decide +kernel)

end CrdtEditor.Server
