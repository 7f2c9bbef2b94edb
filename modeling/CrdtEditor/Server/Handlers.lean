import CrdtEditor.Server.Relay

/-!
# Server/Handlers — every handler keeps the relay invariant

A handler that returns leaves everything settled; one that throws leaves at most the sender
unfinished, and `receiveMessage` disconnects it.  `routeMessage` is the loop that pays what recording
an operation made the server owe.
-/

open scoped List

namespace CrdtEditor

open Text

namespace Server

variable {sha256 : Str → Vector UInt8 32}

/-! ## Registering and opening -/

theorem Relays.registerClient {s : Server} (h : Relays sha256 s none Settled) {conn : ConnId}
    (hr : ¬ (s.connections conn).isRegistered) (clientId : Str) :
    (s.registerClient conn clientId).Ends (Relays sha256 · none Settled)
      (Relays sha256 · none Settled) := by
  rw [Server.registerClient]
  refine Except.ends_ite (fun _ => h) fun hne => ?_
  refine Except.ends_ite (fun _ => h) fun hfree => ?_
  refine Relays.send_quiet ?_ conn rfl
  have hpending : clientId ∉ s.pendingSyncOperations := fun hm => hfree (h.pendingClient _ hm)
  set c : ClientConnection :=
    { s.connections conn with clientId := clientId, state := .registered } with hc
  set t : Server := ({ s with
    clients := AList.insert clientId conn s.clients
    pendingSyncOperations := UMap.emplace s.pendingSyncOperations clientId []
    presence := UMap.emplace s.presence clientId rootId } : Server).setConnection conn c with ht
  have henrolled : t.Enrolled := h.toEnrolled.register hr (isRegistered_of_registered rfl) hne hfree rfl
    fun k => connections_setConnection _ conn k c
  refine
    { henrolled with
      store := h.store
      pendingClient := fun id hid => ?_
      served := fun conn' => ?_ }
  · change id ∈ UMap.emplace s.pendingSyncOperations clientId [] at hid
    rw [UMap.emplace_of_notMem hpending] at hid
    exact (AList.mem_insert _).mpr 
      (((AList.mem_insert _).mp hid).imp (fun he => he) (h.pendingClient id))
  · rw [connections_setConnection]
    split
    case isTrue he =>
      have hc := h.served conn
      exact
        { document := hc.document
          opened := fun hs => by simp at hs
          pendingRegistered := fun _ => by
            change AList.lookup clientId (UMap.emplace s.pendingSyncOperations clientId []) = some []
            rw [UMap.emplace_of_notMem hpending, UMap.lookup_insert, if_pos rfl]
          pendingSyncing := fun hs => by cases hs
          pendingRecorded := fun _ hs => by cases hs
          own := hc.own
          history := fun _ hs => by cases hs
          syncing := fun _ _ hs => by cases hs
          live := fun _ _ hs => by cases hs }
    case isFalse =>
      refine (h.served conn').congr (fun _ hd => hd) (fun _ _ => rfl) (fun hr' => ?_) id
        fun _ _ ho => ho
      change AList.lookup _ (UMap.emplace s.pendingSyncOperations clientId []) = _
      rw [UMap.emplace_of_notMem hpending, UMap.lookup_insert,
        if_neg (h.toEnrolled.clientId_ne_of_notMem hfree hr')]

/-- A new document changes nobody's record. -/
theorem Relays.createDocument {s : Server} {store : DocumentStore} {d : DocumentID}
    (h : Relays sha256 s none Settled) (hstore : s.store.createDocument d = .ok store) :
    Relays sha256 { s with store := store } none Settled := by
  obtain ⟨hsound, hops, hdocs, -⟩ := h.store.createDocument hstore
  have hrecorded : ∀ d', ({ s with store := store } : Server).recorded d' = s.recorded d' :=
    fun d' => by
      rw [recorded, recorded, SQLiteDatabase.recorded, SQLiteDatabase.recorded,
        SQLiteDatabase.rows, SQLiteDatabase.rows, hops]
  refine ⟨⟨h.nonempty, h.registered, h.client⟩, hsound, h.pendingClient, fun conn => ?_⟩
  refine (h.served conn).congr (fun d' hd' => ?_) (fun d' _ => hrecorded d') (fun _ => rfl) id
    fun _ _ ho => ho
  change d' ∈ store.documents
  rw [hdocs]
  exact (AList.mem_insert _).mpr (Or.inr hd')

/-- A registered connection without a document has neither sent nor received an operation. -/
theorem Served.of_document_eq_none {s : Server} {c : ClientConnection} {busy : Prop}
    {owed : Operation → Prop} (h : s.Served c busy owed) (hdoc : c.currentDocument = none) :
    (c.isRegistered → c.state = .registered) ∧
      ∀ op, op ∉ c.operationsSent ∧ op ∉ c.submitted := by
  have hno : ∀ {P : DocumentID → Prop}, ¬ ∃ d, c.currentDocument = some d ∧ P d := by
    rintro P ⟨d, hd, -⟩
    rw [hdoc] at hd
    cases hd
  refine ⟨fun hreg => ?_, fun op => ⟨fun hop => hno (h.own op (Or.inl hop)),
    fun hop => hno (h.own op (Or.inr hop))⟩⟩
  have hopened : ¬ (c.state = .syncing ∨ c.state = .live) := fun hs =>
    hno (P := fun _ => True) ((h.opened hs).imp fun d hd => ⟨hd, trivial⟩)
  exact (or_assoc.mpr (isRegistered_iff.mp hreg)).resolve_left hopened

/-- **A client answered with the record of its document is synchronizing.** -/
theorem Relays.synchronizing {s : Server} (h : Relays sha256 s none Settled) {conn : ConnId}
    (hreg : (s.connections conn).isRegistered) (hdoc : (s.connections conn).currentDocument = none)
    {d : DocumentID} (hd : d ∈ s.store.documents) {c : ClientConnection}
    (hid : c.clientId = (s.connections conn).clientId) (hs : c.state = .syncing)
    (hcd : c.currentDocument = some d) (hsub : c.submitted = (s.connections conn).submitted)
    {busy : Option ConnId} (hsent : ∀ op ∈ c.operationsSent, op ∈ s.recorded d)
    (hall : some conn ≠ busy →
      (∀ m ∈ c.sent, m.payload.operations ≠ [] → m.type = .syncResponse) ∧
        ∀ op ∈ s.recorded d, op ∈ c.operationsSent) :
    Relays sha256 (s.setConnection conn c) busy Settled := by
  have hc := h.served conn
  obtain ⟨hstate, hnone⟩ := hc.of_document_eq_none hdoc
  have hlookup := hid ▸ hc.pendingRegistered (hstate hreg)
  refine h.setConnection hid (by rw [isRegistered_of_syncing hs]; exact hreg.symm) ?_
    (fun _ _ _ => by simp) fun _ _ _ ho => ho
  exact
    { document := fun d' hd' => Option.some.inj (hcd.symm.trans hd') ▸ hd
      opened := fun _ => ⟨d, hcd⟩
      pendingRegistered := fun hs' => by rw [hs] at hs'; cases hs'
      pendingSyncing := fun _ => UMap.mem_of_lookup hlookup
      pendingRecorded := fun _ _ _ op hop => by
        rw [pending, UMap.bucket, hlookup] at hop
        cases hop
      own := fun op hop => ⟨d, hcd, hop.elim (hsent op) fun hop =>
        absurd (hsub ▸ hop) (hnone op).2⟩
      history := fun hb _ => (hall hb).1
      syncing := fun hb d' _ hd' op hop =>
        Or.inl ((hall hb).2 op (Option.some.inj (hcd.symm.trans hd') ▸ hop))
      live := fun _ _ hs' => by rw [hs] at hs'; cases hs' }

/-- **The history a client is answered with is its document's record.** -/
theorem Relays.openDocument {s : Server} (h : Relays sha256 s none Settled) (order : RowOrder Str)
    {conn : ConnId} (hdoc : (s.connections conn).currentDocument = none) (d : DocumentID) :
    (s.openDocument order conn d).Ends (Relays sha256 · none Settled)
      (Relays sha256 · (some conn) Settled) := by
  have hbusy := h.answering conn
  rw [Server.openDocument]
  refine Except.ends_ite (fun _ => hbusy) fun _ => ?_
  refine Except.ends_ite (fun _ => hbusy) fun hreg => ?_
  have hreg : (s.connections conn).isRegistered = true := not_not.mp hreg
  -- the store the history is taken from
  have hbody : ∀ store, Relays sha256 { s with store := store } none Settled → d ∈ store.documents →
      Except.Ends (Relays sha256 · none Settled) (Relays sha256 · (some conn) Settled)
        (do
          let s := { s with store := store }
          let p ← Except.leaving s (s.store.getDocument d)
          let history ← Except.leaving s (p.getHistory s.store.database order)
          let s := s.setConnection conn
            { s.connections conn with currentDocument := some d, state := .syncing }
          s.send conn ⟨.syncResponse, str "server", .history history⟩) := by
    intro store h hd
    have hnone := ((h.served conn).of_document_eq_none hdoc).2
    refine Except.ends_leaving_bind (fun p hp => ?_) (h.answering conn)
    obtain ⟨p', hp'⟩ := UMap.mem_iff_lookup.mp hd
    obtain rfl : p' = p :=
      Except.ok.inj ((DocumentStore.getDocument_of_lookup hp').symm.trans hp)
    refine Except.ends_leaving_bind (fun history hhistory => ?_) (h.answering conn)
    have hrecorded : ∀ op, op ∈ history ↔
        op ∈ ({ s with store := store } : Server).recorded d := fun op => by
      obtain ⟨history', hload, hmem⟩ := h.store.database.load order p'.documentId
      obtain rfl := Except.ok.inj (hload.symm.trans hhistory)
      rw [hmem, h.store.documentId d p' hp', recorded]
    refine ends_send (fun _ => ?_) (fun hno => absurd ?_ hno) fun _ => ?_
    · have hsent : ∀ c' : ClientConnection, c'.sent = (s.connections conn).sent ++
            [⟨.syncResponse, str "server", .history history⟩] → ∀ op, op ∈ c'.operationsSent ↔
          op ∈ (s.connections conn).operationsSent ∨ op ∈ history :=
        fun c' h => mem_operationsSent_append h
      rw [setConnection_setConnection, connections_setConnection_self]
      refine h.synchronizing
        (c := { s.connections conn with
          currentDocument := some d
          state := .syncing
          sent := (s.connections conn).sent ++ [⟨.syncResponse, str "server", .history history⟩] })
        hreg hdoc hd rfl rfl rfl rfl (fun op hop => ?_)
        fun _ => ⟨fun m hm hne => ?_, fun op hop => ?_⟩
      · exact (hrecorded op).mp ((hsent _ rfl op).mp hop |>.resolve_left (hnone op).1)
      · rcases List.mem_append.mp hm with hm | hm
        · obtain ⟨op, hop⟩ := List.exists_mem_of_ne_nil _ hne
          exact absurd (List.mem_flatMap.mpr ⟨m, hm, hop⟩) (hnone op).1
        · rw [List.mem_singleton.mp hm]
      · exact (hsent _ rfl op).mpr (Or.inr ((hrecorded op).mpr hop))
    · rw [connections_setConnection_self]
      exact isRegistered_of_syncing rfl
    · exact h.synchronizing
        (c := { s.connections conn with currentDocument := some d, state := .syncing })
        hreg hdoc hd rfl rfl rfl rfl (fun op hop => absurd hop (hnone op).1) fun hne => absurd rfl hne
  by_cases hexists : s.store.contains d = true
  · simp only [hexists, if_true, pure_bind]
    exact hbody s.store h (by simpa [DocumentStore.contains] using hexists)
  · simp only [hexists, Bool.false_eq_true, if_false]
    refine Except.ends_leaving_bind (fun store hstore => ?_) hbusy
    refine hbody store (h.createDocument hstore) ?_
    rw [(h.store.createDocument hstore).2.2.1]
    exact (AList.mem_insert _).mpr (Or.inl rfl)

/-! ## Finishing a synchronization -/

/-- A client without a synchronization to finish needs no pending list. -/
theorem Relays.erasePending {s : Server} {busy : Option ConnId}
    {owed : ConnId → Operation → Prop} (h : Relays sha256 s busy owed) {conn : ConnId}
    (hs : (s.connections conn).state = .live) :
    Relays sha256 { s with
      pendingSyncOperations := AList.erase (s.connections conn).clientId s.pendingSyncOperations }
      busy owed := by
  have hl := h.client conn (isRegistered_of_live hs)
  refine
    { h with
      pendingClient := fun id hid => h.pendingClient id (AList.mem_erase.mp hid).2
      served := fun conn' => ?_ }
  by_cases he : conn' = conn
  · have hc := h.served conn
    subst he
    exact
      { document := hc.document
        opened := hc.opened
        pendingRegistered := fun hs' => by rw [hs] at hs'; cases hs'
        pendingSyncing := fun hs' => by rw [hs] at hs'; cases hs'
        pendingRecorded := fun _ hs' => by rw [hs] at hs'; cases hs'
        own := hc.own
        history := hc.history
        syncing := fun _ _ hs' => by rw [hs] at hs'; cases hs'
        live := hc.live }
  · refine (h.served conn').congr (fun _ hd => hd) (fun _ _ => rfl) (fun hr => ?_) id
      fun _ _ ho => ho
    exact (UMap.lookup_erase _ _ _).trans (if_neg (h.toEnrolled.clientId_ne hr ((h.toEnrolled.lookup_iff conn).mp hl) he))

theorem Relays.sendPresence {s : Server} {busy : Option ConnId} {owed : ConnId → Operation → Prop}
    (h : Relays sha256 s busy owed) (conn : ConnId) :
    (s.sendPresence conn).Ends (Relays sha256 · busy owed) (Relays sha256 · busy owed) := by
  rw [Server.sendPresence]
  refine Except.ends_leaving_bind (fun d _ => h.foldlM_quiet fun t e ht => ?_) h
  refine Except.ends_ite (fun _ => ht) fun _ => ?_
  split
  · exact ht
  · exact Except.ends_ite (fun _ => ht.send_quiet conn rfl) fun _ => ht

/-- **A client that finished synchronizing holds its document's record**: what its history lacked
was pending. -/
theorem Relays.finishSync {s : Server} (h : Relays sha256 s none Settled) (conn : ConnId) :
    (s.finishSync conn).Ends (Relays sha256 · none Settled) (Relays sha256 · (some conn) Settled) := by
  have hbusy := h.answering conn
  rw [Server.finishSync]
  refine Except.ends_ite (fun _ => h) fun hsyncing => ?_
  refine Except.ends_ite (fun _ => hbusy) fun hdoc => ?_
  have hs : (s.connections conn).state = .syncing := by
    simpa [ClientConnection.isSyncing] using hsyncing
  obtain ⟨d, hd⟩ := Option.ne_none_iff_exists'.mp hdoc
  have hc := h.served conn
  obtain ⟨ops, hops⟩ := UMap.mem_iff_lookup.mp (hc.pendingSyncing hs)
  have hpending : s.pending (s.connections conn).clientId = ops := by
    rw [pending, UMap.bucket, hops, Option.getD_some]
  simp only [hops]
  -- the pending operations are sent one by one
  have hloop := Except.ends_foldlM (l := ops) (s := s) (Q := (Relays sha256 · (some conn) Settled))
    (f := fun t operation => t.send conn ⟨.operation, str "server", .operation operation⟩)
    (I := fun l t => (∃ sent, t = s.setConnection conn { s.connections conn with sent := sent }) ∧
      Relays sha256 t (some conn) Settled ∧ (∀ op ∈ l, op ∈ s.recorded d) ∧
      ∀ op, op ∈ (s.connections conn).operationsSent ∨ op ∈ ops →
        op ∈ (t.connections conn).operationsSent ∨ op ∈ l)
    (fun op l t ht => by
      obtain ⟨⟨sent, rfl⟩, hrelays, hl, hall⟩ := ht
      simp only [connections_setConnection_self] at hall
      have hrest : ∀ op ∈ l, op ∈ s.recorded d := fun o ho => hl o (List.mem_cons_of_mem _ ho)
      refine ends_send (fun _ => ⟨⟨sent ++ [⟨.operation, str "server", .operation op⟩], ?_⟩, ?_,
        hrest, ?_⟩)
        (fun hno => absurd ?_ hno) fun _ => hrelays
      · rw [setConnection_setConnection, connections_setConnection_self]
      · refine hrelays.sent (fun o ho => ⟨d, ?_, ?_⟩) (fun hne => absurd rfl hne) fun _ _ => Or.inl
        · rw [connections_setConnection_self]
          exact hd
        · rw [List.mem_singleton.mp ho]
          exact hl op List.mem_cons_self
      · intro o ho
        simp only [connections_setConnection_self]
        rw [mem_operationsSent_append (c := { s.connections conn with sent := sent })
          (m := ⟨.operation, str "server", .operation op⟩) rfl]
        obtain ho | ho := hall o ho
        · exact Or.inl (Or.inl ho)
        · exact (List.mem_cons.mp ho).imp (fun he => Or.inr (List.mem_singleton.mpr he)) id
      · rw [connections_setConnection_self]
        exact isRegistered_of_syncing hs)
    ⟨⟨_, (setConnection_self s conn).symm⟩, hbusy,
      fun op hop => hc.pendingRecorded d hs hd op (hpending.symm ▸ hop), fun _ ho => ho⟩
  refine hloop.bind fun t ht => ?_
  obtain ⟨⟨sent, rfl⟩, hrelays, -, hall⟩ := ht
  simp only [connections_setConnection_self, List.not_mem_nil, or_false] at hall
  -- so the client can be live
  have hlive : Relays sha256 (s.setConnection conn
      { s.connections conn with sent := sent, state := .live }) none Settled := by
    have hc' := hrelays.served conn
    rw [connections_setConnection_self] at hc'
    rw [← setConnection_setConnection s conn { s.connections conn with sent := sent }]
    refine hrelays.setConnection (by rw [connections_setConnection_self]) ?_ ?_
      (fun conn' hne _ he => hne (Option.some.inj he)) fun _ _ _ ho => ho
    · rw [connections_setConnection_self, isRegistered_of_live rfl]
      exact (isRegistered_of_syncing hs).symm
    · exact
        { document := hc'.document
          opened := fun _ => ⟨d, hd⟩
          pendingRegistered := fun hs' => by cases hs'
          pendingSyncing := fun hs' => by cases hs'
          pendingRecorded := fun _ hs' => by cases hs'
          own := hc'.own
          history := fun _ hs' => by cases hs'
          syncing := fun _ _ hs' => by cases hs'
          live := fun _ d' _ hd' op hop => by
            refine Or.inl (hall op ?_)
            obtain ho | ho | ho := hc.syncing (by simp) d' hs hd' op hop
            exacts [Or.inl ho, Or.inr (hpending ▸ ho), ho.elim] }
  have herase := hlive.erasePending (congrArg ClientConnection.state
    (connections_setConnection_self s conn _))
  simp only [connections_setConnection_self] at herase
  refine (Relays.sendPresence ?_ conn).imp (fun _ ht => ht) fun t ht => ht.answering conn
  exact herase.congr (by simp [Server.setConnection]) rfl rfl rfl

/-! ## Routing -/

/-- What is owed while an operation is being routed: the operation, to the peers whose turn is still
to come. -/
def Unrouted (s : Server) (sender : ConnId) (d : DocumentID) (operation : Operation)
    (l : List (Sigma fun _ : Str => ConnId)) (conn : ConnId) (op : Operation) : Prop :=
  op = operation ∧ (∃ id, ⟨id, conn⟩ ∈ l) ∧ s.Peer sender d conn

/-- An operation pending for a synchronizing client is not lost to it. -/
theorem Relays.push {s : Server} {owed owed' : ConnId → Operation → Prop}
    (h : Relays sha256 s none owed) {conn : ConnId} {d : DocumentID} {operation : Operation}
    (hs : (s.connections conn).state = .syncing) (hd : (s.connections conn).currentDocument = some d)
    (hop : operation ∈ s.recorded d)
    (howed : ∀ conn' op, owed conn' op → owed' conn' op ∨ conn' = conn ∧ op = operation) :
    Relays sha256 { s with
      pendingSyncOperations :=
        UMap.push s.pendingSyncOperations (s.connections conn).clientId operation } none owed' := by
  have hl := h.client conn (isRegistered_of_syncing hs)
  have hlookup : ∀ id, AList.lookup id (UMap.push s.pendingSyncOperations
      (s.connections conn).clientId operation) = if id = (s.connections conn).clientId then
        some (s.pending (s.connections conn).clientId ++ [operation])
      else AList.lookup id s.pendingSyncOperations := fun id => UMap.lookup_insert _ _ _ _
  refine
    { h with
      pendingClient := fun id hid => ?_
      served := fun conn' => ?_ }
  · rcases (AList.mem_insert _).mp hid with rfl | hid
    exacts [UMap.mem_of_lookup hl, h.pendingClient id hid]
  · by_cases he : conn' = conn
    · have hc := h.served conn
      subst he
      have hpending : ∀ op, op ∈ UMap.bucket (UMap.push s.pendingSyncOperations
          (s.connections conn').clientId operation) (s.connections conn').clientId ↔
          op ∈ s.pending (s.connections conn').clientId ∨ op = operation := fun op => by
        rw [UMap.bucket, hlookup, if_pos rfl, Option.getD_some, List.mem_append,
          List.mem_singleton]
      exact
        { document := hc.document
          opened := hc.opened
          pendingRegistered := fun hs' => by rw [hs] at hs'; cases hs'
          pendingSyncing := fun _ => (AList.mem_insert _).mpr (Or.inl rfl)
          pendingRecorded := fun d' _ hd' op hop' => by
            rcases (hpending op).mp hop' with hop' | rfl
            · exact hc.pendingRecorded d' hs hd' op hop'
            · exact Option.some.inj (hd.symm.trans hd') ▸ hop
          own := hc.own
          history := hc.history
          syncing := fun hb d' _ hd' op hop' => by
            rcases hc.syncing hb d' hs hd' op hop' with ho | ho | ho
            · exact Or.inl ho
            · exact Or.inr (Or.inl ((hpending op).mpr (Or.inl ho)))
            · rcases howed _ op ho with ho | ⟨-, ho⟩
              exacts [Or.inr (Or.inr ho), Or.inr (Or.inl ((hpending op).mpr (Or.inr ho)))]
          live := fun _ _ hs' => by rw [hs] at hs'; cases hs' }
    · refine (h.served conn').congr (fun _ hd => hd) (fun _ _ => rfl) (fun hr => ?_) id
        fun _ op ho => (howed conn' op ho).resolve_right fun hc => he hc.1
      exact (hlookup _).trans (if_neg (h.toEnrolled.clientId_ne hr ((h.toEnrolled.lookup_iff conn).mp hl) he))

/-- **Routing pays what recording the operation made the server owe.** -/
theorem Relays.routeMessage {s : Server} {sender : ConnId} {d : DocumentID} {message : Message}
    {operation : Operation}
    (h : Relays sha256 s none (s.Unrouted sender d operation s.clients.entries))
    (hd : (s.connections sender).currentDocument = some d)
    (hop : message.payload = .operation operation) (hrec : operation ∈ s.recorded d)
    (hlen : message.serialize.length < 2 ^ 32) :
    (s.routeMessage sender message).Ends (Relays sha256 · none Settled)
      (Relays sha256 · (some sender) Settled) := by
  have hget : (s.connections sender).getCurrentDocument = .ok d := by
    rw [ClientConnection.getCurrentDocument, hd]
  rw [Server.routeMessage]
  simp only [hget, hop, MessagePayload.getOperation, Except.leaving, bind, Except.bind]
  refine (Except.ends_foldlM (Q := (Relays sha256 · (some sender) Settled))
    (I := fun l t => Relays sha256 t none (t.Unrouted sender d operation l) ∧
      operation ∈ t.recorded d ∧ ∀ e ∈ l, AList.lookup e.1 t.clients = some e.2)
    (fun e l t ht => ?_) ⟨h, hrec, fun e he => UMap.mem_entries.mp he⟩).imp
    (fun t ht => ht.1.mono (fun _ hb => hb) fun _ _ ho => ?_) fun _ ht => ht
  · obtain ⟨hrelays, hrec, hentries⟩ := ht
    have hrest := fun e he => hentries e (List.mem_cons_of_mem _ he)
    obtain ⟨hid, hreg⟩ := hrelays.registered _ _ (hentries e List.mem_cons_self)
    -- the turn of `e.2` pays what is owed to it
    have howed : ∀ conn o, t.Unrouted sender d operation (e :: l) conn o →
        t.Unrouted sender d operation l conn o ∨ conn = e.2 ∧ o = operation := by
      rintro conn o ⟨rfl, ⟨id, he⟩, hpeer⟩
      rcases List.mem_cons.mp he with rfl | he
      exacts [Or.inr ⟨rfl, rfl⟩, Or.inl ⟨rfl, ⟨id, he⟩, hpeer⟩]
    rw [routeTo]
    refine Except.ends_ite (fun hpeer => ?_) fun hpeer => ?_
    · refine Except.ends_ite (fun hs => ?_) fun hs => Except.ends_ite (fun hl => ?_) fun hl => ?_
      · refine ⟨?_, hrec, hrest⟩
        have := hrelays.push (by simpa [ClientConnection.isSyncing] using hs) hpeer.2 hrec howed
        rwa [hid] at this
      · refine ends_send (fun _ => ⟨?_, hrec, hrest⟩) (fun hno => absurd hreg hno)
          fun hlen' => absurd hlen (by omega)
        refine hrelays.sent (fun o ho => ⟨d, hpeer.2, ?_⟩) (fun _ hs' => ?_) fun conn o ho => ?_
        · rw [hop] at ho
          exact List.mem_singleton.mp ho ▸ hrec
        · simp [ClientConnection.isSyncing, hs'] at hs
        · rw [hop]
          refine (howed conn o ho).imp (fun hu => ⟨hu.1, hu.2.1, ?_⟩) fun he =>
            ⟨he.1, List.mem_singleton.mpr he.2⟩
          refine ⟨hu.2.2.1, ?_⟩
          rw [connections_setConnection]
          split
          case isTrue he => exact hpeer.2
          case isFalse => exact hu.2.2.2
      · refine ⟨hrelays.waive (by simpa [ClientConnection.isSyncing] using hs)
          (by simpa [ClientConnection.isLive] using hl) fun conn hne o ho => ?_, hrec, hrest⟩
        exact (howed conn o ho).resolve_right fun he => hne he.1
    · refine ⟨hrelays.mono (fun _ hb => hb) fun conn o ho => ?_, hrec, hrest⟩
      refine (howed conn o ho).resolve_right fun he => hpeer ?_
      exact he.1 ▸ ho.2.2
  · obtain ⟨-, ⟨id, hno⟩, -⟩ := ho
    cases hno

theorem Relays.routeCursorUpdate {s : Server} (h : Relays sha256 s none Settled) (sender : ConnId)
    (message : Message) :
    (s.routeCursorUpdate sender message).Ends (Relays sha256 · none Settled)
      (Relays sha256 · none Settled) := by
  rw [Server.routeCursorUpdate]
  refine Except.ends_leaving_bind (fun d _ => ?_) h
  refine Except.ends_leaving_bind (fun position hposition => ?_) h
  have hquiet : message.payload.operations = [] := by
    cases hp : message.payload <;> rw [hp] at hposition <;> first | rfl | cases hposition
  refine Except.ends_ite (fun _ => h) fun _ => ?_
  refine Relays.foldlM_quiet (h.congr rfl rfl rfl rfl) fun t e ht => ?_
  exact Except.ends_ite (fun _ => ht.send_quiet e.2 hquiet) fun _ => ht

/-! ## An operation -/

section

variable {s : Server} {sender : ConnId} {d : DocumentID} {message : Message}
  {operation : Operation}

/-- **An accepted operation is recorded, applied and routed.** -/
theorem Relays.applyAndRoute (h : Relays sha256 s none Settled)
    (hlive : (s.connections sender).state = .live)
    (hd : (s.connections sender).currentDocument = some d)
    (hop : message.payload = .operation operation) (hlen : message.serialize.length < 2 ^ 32)
    (hbar : operation.Avoids bar) (hnul : operation.Avoids nul)
    (hcollision : s.store.database.NoCollision sha256 d operation)
    (hconsistent : Operation.Consistent (insert operation {op | op ∈ s.recorded d})) :
    (s.applyAndRoute sha256 sender message).Ends (Relays sha256 · none Settled)
      (Relays sha256 · (some sender) Settled) := by
  have hget : (s.connections sender).getCurrentDocument = .ok d := by
    rw [ClientConnection.getCurrentDocument, hd]
  have hdoc := (h.served sender).document d hd
  obtain ⟨store, hstore, hsound, hdocs, -, hrecorded⟩ :=
    h.store.applyOperation hdoc hbar hnul hcollision hconsistent
  rw [Server.applyAndRoute]
  simp only [hop, MessagePayload.getOperation, hget, Except.leaving, bind, Except.bind, hstore]
  set t : Server := { s with store := store } with ht
  -- what the record of a document in memory gained
  have hnew : ∀ d' ∈ s.store.documents, ∀ op, op ∈ t.recorded d' ↔
      op ∈ s.recorded d' ∨ d' = d ∧ op = operation := fun d' hd' op => by
    refine (hrecorded d' op).trans (or_congr_right (and_congr_left' ⟨fun he => ?_, fun he => ?_⟩))
    exacts [h.store.injective d' hd' d hdoc he, he ▸ rfl]
  have hin : operation ∈ t.recorded d := (hnew d hdoc operation).mpr (Or.inr ⟨rfl, rfl⟩)
  have howing : Relays sha256 t none fun conn op => op = operation ∧
      (s.connections conn).isRegistered ∧ (s.connections conn).currentDocument = some d := by
    refine
      { h with
        store := hsound
        served := fun conn => ?_ }
    have hc := h.served conn
    refine hc.grow (fun d' hd' => (hdocs d').mpr hd')
      (fun d' hd' op ho => (hnew d' (hc.document d' hd') op).mpr (Or.inl ho))
      (fun hr _ d' hd' op ho => ?_) (fun _ => rfl) id fun _ _ ho => ho.elim
    refine ((hnew d' (hc.document d' hd') op).mp ho).imp id fun he => ⟨he.2, hr, ?_⟩
    exact he.1 ▸ hd'
  have hself : Relays sha256 (t.setConnection sender { s.connections sender with
      submitted := (s.connections sender).submitted ++ [operation] }) none
      ((t.setConnection sender { s.connections sender with
        submitted := (s.connections sender).submitted ++ [operation] }).Unrouted sender d operation
          s.clients.entries) := by
    have hc := howing.served sender
    refine howing.setConnection rfl rfl ?_ (fun _ _ hb => hb) fun conn hne op ho => ?_
    · exact
        { hc with
          own := fun op ho => by
            rw [List.mem_append, ← or_assoc, List.mem_singleton] at ho
            rcases ho with ho | rfl
            exacts [hc.own op ho, ⟨d, hd, hin⟩]
          history := fun _ hs => by rw [hlive] at hs; cases hs
          syncing := fun _ _ hs => by rw [hlive] at hs; cases hs
          live := fun hb d' hs hd' op ho => by
            rw [List.mem_append, List.mem_singleton]
            rcases hc.live hb d' hs hd' op ho with ho | ho | ho
            exacts [Or.inl ho, Or.inr (Or.inl (Or.inl ho)), Or.inr (Or.inl (Or.inr ho.1))] }
    · refine ⟨ho.1, ⟨_, UMap.mem_entries.mpr (h.client conn ho.2.1)⟩, hne, ?_⟩
      rw [connections_setConnection, if_neg hne]
      exact ho.2.2
  refine hself.routeMessage ?_ hop hin hlen
  rw [connections_setConnection_self]
  exact hd

end

end Server

end CrdtEditor
