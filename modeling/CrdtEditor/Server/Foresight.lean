import CrdtEditor.Server.Protocol
import CrdtEditor.Wire.Canonical

/-!
# Server/Foresight — what the server will make of what is on its way

The server reads the messages of a connection in order.  Whatever else happens meanwhile, it makes of
them what can be foreseen from the connection and the messages alone (`foresee`), or ends the connection
(`Outcome.foresee`).
-/

namespace CrdtEditor

open Text

/-- A text that decodes has a bar. -/
theorem Operation.bar_mem_of_deserialize {s : Str} {op : Operation} (h : deserialize s = .ok op) :
    bar ∈ s := by
  cases op with
  | insert oper => exact (deserialize_eq_insert.mp h).1.subset (by decide)
  | remove oper => exact (deserialize_eq_remove.mp h).1.subset (by decide)

namespace Message

theorem sender_of_deserialize_serialize {m m' : Message} (hsender : newline ∉ m.sender)
    (h : deserialize m.serialize = .ok m') : m'.sender = m.sender := by
  rw [deserialize, split_serialize hsender] at h
  simp only [token, List.getElem?_cons_zero, List.getElem?_cons_succ, bind, Except.bind,
    MessageType.deserialize_serialize] at h
  split at h
  · cases h
  · rw [← Except.ok.inj h]

/-- The line that an operation is read from. -/
theorem deserialize_line {a b c : Str} {rest : List Str} {payload : MessagePayload}
    (h : payloadOf (a :: b :: c :: rest) .operation = .ok payload) :
    ∃ op, payload = .operation op ∧ Operation.deserialize c = .ok op := by
  rw [payloadOf] at h
  split_ifs at h
  · cases h
  · simp only [token, List.getElem?_cons_zero, List.getElem?_cons_succ, bind, Except.bind, pure,
      Except.pure] at h
    cases hop : Operation.deserialize c with
    | error e =>
      rw [hop] at h
      cases h
    | ok op =>
      rw [hop] at h
      exact ⟨op, (Except.ok.inj h).symm, rfl⟩

theorem exists_document {tokens : List Str} {payload : MessagePayload}
    (h : payloadOf tokens .openDocument = .ok payload) : ∃ d, payload = .openDocument d := by
  rw [payloadOf] at h
  split_ifs at h
  · cases h
  · cases hd : token tokens 2 with
    | error e =>
      rw [hd] at h
      cases h
    | ok d =>
      rw [hd] at h
      exact ⟨d, (Except.ok.inj h).symm⟩

/-- Only two types of messages carry operations. -/
theorem type_of_mem_operations {body : Str} {m : Message} {op : Operation}
    (h : deserialize body = .ok m) (hop : op ∈ m.payload.operations) :
    m.type = .operation ∨ m.type = .syncResponse := by
  have hformed := formed_of_deserialize h
  obtain ⟨-, hp⟩ := of_deserialize h
  obtain ⟨type, sender, payload⟩ := m
  cases type with
  | operation => exact Or.inl rfl
  | syncResponse => exact Or.inr rfl
  | openDocument =>
    obtain ⟨d, rfl⟩ := exists_document hp
    exact absurd hop List.not_mem_nil
  | cursorUpdate => cases payload <;> first | exact absurd hop List.not_mem_nil | cases hformed
  | hello | helloAck | syncComplete =>
    obtain rfl := Except.ok.inj hp
    exact absurd hop List.not_mem_nil
  | syncRequest => cases hp

/-- **An operation that is read is the one that was written**, unless the id of the sender holds both a
newline and a bar. -/
theorem eq_of_read_operation {m m' : Message} {op : Operation} (htype : m.type = .operation)
    (hpayload : m.payload = .operation op) (hsender : newline ∈ m.sender → bar ∉ m.sender)
    (hline : newline ∉ m.sender → op.Avoids newline) (h : deserialize m.serialize = .ok m') :
    newline ∉ m.sender ∧ op.Avoids bar ∧ m' = m := by
  obtain ⟨-, hp⟩ := of_deserialize h
  rw [type_of_deserialize_serialize h, htype] at hp
  by_cases hm : newline ∈ m.sender
  · exfalso
    obtain ⟨u, v, hs, hu⟩ := List.eq_append_cons_of_mem hm
    -- the third line is part of the id
    obtain ⟨a, b, hab, ha, hsub⟩ : ∃ a b, v ++ newline :: m.payload.serialize = a ++ newline :: b ∧
        newline ∉ a ∧ a ⊆ v := by
      by_cases hv : newline ∈ v
      · obtain ⟨a, b, rfl, ha⟩ := List.eq_append_cons_of_mem hv
        exact ⟨a, b ++ newline :: m.payload.serialize, by simp, ha, List.subset_append_left _ _⟩
      · exact ⟨v, _, rfl, hv, List.Subset.refl v⟩
    have hsplit : split newline m.serialize = m.type.serialize :: u :: a :: b.splitOn newline := by
      rw [serialize, split_cons m.type.newline_notMem_serialize, hs, List.append_assoc,
        List.cons_append, splitOn_cons hu, hab, splitOn_cons ha]
    rw [hsplit] at hp
    obtain ⟨_, -, hdec⟩ := deserialize_line hp
    have hbar : bar ∈ a := Operation.bar_mem_of_deserialize hdec
    refine hsender hm ?_
    rw [hs]
    exact List.mem_append_right _ (List.mem_cons_of_mem _ (hsub hbar))
  · rw [split_serialize hm, hpayload, MessagePayload.serialize,
      List.splitOn_eq_singleton (newline_notMem_serialize (hline hm))] at hp
    obtain ⟨op', -, hdec⟩ := deserialize_line hp
    have hbar : op.Avoids bar := Operation.avoids_of_readable (Operation.readable_iff.mpr ⟨op', hdec⟩)
    refine ⟨hm, hbar, ?_⟩
    obtain ⟨type, sender, payload⟩ := m
    subst htype hpayload
    rw [deserialize_serialize ⟨hm, hline hm, hbar⟩] at h
    exact (Except.ok.inj h).symm

end Message

/-! ## What can be foreseen -/

namespace ClientConnection

/-- The connection once the server has read a message that its client wrote. -/
def foresee (c : ClientConnection) (m : Message) : ClientConnection :=
  match Message.deserialize m.serialize with
  | .ok m' => if c.state.Expects m'.type then c.accept m' else { c with state := .disconnected }
  | .error _ => { c with state := .disconnected }

variable {c : ClientConnection} {m m' : Message} {ms : List Message}

theorem foresee_of_accepts (hm : Message.deserialize m.serialize = .ok m')
    (he : c.state.Expects m'.type) : c.foresee m = c.accept m' := by
  rw [foresee, hm]
  exact if_pos he

/-- **What a message can do**: it ends the connection, or moves it on. -/
inductive Foresees (c : ClientConnection) (m : Message) : ClientConnection → Prop
  | ends : Foresees c m { c with state := .disconnected }
  | hello (m' : Message) (phase : c.state = .unregistered)
    (decoded : Message.deserialize m.serialize = .ok m') (type : m'.type = .hello) :
    Foresees c m { c with clientId := m'.sender, state := .registered }
  | openDocument (m' : Message) (d : DocumentID) (phase : c.state = .registered)
    (decoded : Message.deserialize m.serialize = .ok m') (type : m'.type = .openDocument)
    (payload : m'.payload = .openDocument d) :
    Foresees c m { c with currentDocument := some d, state := .syncing }
  | syncComplete (m' : Message) (phase : c.state = .syncing)
    (decoded : Message.deserialize m.serialize = .ok m') (type : m'.type = .syncComplete) :
    Foresees c m { c with state := .live }
  | operation (m' : Message) (op : Operation) (phase : c.state = .live)
    (decoded : Message.deserialize m.serialize = .ok m') (type : m'.type = .operation)
    (payload : m'.payload = .operation op) :
    Foresees c m { c with submitted := c.submitted ++ [op] }
  | cursorUpdate (m' : Message) (phase : c.state = .live)
    (decoded : Message.deserialize m.serialize = .ok m') (type : m'.type = .cursorUpdate) :
    Foresees c m c

theorem foresees (c : ClientConnection) (m : Message) : c.Foresees m (c.foresee m) := by
  rw [foresee]
  cases hm : Message.deserialize m.serialize with
  | error e => exact .ends
  | ok m' =>
    dsimp only
    split_ifs with he
    case neg => exact .ends
    obtain ⟨-, hp⟩ := Message.of_deserialize hm
    obtain ⟨type, sender, payload⟩ := m'
    cases hs : c.state with
    | disconnected =>
      rw [hs] at he
      exact he.elim
    | unregistered =>
      obtain rfl : type = .hello := by rwa [hs] at he
      exact .hello _ hs hm rfl
    | registered =>
      obtain rfl : type = .openDocument := by rwa [hs] at he
      obtain ⟨d, rfl⟩ := Message.exists_document hp
      exact .openDocument _ d hs hm rfl rfl
    | syncing =>
      obtain rfl : type = .syncComplete := by rwa [hs] at he
      exact .syncComplete _ hs hm rfl
    | live =>
      rw [hs] at he
      obtain rfl | rfl := he
      · obtain ⟨op, rfl, -⟩ := Message.operation_of_deserialize hm rfl
        exact .operation _ op hs hm rfl rfl
      · exact .cursorUpdate _ hs hm rfl

/-- A connection that has read a message has begun. -/
theorem Foresees.state_ne {c' : ClientConnection} (h : c.Foresees m c') : c'.state ≠ .unregistered := by
  cases h with
  | ends | hello | openDocument | syncComplete => simp
  | operation _ _ phase | cursorUpdate _ phase => simp [phase]

/-- A connection is registered by its `HELLO`. -/
theorem Foresees.registered {c' : ClientConnection} (h : c.Foresees m c') (hr : c'.state = .registered) :
    c.state = .unregistered ∧ m.type = .hello := by
  cases h with
  | hello m' phase decoded type =>
    exact ⟨phase, (Message.type_of_deserialize_serialize decoded).symm.trans type⟩
  | ends | openDocument | syncComplete => cases hr
  | operation _ _ phase | cursorUpdate _ phase => cases hr.symm.trans phase

/-- **It is registered under the id of its messages.** -/
theorem Foresees.enrolled {c' : ClientConnection} (h : c.Foresees m c') (hsender : newline ∉ m.sender)
    (hc : c.isRegistered → c.clientId = m.sender) (hr : c'.isRegistered) : c'.clientId = m.sender := by
  cases h with
  | ends => cases hr
  | hello m' phase decoded => exact Message.sender_of_deserialize_serialize hsender decoded
  | openDocument _ _ phase => exact hc (Server.isRegistered_of_registered phase)
  | syncComplete _ phase => exact hc (Server.isRegistered_of_syncing phase)
  | operation | cursorUpdate => exact hc hr

/-- What was sent does not count. -/
theorem foldl_foresee_sent (sent : List Message) : ∀ (ms : List Message) (c : ClientConnection),
    ms.foldl foresee { c with sent := sent } = { ms.foldl foresee c with sent := sent }
  | [], _ => rfl
  | m :: ms, c => by
      have hone : ({ c with sent := sent } : ClientConnection).foresee m =
          { c.foresee m with sent := sent } := by
        rw [foresee, foresee]
        cases hm : Message.deserialize m.serialize with
        | error e => rfl
        | ok m' =>
          dsimp only
          split_ifs
          · obtain ⟨type, sender, payload⟩ := m'
            cases type <;> cases payload <;> rfl
          · rfl
      rw [List.foldl_cons, List.foldl_cons, hone]
      exact foldl_foresee_sent sent ms (c.foresee m)

theorem foresee_of_disconnected (h : c.state = .disconnected) (m : Message) : c.foresee m = c := by
  have hends : { c with state := .disconnected } = c := by rw [← h]
  have hforesees := c.foresees m
  generalize c.foresee m = c' at hforesees
  cases hforesees with
  | ends => exact hends
  | hello _ phase | openDocument _ _ phase | syncComplete _ phase | operation _ _ phase
  | cursorUpdate _ phase =>
    exact absurd (h.symm.trans phase) (by decide)

theorem foldl_foresee_of_disconnected (h : c.state = .disconnected) :
    ∀ ms : List Message, ms.foldl foresee c = c
  | [] => rfl
  | m :: ms => by
      rw [List.foldl_cons, foresee_of_disconnected h, foldl_foresee_of_disconnected h ms]

/-- An induction over the messages to come. -/
theorem foldl_foresee {P : ClientConnection → Prop} (h : P c) {ms : List Message}
    (hstep : ∀ m ∈ ms, ∀ c c', P c → c.Foresees m c' → P c') : P (ms.foldl foresee c) := by
  induction ms generalizing c with
  | nil => exact h
  | cons m ms ih =>
    exact ih (hstep m List.mem_cons_self c _ h (c.foresees m))
      fun m' hm' => hstep m' (List.mem_cons_of_mem m hm')

theorem submitted_subset_foldl (ms : List Message) (c : ClientConnection) :
    c.submitted ⊆ (ms.foldl foresee c).submitted := by
  refine foldl_foresee (P := fun c' => c.submitted ⊆ c'.submitted) (List.Subset.refl _)
    fun m _ c₁ c₂ h₁ h₂ => ?_
  cases h₂ with
  | operation => exact List.Subset.trans h₁ (List.subset_append_left _ _)
  | ends | hello | openDocument | syncComplete | cursorUpdate => exact h₁

theorem Foresees.coherent {c' : ClientConnection} (h : c.Foresees m c') (hc : c.Coherent) :
    c'.Coherent := by
  cases h with
  | ends => exact coherent_disconnected rfl
  | hello _ phase => exact ⟨fun _ => hc.unopened (Or.inl phase), fun hor => by simp at hor⟩
  | openDocument _ d => exact ⟨fun hor => by simp at hor, fun _ => ⟨d, rfl⟩⟩
  | syncComplete _ phase => exact ⟨fun hor => by simp at hor, fun _ => hc.opened (Or.inl phase)⟩
  | operation => exact ⟨hc.unopened, hc.opened⟩
  | cursorUpdate => exact hc

theorem Coherent.foldl_foresee (h : c.Coherent) (ms : List Message) : (ms.foldl foresee c).Coherent :=
  ClientConnection.foldl_foresee h fun _ _ _ _ h₁ h₂ => h₂.coherent h₁

end ClientConnection

/-! ## What comes of it -/

namespace Server

variable {s t : Server} {conn : ConnId} {m : Message}

/-- **What was foreseen happens**, or the connection is ended. -/
theorem Outcome.foresee (h : s.Outcome conn m.serialize t) {k : ConnId}
    (hk : (t.connections k).state ≠ .disconnected) :
    ∃ ms, t.connections k =
      { if k = conn then (s.connections k).foresee m else s.connections k with
        sent := (s.connections k).sent ++ ms } := by
  obtain ⟨ms, ⟨hne, he⟩ | ⟨rfl, m', hdec, hexpects, he⟩⟩ := h.connections_of_ne hk
  · exact ⟨ms, by rw [if_neg hne, he]⟩
  · exact ⟨ms, by rw [if_pos rfl, he, ClientConnection.foresee_of_accepts hdec hexpects]⟩

/-- **Who is sent what**: a live client what the server passes on, the sender its reply. -/
theorem Outcome.hears (h : s.Outcome conn m.serialize t) {k : ConnId} {r : Message}
    (hr : r ∈ (t.connections k).sent) : r ∈ (s.connections k).sent ∨
      (k ≠ conn ∧ (s.connections k).state = .live ∧ (r.type = .operation ∨ r.type = .cursorUpdate)) ∨
      (k = conn ∧ ∃ message ms, Message.deserialize m.serialize = .ok message ∧
        (s.connections conn).state.Expects message.type ∧
        s.Reply (s.connections conn) message ms ∧ r ∈ ms) := by
  have hdrops : ∀ {u : Server}, Drops u conn t → u.connections = s.connections →
      r ∈ (s.connections k).sent := fun hd hu => by
    rw [hd.connections, hu] at hr
    split at hr
    case isTrue he => rwa [he]
    case isFalse => exact hr
  obtain ⟨message, -, hdec, hexpects, hanswers⟩ | ⟨_, -, -, -, _, hd⟩ | ⟨-, hd⟩ := h
  · by_cases he : k = conn
    · subst he
      obtain ⟨-, ms, hsent, rfl | ⟨hsync, hcaught⟩⟩ | ⟨ms, hc, hreply⟩ := hanswers.sender
      · exact Or.inl (by rwa [hsent, List.append_nil] at hr)
      · rw [hsent] at hr
        refine (List.mem_append.mp hr).imp (fun hr => hr) fun hr => Or.inr ⟨rfl, message, ms, hdec,
          hexpects, ?_, hr⟩
        rw [Reply, hsync]
        exact hcaught
      · rw [hc] at hr
        exact (List.mem_append.mp hr).imp (fun hr => hr) fun hr => Or.inr ⟨rfl, message, ms, hdec,
          hexpects, hreply, hr⟩
    · obtain ⟨ms, hms, hall⟩ := hanswers.others k he
      rw [hms] at hr
      refine (List.mem_append.mp hr).imp (fun hr => hr) fun hr => Or.inl ⟨he, ?_⟩
      obtain ⟨rfl, hlive, htype⟩ := hall r hr
      exact ⟨hlive.1, htype⟩
  · exact Or.inl (hdrops hd rfl)
  · exact Or.inl (hdrops hd rfl)

/-- Who is neither the sender nor live is left alone. -/
theorem Outcome.untouched (h : s.Outcome conn m.serialize t) {k : ConnId} (hne : k ≠ conn)
    (hk : (s.connections k).state ≠ .live) : t.connections k = s.connections k := by
  obtain ⟨message, -, -, -, hanswers⟩ | ⟨_, -, -, -, _, hd⟩ | ⟨-, hd⟩ := h
  · obtain ⟨ms, hms, hall⟩ := hanswers.others k hne
    obtain rfl : ms = [] := List.eq_nil_iff_forall_not_mem.mpr fun r hr => hk (hall r hr).2.1.1
    rw [hms, List.append_nil]
  all_goals rw [hd.connections, if_neg hne]

/-- What is held back for a client is an operation that was read. -/
theorem Outcome.held (h : s.Outcome conn m.serialize t) {id : Str} {op : Operation}
    (hop : op ∈ t.pending id) : op ∈ s.pending id ∨ ∃ message,
      Message.deserialize m.serialize = .ok message ∧ message.type = .operation ∧
        message.payload = .operation op := by
  obtain ⟨message, -, hdec, hexpects, hanswers⟩ | ⟨_, -, -, -, _, hd⟩ | ⟨-, hd⟩ := h
  · refine (hanswers.pending id op hop).imp (fun hop => hop) fun hop => ⟨message, hdec, ?_⟩
    obtain htype | htype := Message.type_of_mem_operations hdec hop
    · obtain ⟨op', hp, -⟩ := Message.operation_of_deserialize hdec htype
      rw [hp] at hop ⊢
      exact ⟨htype, congrArg _ (List.mem_singleton.mp hop).symm⟩
    · cases hs : (s.connections conn).state <;> simp [hs, htype, ClientState.Expects] at hexpects
  · exact Or.inl (hd.pending id op hop)
  · exact Or.inl (hd.pending id op hop)

/-- **What is recorded was foreseen**, on a live connection. -/
theorem Outcome.recorded_foreseen (h : s.Outcome conn m.serialize t) {d : DocumentID} {op : Operation}
    (hop : op ∈ t.recorded d) : op ∈ s.recorded d ∨
      ∃ operation ∈ ((s.connections conn).foresee m).submitted, operation.StoredAs op ∧
        (s.connections conn).state = .live ∧
        ∃ d', (s.connections conn).currentDocument = some d' ∧ s.recorded d' = s.recorded d := by
  have hdrops : t.store = s.store → op ∈ s.recorded d := fun he => by
    rwa [Server.recorded, he] at hop
  obtain ⟨m', -, hdec, hexpects, hanswers⟩ | ⟨_, -, -, -, _, hd⟩ | ⟨-, hd⟩ := h
  · obtain hop | ⟨operation, d', htype, hp, hstored, hdoc, htext⟩ := hanswers.added d op hop
    · exact Or.inl hop
    have hlive := ClientState.live_of_expects hexpects (Or.inl htype)
    refine Or.inr ⟨operation, ?_, hstored, hlive, d', hdoc, ?_⟩
    · rw [ClientConnection.foresee_of_accepts hdec hexpects, ClientConnection.accept, htype, hp]
      exact List.mem_append_right _ List.mem_cons_self
    · exact SQLiteDatabase.recorded_congr _ htext.symm
  · exact Or.inl (hdrops hd.store)
  · exact Or.inl (hdrops hd.store)

end Server

end CrdtEditor
