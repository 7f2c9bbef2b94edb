import CrdtEditor.System.Flow

/-!
# System/Quiet — what is on its way arrives

A step of the server keeps `Flowing`, so every run does in which no client loses an operation
(`Flowing.step`).  Where nothing is on its way any more, a client that is live on a document has the
document that the server has (`agree_along`).

A client can lose one: `process_outgoing` empties the queue before there is a connection to write to
(`disagree_after_early`).
-/

open scoped List

namespace CrdtEditor

open Text

namespace System

variable {sha256 : Str → Vector UInt8 32} {s t : System} {id : Str}

/-! ## A step of the server -/

/-- **A step of the server**, which may read a message and end connections. -/
theorem Flowing.serve (h : s.Flowing sha256) {server : Server} {links : ConnId → Link}
    (hphased : ({ s with server := server, links := links } : System).Phased)
    (hrelays : Server.Relays sha256 server none Server.Settled)
    (hlinks : ∀ k, (links k).written = (s.links k).written ∧
      (links k).delivered = (s.links k).delivered)
    (hrecorded : ∀ d, ∀ op ∈ server.recorded d, op ∈ s.known)
    (hkept : ∀ d, ∀ op ∈ s.server.recorded d, op ∈ server.recorded d)
    (hsent : ∀ k, ∃ ms, (server.connections k).sent = (s.server.connections k).sent ++ ms ∧
      ∀ m ∈ ms, m.Passable)
    (hstate : ∀ k, (server.connections k).state ≠ .disconnected →
      (s.server.connections k).state ≠ .disconnected)
    (henrolled : ∀ id, (s.network id).state.Connected →
      (server.connections (s.connection id)).isRegistered →
      (server.connections (s.connection id)).clientId = id)
    (hasked : ∀ k d, (server.connections k).state ≠ .disconnected →
      (server.connections k).currentDocument = some d → s.Asks k d)
    (hsubmitted : ∀ id, (s.network id).state.Connected →
      (server.connections (s.connection id)).state ≠ .disconnected →
      ∀ op ∈ (server.connections (s.connection id)).submitted,
        op ∈ (s.peer id).submitted ∨ op ∈ (s.session id).history)
    (hattached : ∀ id, (s.network id).state.Connected → ∀ d, s.Asks (s.connection id) d →
      (server.connections (s.connection id)).state ≠ .disconnected →
      ∀ op ∈ operationsOf ((s.link id).written.drop (s.link id).read), op ∈ server.recorded d ∨
        op ∈ operationsOf ((s.link id).written.drop (links (s.connection id)).read)) :
    ({ s with server := server, links := links } : System).Flowing sha256 := by
  set t : System := { s with server := server, links := links } with ht
  have hlink : ∀ k, (t.link k).written = (s.link k).written ∧
      (t.link k).delivered = (s.link k).delivered := fun k => hlinks _
  have hgrows : Grows s t := ⟨fun _ => subset_rfl, fun _ hx => hx⟩
  have hasks : ∀ k d, t.Asks k d ↔ s.Asks k d := fun k d => by
    rw [Asks, Asks]
    change (∃ m, (links k).written[1]? = some m ∧ _) ↔ _
    rw [(hlinks k).1]
  refine
    { phased := hphased
      relays := hrelays
      known := h.known.congr (fun _ => rfl) (fun _ => rfl) h.known.sound (fun _ _ => rfl) fun _ => rfl
      named := h.named
      recorded := hrecorded
      sent := fun k m hm => ?_
      wired := fun k m hm => ?_
      asked := fun k d hs hd => (hasks k d).2 (hasked k d hs hd)
      queued := fun id m hm => hgrows.queues (h.queued id m hm)
      taken := h.taken
      online := fun id hid => ?_ }
  · obtain ⟨ms, he, hms⟩ := hsent k
    rw [show (t.server.connections k).sent = _ from he] at hm
    exact (List.mem_append.1 hm).elim (h.sent k m) (hms m)
  · obtain ⟨id, hplain, hwires⟩ := h.wired k m ((hlinks k).1 ▸ hm)
    exact ⟨id, hplain, hgrows.wires hwires⟩
  · have ho := h.online id hid
    obtain ⟨ms, he, -⟩ := hsent (s.connection id)
    have hpeer : (t.peer id).sent = (s.peer id).sent ++ ms := he
    refine
      { plain := ho.plain
        enrolled := henrolled id hid
        written := fun m hm => hgrows.wires (ho.written m ((hlink id).1 ▸ hm))
        delivered := ?_
        arrived := fun op hop => ho.arrived op ?_
        submitted := fun hs op hop =>
          (hsubmitted id hid hs op hop).elim (ho.submitted (hstate _ hs) op) fun hop => hop
        attached := fun d hd hs => ?_ }
    · rw [(hlink id).2, hpeer, List.length_append]
      exact ho.delivered.trans (Nat.le_add_right _ _)
    · rwa [(hlink id).2, hpeer, List.take_append_of_le_length ho.delivered] at hop
    · have hd := (hasks _ d).1 hd
      have hread := hattached id hid d hd hs
      have ha := ho.attached d hd (hstate _ hs)
      refine
        { incoming := fun op hop => hkept d op (ha.incoming op hop)
          passed := fun op hop => ?_ }
      rw [(hlink id).1]
      obtain hop | hop | hop := ha.passed op hop
      · exact Or.inl (hkept d op hop)
      · exact (hread op hop).imp (fun ho => ho) Or.inl
      · exact Or.inr (Or.inr hop)

/-- The end of a connection at the server. -/
theorem Flowing.close (h : s.Flowing sha256) {conn : ConnId} (hopen : conn < s.opened) :
    ({ s with server := s.server.disconnect conn } : System).Flowing sha256 := by
  have hconn := Server.connections_disconnect s.server conn
  have hrecorded : ∀ d, (s.server.disconnect conn).recorded d = s.server.recorded d := fun d => by
    rw [Server.recorded, Server.recorded, Server.store_disconnect]
  -- a connection that is not ended is as it was
  have hkeeps : ∀ k, ((s.server.disconnect conn).connections k).state ≠ .disconnected →
      (s.server.disconnect conn).connections k = s.server.connections k := fun k hk => by
    rw [hconn] at hk ⊢
    split at hk
    case isTrue => exact absurd rfl hk
    case isFalse hne => rw [if_neg hne]
  refine h.serve (h.phased.close hopen)
    (h.relays.disconnect conn (Or.inl rfl)) (fun _ => ⟨rfl, rfl⟩)
    (fun d op hop => h.recorded d op (hrecorded d ▸ hop)) (fun d op hop => (hrecorded d).symm ▸ hop)
    (fun k => ⟨[], ?_, by simp⟩) (fun k hs => hkeeps k hs ▸ hs) (fun id hid hr => ?_)
    (fun k d hs hd => h.asked k d (hkeeps k hs ▸ hs) (hkeeps k hs ▸ hd))
    (fun id _ hs op hop => Or.inl ?_) fun id _ d _ _ op hop => Or.inr hop
  · rw [hconn, List.append_nil]
    split
    case isTrue he => rw [he]
    case isFalse => rfl
  · have hs := fun hd => Server.not_isRegistered_of_disconnected hd hr
    rw [hkeeps _ hs] at hr ⊢
    exact (h.online id hid).enrolled hr
  · rw [peer, ← hkeeps _ hs]
    exact hop

theorem Wires.operation_of_mem {m : Message} (h : s.Wires id m) {op : Operation}
    (hop : op ∈ m.payload.operations) : m = ⟨.operation, id, .operation op⟩ := by
  obtain (⟨op', -, rfl⟩ | rfl | ⟨x, -, -, rfl⟩) | rfl | ⟨d, rfl⟩ := h
  · rw [List.mem_singleton.1 hop]
  all_goals cases hop

theorem Wires.operation {m : Message} (h : s.Wires id m) (hm : m.type = .operation) :
    ∃ op ∈ (s.session id).history, m = ⟨.operation, id, .operation op⟩ := by
  obtain (⟨op, hop, he⟩ | rfl | ⟨x, -, -, rfl⟩) | rfl | ⟨d, rfl⟩ := h
  · exact ⟨op, hop, he⟩
  all_goals cases hm

/-- An operation that a client wrote is read as it was written. -/
theorem Flowing.reads (h : s.Flowing sha256) (hid : Plain id) {m m' : Message} (hm : s.Wires id m)
    (hdec : Message.deserialize m.serialize = .ok m') (htype : m'.type = .operation) :
    ∃ op ∈ (s.session id).history, m = ⟨.operation, id, .operation op⟩ ∧ m' = m ∧
      op ∈ s.known ∧ m.Clean := by
  have htypes := Message.type_of_deserialize_serialize hdec
  obtain ⟨op, hop, rfl⟩ := hm.operation (htypes.symm.trans htype)
  have hclean : Message.Clean ⟨.operation, id, .operation op⟩ := by
    obtain ⟨hnewline, hbar, -⟩ := h.known.avoids ⟨id, hop⟩
    exact ⟨hid.1, hnewline, hbar⟩
  rw [Message.deserialize_serialize hclean] at hdec
  exact ⟨op, hop, rfl, (Except.ok.inj hdec).symm, ⟨id, hop⟩, hclean⟩

/-- A client says who it is. -/
theorem Wires.sender_of_hello (hid : Plain id) {m m' : Message} (h : s.Wires id m)
    (hdec : Message.deserialize m.serialize = .ok m') (htype : m'.type = .hello) : m'.sender = id := by
  rw [Message.type_of_deserialize_serialize hdec] at htype
  obtain (⟨op, -, rfl⟩ | rfl | ⟨x, -, -, rfl⟩) | rfl | ⟨d, rfl⟩ := h
  all_goals try cases htype
  have hclean : (NetworkClient.hello id).Clean := ⟨hid.1, trivial⟩
  rw [Message.deserialize_serialize hclean] at hdec
  exact congrArg Message.sender (Except.ok.inj hdec).symm

/-- What waits in the server for a client that synchronizes is known. -/
theorem Flowing.pending_known (h : s.Flowing sha256) {k : ConnId}
    (hk : (s.server.connections k).state = .syncing) {op : Operation}
    (hop : op ∈ s.server.pending (s.server.connections k).clientId) : op ∈ s.known := by
  have hserved := h.relays.served k
  obtain ⟨d, hd⟩ := hserved.opened (Or.inl hk)
  exact h.recorded d op (hserved.pendingRecorded d hk hd op hop)

/-- **What the server replies reads back.** -/
theorem Flowing.passable_of_reply (h : s.Flowing sha256) {k : ConnId} {message : Message}
    (hexpects : (s.server.connections k).state.Expects message.type) {ms : List Message}
    (hreply : s.server.Reply (s.server.connections k) message ms) : ∀ m ∈ ms, m.Passable := by
  intro m hm
  have hserver : newline ∉ str "server" := by decide
  rw [Server.Reply] at hreply
  cases ht : message.type with
  | hello =>
    rw [ht] at hreply
    rw [hreply] at hm
    rw [List.mem_singleton.1 hm]
    exact Or.inl ⟨hserver, trivial⟩
  | openDocument =>
    rw [ht] at hreply
    obtain ⟨d, history, -, rfl, hperm⟩ := hreply
    rw [List.mem_singleton.1 hm]
    refine Or.inl ⟨hserver, fun op hop => ?_⟩
    obtain ⟨hnewline, hbar, -⟩ := h.known.avoids (h.recorded d op (hperm.subset hop))
    exact ⟨hnewline, hbar⟩
  | syncComplete =>
    rw [ht] at hreply hexpects
    have hsyncing : (s.server.connections k).state = .syncing := by
      cases hs : (s.server.connections k).state <;> rw [hs] at hexpects <;>
        simp [ClientState.Expects] at hexpects ⊢
    obtain ⟨op, hop, rfl⟩ | ⟨id, position, -, -, rfl⟩ := hreply m hm
    · obtain ⟨hnewline, hbar, -⟩ := h.known.avoids (h.pending_known hsyncing hop)
      exact Or.inl ⟨hserver, hnewline, hbar⟩
    · exact Or.inr ⟨rfl, rfl⟩
  | helloAck | operation | syncRequest | syncResponse | cursorUpdate =>
    rw [ht] at hreply
    rw [hreply] at hm
    cases hm

/-- What a client wrote and the server passes on reads back. -/
theorem Flowing.passable_of_read (h : s.Flowing sha256) (hid : Plain id) {m m' : Message}
    (hm : s.Wires id m) (hdec : Message.deserialize m.serialize = .ok m')
    (htype : m'.type = .operation ∨ m'.type = .cursorUpdate) : m'.Passable := by
  obtain htype | htype := htype
  · obtain ⟨op, -, -, rfl, -, hclean⟩ := h.reads hid hm hdec htype
    exact Or.inl hclean
  · refine Or.inr ⟨htype, ?_⟩
    have hformed := Message.formed_of_deserialize hdec
    rw [Message.Formed, htype] at hformed
    cases hp : m'.payload <;> rw [hp] at hformed <;>
      first | rfl | exact absurd hformed Bool.false_ne_true

/-- What the server accepts next is known. -/
theorem Flowing.accepted_known (h : s.Flowing sha256) {conn : ConnId} {m : Message}
    (hm : m ∈ (s.links conn).written) {order : RowOrder Str} {a : DocumentID × Operation}
    (ha : a ∈ s.server.accepted (.receive conn m.serialize order)) : a.2 ∈ s.known := by
  obtain ⟨id, hplain, hwires⟩ := h.wired conn m hm
  rw [Server.accepted] at ha
  split at ha
  case isTrue => cases ha
  case isFalse =>
    split at ha
    case h_2 => cases ha
    case h_1 sender operation hdec =>
      split at ha
      case isFalse => cases ha
      case isTrue =>
        obtain ⟨op, hop, rfl, he, hknown, -⟩ := h.reads hplain hwires hdec rfl
        obtain ⟨d, -, rfl⟩ := Option.map_eq_some_iff.1 ha
        obtain rfl := MessagePayload.operation.inj (Message.mk.inj he).2.2
        exact hknown

/-- **The next message for the server**, where no digest collides. -/
theorem Flowing.read (h : s.Flowing sha256) (conn : ConnId) (order : RowOrder Str)
    (hcollision : ∀ m ∈ (s.links conn).written[(s.links conn).read]?,
      ∀ a ∈ s.server.accepted (.receive conn m.serialize order),
        s.server.store.database.NoCollision sha256 a.1 a.2) :
    (s.read sha256 conn order).Flowing sha256 := by
  have hphased : (s.read sha256 conn order).Phased := h.phased.read conn order
  rw [System.read] at hphased ⊢
  by_cases hs : (s.server.connections conn).state = .disconnected
  · rw [if_pos hs]
    exact h
  rw [if_neg hs] at hphased ⊢
  cases hm : (s.links conn).written[(s.links conn).read]? with
  | none => exact h
  | some m =>
    simp only [hm] at hphased ⊢
    have hmem := List.mem_of_getElem? hm
    obtain ⟨author, hauthor, hwires⟩ := h.wired conn m hmem
    have hout := h.phased.registry.outcome sha256 (fun _ => false) hs m.serialize order
    rw [Server.stepWith_none] at hout
    have hrelays := h.relays.step (.receive conn m.serialize order)
      (fun a ha => ⟨h.known.consistent.mono fun op hop => by
        obtain rfl | hop := List.mem_cons.1 hop
        exacts [h.accepted_known hmem ha, h.recorded a.1 op hop], hcollision m hm a ha⟩)
      fun a ha => (h.known.avoids (h.accepted_known hmem ha)).2.2
    set server := s.server.step sha256 (.receive conn m.serialize order) with hserver
    change ({ s with
      server := server
      links := Function.update s.links conn
        { s.links conn with read := (s.links conn).read + 1 } } : System).Flowing sha256
    refine h.serve hphased hrelays (fun k => ?_)
      (fun d op hop => ?_) (fun d => (hout.recorded d).1) (fun k => ?_) (fun k hk => ?_)
      (fun id hid hr => ?_) (fun k d hk hd => ?_) (fun id hid hk op hop => ?_) fun id hid d hd hk op hop => ?_
    · rw [Function.update_apply]
      split
      case isTrue he => exact he ▸ ⟨rfl, rfl⟩
      case isFalse => exact ⟨rfl, rfl⟩
    · obtain hop | ⟨m', operation, hdec, htype, hp, hstored⟩ := (hout.recorded d).2 op hop
      · exact h.recorded d op hop
      · obtain ⟨operation', -, rfl, rfl, hknown, -⟩ := h.reads hauthor hwires hdec htype
        obtain rfl := MessagePayload.operation.inj hp
        obtain ⟨-, hbar, hnul⟩ := h.known.avoids hknown
        exact hstored.eq_of_avoids hnul hbar ▸ hknown
    · obtain ⟨ms, hsent, hms⟩ := hout.sent k
      refine ⟨ms, hsent, fun m' hm' => ?_⟩
      obtain ⟨message, hdec, hexpects, ⟨rfl, htype⟩ | ⟨ms', hreply, hm'⟩⟩ := hms m' hm'
      · exact h.passable_of_read hauthor hwires hdec htype
      · exact h.passable_of_reply hexpects hreply m' hm'
    · obtain ⟨ms, ⟨-, hc⟩ | ⟨rfl, -⟩⟩ := hout.connections_of_ne hk
      · rw [hc] at hk
        exact hk
      · exact hs
    · have ho := h.online id hid
      obtain ⟨ms, ⟨-, hc⟩ | ⟨hk, m', hdec, hexpects, hc⟩⟩ :=
        hout.connections_of_ne fun hd => Server.not_isRegistered_of_disconnected hd hr
      · rw [hc] at hr ⊢
        exact ho.enrolled hr
      · subst hk
        rw [hc]
        change ((s.peer id).accept m').clientId = id
        rw [ClientConnection.clientId_accept]
        split
        case isTrue htype => exact (ho.written m hmem).sender_of_hello ho.plain hdec htype
        case isFalse htype => exact ho.enrolled (ClientState.isRegistered_of_expects hexpects htype)
    · obtain ⟨ms, ⟨-, hc⟩ | ⟨rfl, m', hdec, hexpects, hc⟩⟩ := hout.connections_of_ne hk
      · rw [hc] at hk hd
        exact h.asked k d hk hd
      · rw [hc] at hd
        obtain hd | ⟨htype, hp⟩ := ClientConnection.document_accept hd
        · exact h.asked k d hs hd
        · have hopens := Message.opens_eq_some.2 ⟨m', hdec, htype, hp⟩
          exact ⟨m, h.phased.opens_second k hmem (Message.type_of_opens hopens), hopens⟩
    · obtain ⟨ms, ⟨-, hc⟩ | ⟨hk, m', hdec, -, hc⟩⟩ := hout.connections_of_ne hk
      · rw [hc] at hop
        exact Or.inl hop
      · rw [hc] at hop
        refine (ClientConnection.submitted_accept hop).imp (fun ho => ho) fun hnew => ?_
        obtain ⟨htype, hp⟩ := hnew
        subst hk
        have ho := h.online id hid
        obtain ⟨op', hop', rfl, rfl, -⟩ := h.reads ho.plain (ho.written m hmem) hdec htype
        exact MessagePayload.operation.inj hp ▸ hop'
    · by_cases hne : s.connection id = conn
      case neg =>
        rw [Function.update_of_ne hne]
        exact Or.inr hop
      subst hne
      rw [Function.update_self]
      have hsplit : (s.link id).written.drop (s.link id).read =
          m :: (s.link id).written.drop ((s.link id).read + 1) := by
        obtain ⟨hn, he⟩ := List.getElem?_eq_some_iff.1 hm
        rw [← he]
        exact List.drop_eq_getElem_cons hn
      rw [hsplit, ← List.singleton_append, operationsOf_append, List.mem_append] at hop
      refine hop.imp (fun hop => ?_) fun hop => hop
      -- an operation that was read and did not end the connection was accepted
      have ho := h.online id hid
      obtain ⟨m', hm', hcarried⟩ := mem_operationsOf.1 hop
      obtain rfl := List.mem_singleton.1 hm'
      obtain rfl := (ho.written m' hmem).operation_of_mem hcarried
      obtain ⟨ms, ⟨hne, -⟩ | ⟨-, m'', hdec, hexpects, hc⟩⟩ := hout.connections_of_ne hk
      · exact absurd rfl hne
      · obtain ⟨op', -, -, rfl, -⟩ := h.reads ho.plain (ho.written _ hmem) hdec
          (Message.type_of_deserialize_serialize hdec)
        have hlive := ClientState.live_of_expects hexpects (Or.inl rfl)
        obtain ⟨d', hd'⟩ := (h.relays.served (s.connection id)).opened (Or.inr hlive)
        have hopened : (server.connections (s.connection id)).currentDocument = some d' := by
          rw [hc]
          exact hd'
        obtain rfl := (h.asked _ d' hs hd').unique hd
        refine (hrelays.agreement.live _ d' ?_ hopened op).2 (Or.inr ?_)
        · rw [hc]
          exact hlive
        · rw [hc]
          exact List.mem_append_right _ List.mem_cons_self

/-! ## Runs -/

/-- Where no operation is lost on its way.  A client asks for a document only while its session knows
nothing that the document lacks, but for what is still queued; it writes only what the server expects
next; no message is too long; no process is launched again. -/
def Lossless (sha256 : Str → Vector UInt8 32) (s : System) : Event → Prop
  | .act id (.command command) => Plain id ∧
      (command.typed ≠ none → (s.session id).gen.lamportClock.toNat + 1 < 2 ^ 64 - 1)
  | .act id _ => Plain id
  | .connect id _ => Plain id
  | .connected id => Plain id
  | .disconnect id => Plain id
  | .openDocument id documentId => Plain id ∧ ((s.network id).state = .registered →
      ∀ d ∈ (⟨.openDocument, id, .openDocument documentId⟩ : Message).opens, s.Carries id d)
  | .processOutgoing id => Plain id ∧ s.Orderly (.processOutgoing id) ∧
      ((s.network id).state.Connected → ∀ m ∈ (s.session id).outgoingQueue, m.Framable)
  | .deliver id => Plain id ∧ ∀ m ∈ (s.peer id).sent[(s.link id).delivered]?, m.Fits
  | .read conn order => ∀ m ∈ (s.links conn).written[(s.links conn).read]?,
      ∀ a ∈ s.server.accepted (.receive conn m.serialize order),
        s.server.store.database.NoCollision sha256 a.1 a.2
  | .close _ => True
  | .launch _ => False

instance Lossless.decidable (s : System) : DecidablePred (s.Lossless sha256)
  | .act _ (.command _) => inferInstanceAs (Decidable (_ ∧ (_ → _)))
  | .act id .queueCursorUpdate => inferInstanceAs (Decidable (Plain id))
  | .act id (.mousePress ..) => inferInstanceAs (Decidable (Plain id))
  | .act id (.mouseMove ..) => inferInstanceAs (Decidable (Plain id))
  | .act id .flush => inferInstanceAs (Decidable (Plain id))
  | .connect id _ => inferInstanceAs (Decidable (Plain id))
  | .connected id => inferInstanceAs (Decidable (Plain id))
  | .disconnect id => inferInstanceAs (Decidable (Plain id))
  | .openDocument _ _ => inferInstanceAs (Decidable (_ ∧ (_ → ∀ d ∈ Message.opens _, _)))
  | .processOutgoing _ => inferInstanceAs (Decidable (_ ∧ _ ∧ (_ → ∀ m ∈ _, _)))
  | .deliver _ => inferInstanceAs (Decidable (_ ∧ ∀ m ∈ _, _))
  | .read _ _ => inferInstanceAs (Decidable (∀ m ∈ _, ∀ a ∈ Server.accepted _ _, _))
  | .close _ => .isTrue trivial
  | .launch _ => .isFalse fun h => h

/-- **Every step that loses nothing leaves every operation on its way.** -/
theorem Flowing.step (h : s.Flowing sha256) {e : Event} (he : s.Lossless sha256 e) :
    (s.step sha256 e).Flowing sha256 := by
  cases e with
  | act id action =>
    cases action with
    | command command =>
      exact h.act he.1 fun _ hc htyped => by
        obtain rfl := Action.command.inj hc
        exact he.2 htyped
    | queueCursorUpdate => exact h.act he fun _ hc => by cases hc
    | mousePress line column => exact h.act he fun _ hc => by cases hc
    | mouseMove line column => exact h.act he fun _ hc => by cases hc
    | flush => exact h.act he fun _ hc => by cases hc
  | connect id opened => exact h.connectImpl he opened
  | connected id => exact h.establish he
  | disconnect id => exact h.disconnectImpl he
  | openDocument id documentId => exact h.openDocumentImpl he.1 he.2
  | processOutgoing id => exact h.processOutgoing he.1 he.2.1 he.2.2
  | deliver id => exact h.deliver he.1 he.2
  | read conn order => exact h.read conn order he
  | close conn =>
    rw [System.step]
    split
    case isTrue hopen => exact h.close hopen
    case isFalse => exact h
  | launch id => exact he.elim

/-- **Nothing is on its way**: the queues are empty, and a connection that the server has not ended is
that of a connected client, and all its messages have arrived. -/
structure Quiet (s : System) : Prop where
  queues : ∀ id, (s.session id).incomingQueue = [] ∧ (s.session id).outgoingQueue = []
  passed : ∀ k < s.opened, (s.server.connections k).state ≠ .disconnected →
    (∃ id, (s.network id).state.Connected ∧ s.connection id = k) ∧
      (s.links k).read = (s.links k).written.length ∧
      (s.links k).delivered = (s.server.connections k).sent.length

/-- A live client has the document that the server has. -/
def Agree (s : System) : Prop :=
  ∀ k d, (s.server.connections k).state = .live →
    (s.server.connections k).currentDocument = some d →
    ∃ p, s.server.store.getDocument d = .ok p ∧
      Document.Same (s.session (s.server.connections k).clientId).doc p.document

/-- A live client knows what is recorded, and nothing else. -/
theorem Flowing.history_eq (h : s.Flowing sha256) (hq : s.Quiet) (hid : (s.network id).state.Connected)
    {d : DocumentID} (hlive : (s.peer id).state = .live) (hd : (s.peer id).currentDocument = some d) :
    (s.session id).history = {op | op ∈ s.server.recorded d} := by
  have hne : (s.peer id).state ≠ .disconnected := by
    rw [hlive]
    decide
  have ho := h.online id hid
  have ha := ho.attached d (h.asked _ d hne hd) hne
  obtain ⟨hincoming, houtgoing⟩ := hq.queues id
  obtain ⟨-, hread, hdelivered⟩ := hq.passed _ (h.phased.opened id hid) hne
  ext op
  refine ⟨fun hop => ?_, fun hop => ?_⟩
  · obtain hop | hop | hop := ha.passed op hop
    · exact hop
    · rw [link, hread, List.drop_length] at hop
      cases hop
    · rw [houtgoing] at hop
      cases hop
  · obtain hop | hop := (h.relays.agreement.live _ d hlive hd op).1 hop
    · have hop : op ∈ operationsOf ((s.peer id).sent.take (s.link id).delivered) := by
        rw [link, hdelivered]
        rwa [peer, List.take_length]
      refine (ho.arrived op hop).resolve_right fun hop => ?_
      rw [hincoming] at hop
      cases hop
    · exact ho.submitted hne op hop

/-- **Where nothing is on its way, the live clients agree with the server.** -/
theorem Flowing.agree (h : s.Flowing sha256) (hq : s.Quiet) : s.Agree := by
  intro k d hlive hd
  have hopen : k < s.opened := by
    by_contra hno
    rw [(h.phased.fresh k (not_lt.1 hno)).1] at hlive
    cases hlive
  obtain ⟨⟨id, hid, rfl⟩, -⟩ := hq.passed k hopen (by rw [hlive]; decide)
  have ho := h.online id hid
  have hname : (s.server.connections (s.connection id)).clientId = id :=
    ho.enrolled (Server.isRegistered_of_live hlive)
  obtain ⟨p, hp⟩ := UMap.mem_iff_lookup.1 ((h.relays.served (s.connection id)).document d hd)
  have hreflects := h.relays.store.reflects d p hp
  have hsound := h.known.sound id ho.plain
  refine ⟨p, DocumentStore.getDocument_of_lookup hp, ?_⟩
  rw [hname]
  have hrecord : {op | op ∈ s.server.store.database.recorded p.documentId} = (s.session id).history := by
    rw [h.relays.store.documentId d p hp]
    exact (h.history_eq hq hid hlive hd).symm
  have hsettling := hreflects.settling
  rw [hrecord] at hsettling
  exact (hsound.settling.settled hsound.buffer hsound.consistent).same
    (hsettling.settled hreflects.sound hsound.consistent)

/-- **The clients agree with the server**: in every run that loses nothing, wherever nothing is on its
way. -/
theorem agree_along {events : List Event} (h : Along (step sha256) (Lossless sha256) start events) :
    Along (step sha256) (fun s e => (s.step sha256 e).Quiet → (s.step sha256 e).Agree) start events :=
  Along.of_invariant (fun _ _ hs he => ⟨(hs.step he).agree, hs.step he⟩) (flowing_start sha256) h

/-- SHA-256 on the two texts of the run below. -/
def pairDigest (data : Str) : Vector UInt8 32 :=
  if data = str "INSERT|0,__ROOT__|1,a|120" then
    #v[59, 205, 110, 250, 175, 202, 34, 9, 138, 107, 162, 90, 0, 173, 35, 16,
      101, 155, 182, 213, 47, 40, 227, 60, 133, 33, 117, 7, 52, 7, 39, 197]
  else
    #v[1, 220, 77, 249, 196, 168, 112, 12, 90, 169, 36, 183, 205, 177, 7, 11,
      138, 115, 9, 105, 105, 239, 18, 184, 78, 229, 124, 220, 8, 248, 141, 65]

/-- A client joins, takes the document and types, and the server reads all of it. -/
def visit (id : Str) (conn : ConnId) (character : Char) : List Event :=
  joined id conn (str "d") ++ .act id .flush :: typed id character ++
    List.replicate 4 (.read conn (.inserted Str))

/-- Two clients on one document, and what they are sent. -/
def pairEvents : List Event :=
  visit (str "a") 0 'x' ++ visit (str "b") 1 'y' ++
    List.replicate 3 (.deliver (str "a")) ++
    [.deliver (str "b"), .act (str "a") .flush, .act (str "b") .flush]

theorem agree_along_pair :
    Along (step pairDigest) (fun s e => (s.step pairDigest e).Quiet → (s.step pairDigest e).Agree)
      start pairEvents :=
  agree_along (by decide +kernel)

/-! ## What is lost -/

/-- The client whose process an event is about. -/
def Event.client : Event → Option Str
  | .act id _ | .connect id _ | .connected id | .disconnect id | .openDocument id _
  | .processOutgoing id | .deliver id | .launch id => some id
  | .read .. | .close _ => none

theorem processes_setProcess_of_ne {k : Str} (hk : id ≠ k) (p : Process) :
    (s.setProcess k p).processes id = s.processes id :=
  Function.update_of_ne hk _ _

/-- **A step leaves the other processes alone.** -/
theorem processes_step {e : Event} (h : e.client ≠ some id) :
    (s.step sha256 e).processes id = s.processes id := by
  have hne : ∀ {k}, e.client = some k → id ≠ k := fun hk he => h (he ▸ hk)
  cases e with
  | act k action => exact processes_setProcess_of_ne (hne rfl) _
  | connect k opened => exact processes_setProcess_of_ne (hne rfl) _
  | connected k =>
    rw [step, establish]
    split
    · exact processes_setProcess_of_ne (hne rfl) _
    · rfl
  | disconnect k => exact processes_setProcess_of_ne (hne rfl) _
  | openDocument k documentId => exact processes_setProcess_of_ne (hne rfl) _
  | processOutgoing k => exact processes_setProcess_of_ne (hne rfl) _
  | deliver k =>
    rw [step, deliver]
    split
    · split
      · exact processes_setProcess_of_ne (hne rfl) _
      · rfl
    · rfl
  | read conn order =>
    rw [step, read]
    split
    · rfl
    · split <;> rfl
  | close conn =>
    rw [step]
    split <;> rfl
  | launch k => exact processes_setProcess_of_ne (hne rfl) _

/-- A process that no event of a run is about. -/
theorem processes_foldl : ∀ {events : List Event} {s : System}, (∀ e ∈ events, e.client ≠ some id) →
    (events.foldl (step sha256) s).processes id = s.processes id
  | [], _, _ => rfl
  | e :: events, s, h => by
      rw [List.foldl_cons, processes_foldl fun e' he' => h e' (List.mem_cons_of_mem e he')]
      exact processes_step (h e List.mem_cons_self)

/-- A client that types before it connects. -/
def early : List Event :=
  typed (str "a") 'x' ++ joined (str "a") 0 (str "d") ++
    [.act (str "a") .flush, .processOutgoing (str "a"), .read 0 (.inserted Str),
      .read 0 (.inserted Str)]

/-- **A key pressed before the client connects is lost**: `process_outgoing` empties the queue, and
nothing is written. -/
theorem disagree_after_early :
    ¬ ∀ events, Along (step DocumentStore.sampleDigest)
      (fun s e => (s.step DocumentStore.sampleDigest e).Quiet →
        (s.step DocumentStore.sampleDigest e).Agree) start events := fun h => by
  have hlast := Along.last (R := fun s : System => s.Quiet → s.Agree) (show early ≠ [] from List.cons_ne_nil _ _) (h early)
  set s := early.foldl (step DocumentStore.sampleDigest) start with hs
  have hclient : ∀ e ∈ early, e.client = none ∨ e.client = some (str "a") := by decide
  have hother : ∀ id, id ≠ str "a" → s.processes id = .start id := fun id hid =>
    processes_foldl fun e he hc => by
      obtain ho | ho := hclient e he <;> rw [ho] at hc
      · cases hc
      · exact hid (Option.some.inj hc).symm
  have hquiet : s.Quiet := by
    refine ⟨fun id => ?_, fun k hk hs => ?_⟩
    · by_cases hid : id = str "a"
      · subst hid
        decide +kernel
      · rw [session, hother id hid]
        exact ⟨rfl, rfl⟩
    · obtain rfl : k = 0 := Nat.lt_one_iff.1 hk
      exact ⟨⟨str "a", by decide +kernel⟩, by decide +kernel⟩
  obtain ⟨p, hp, hsame⟩ := hlast hquiet 0 (str "d") (by decide +kernel) (by decide +kernel)
  -- the client has the element and the server has not
  have hserver : (AList.lookup (str "d") s.server.store.documents).map
      (fun p => AList.lookup ⟨1, str "a"⟩ p.document.elements) = some none := by decide +kernel
  have hclient : AList.lookup ⟨1, str "a"⟩ (s.session (s.server.connections 0).clientId).doc.elements ≠
      none := by decide +kernel
  rw [DocumentStore.getDocument] at hp
  split at hp
  case h_1 q hq =>
    obtain rfl := Except.ok.inj hp
    rw [hq] at hserver
    exact hclient ((hsame.elements _).trans (Option.some.inj hserver))
  case h_2 => cases hp

end System

end CrdtEditor
