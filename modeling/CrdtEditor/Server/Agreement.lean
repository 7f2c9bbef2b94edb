import CrdtEditor.Persistence.Restart
import CrdtEditor.Server.Handlers

/-!
# Server/Agreement — every run keeps what the relay owes

`receiveMessage` answers an exception by disconnecting the sender, which settles what the handler
left unfinished; so one event takes a settled server to a settled one, and every run agrees:
`agreement_along`.

The one condition is that no accepted operation has a NUL byte in a site id.  The database binds its
texts as C strings, so it stores such an operation cut short while the relay passes it on whole:
`disagreement_after_nul`.
-/

namespace CrdtEditor.Server

open Text

variable {sha256 : Str → Vector UInt8 32}

/-- The operation an event makes the server accept, with the document it is for. -/
def accepted (s : Server) : Event → Option (DocumentID × Operation)
  | .receive conn body _ =>
    if maxMessageSize < body.length then none
    else match Message.deserialize body with
      | .ok ⟨.operation, _, .operation operation⟩ =>
        if (s.connections conn).isLive then
          (s.connections conn).currentDocument.map fun d => (d, operation)
        else none
      | _ => none
  | _ => none

/-- What is assumed of the operations: inserts of one document with the same id are identical, and
digests tell the stored texts apart. -/
def Assumed (sha256 : Str → Vector UInt8 32) (s : Server) (e : Event) : Prop :=
  ∀ a ∈ s.accepted e, Operation.Consistent {op | op ∈ a.2 :: s.recorded a.1} ∧
    s.store.database.NoCollision sha256 a.1 a.2

instance Assumed.decidable (s : Server) (e : Event) : Decidable (Assumed sha256 s e) :=
  inferInstanceAs (Decidable (∀ a ∈ s.accepted e, _ ∧ _))

/-- No accepted operation names a site with a NUL byte. -/
def NulFree (s : Server) (e : Event) : Prop := ∀ a ∈ s.accepted e, a.2.Avoids nul

instance NulFree.decidable (s : Server) (e : Event) : Decidable (s.NulFree e) :=
  inferInstanceAs (Decidable (∀ a ∈ s.accepted e, _))

/-! ## One event -/

theorem accepted_receive {s : Server} {conn : ConnId} {body : Str} {order : RowOrder Str}
    {message : Message} {operation : Operation} {d : DocumentID}
    (hlen : ¬ maxMessageSize < body.length) (hm : Message.deserialize body = .ok message)
    (ht : message.type = .operation) (hp : message.payload = .operation operation)
    (hlive : (s.connections conn).isLive) (hd : (s.connections conn).currentDocument = some d) :
    s.accepted (.receive conn body order) = some (d, operation) := by
  obtain ⟨type, sender, payload⟩ := message
  subst ht hp
  simp [accepted, hlen, hm, hlive, hd]

/-- **A handler settles, or leaves only the sender unfinished.** -/
theorem Relays.handle {s : Server} (h : Relays sha256 s none Settled) {order : RowOrder Str}
    {sender : ConnId} {body : Str} {message : Message}
    (hm : Message.deserialize body = .ok message) (hlen : ¬ maxMessageSize < body.length)
    (hassumed : Assumed sha256 s (.receive sender body order))
    (hnul : s.NulFree (.receive sender body order)) :
    (s.handle sha256 order sender message).Ends (Relays sha256 · none Settled)
      (Relays sha256 · (some sender) Settled) := by
  have hbusy := h.answering sender
  have hreject := fun report => h.reject sender report
  rw [Server.handle]
  cases ht : message.type with
  | hello =>
    refine Except.ends_ite (fun _ => hreject _) fun hr => ?_
    exact ends_caught (h.registerClient hr message.sender) fun t ht =>
      ht.disconnect sender (Or.inl rfl)
  | operation =>
    refine Except.ends_ite (fun _ => hreject _) fun hlive => ?_
    refine Except.ends_ite (fun _ => hreject _) fun hdoc => ?_
    have hlive : (s.connections sender).isLive = true := not_not.mp hlive
    obtain ⟨d, hd⟩ := Option.ne_none_iff_exists'.mp hdoc
    obtain ⟨operation, hp, line, -, hline⟩ := Message.operation_of_deserialize hm ht
    have haccepted : s.accepted (.receive sender body order) = some (d, operation) :=
      accepted_receive hlen hm ht hp hlive hd
    obtain ⟨hconsistent, hcollision⟩ := hassumed _ haccepted
    have hsize : message.serialize.length < 2 ^ 32 := by
      have := (Message.clean_of_deserialize hm ht).2
      rw [maxMessageSize] at hlen
      omega
    refine h.applyAndRoute (by simpa [ClientConnection.isLive] using hlive) hd hp hsize
      (Operation.avoids_of_deserialize hline).1 (hnul _ haccepted) hcollision ?_
    exact hconsistent.mono fun op hop => List.mem_cons.mpr hop
  | syncComplete => exact Except.ends_ite (fun _ => hreject _) fun _ => h.finishSync sender
  | cursorUpdate =>
    refine Except.ends_ite (fun _ => hreject _) fun _ => ?_
    exact (h.routeCursorUpdate sender message).imp (fun _ ht => ht) fun t ht => ht.answering sender
  | openDocument =>
    refine Except.ends_ite (fun _ => hreject _) fun _ => ?_
    refine Except.ends_ite (fun _ => hreject _) fun hdoc => ?_
    refine Except.ends_leaving_bind (fun d _ => ?_) hbusy
    exact ends_caught (h.openDocument order (not_not.mp hdoc) d) fun t ht =>
      ht.disconnect sender (Or.inr rfl)
  | helloAck => exact hreject _
  | syncRequest => exact hreject _
  | syncResponse => exact hreject _

/-- **One event keeps the invariant.** -/
theorem Relays.step {s : Server} (h : Relays sha256 s none Settled) (e : Event)
    (hassumed : Assumed sha256 s e) (hnul : s.NulFree e) :
    Relays sha256 (s.step sha256 e) none Settled := by
  match e with
  | .disconnect conn => exact h.disconnect conn (Or.inl rfl)
  | .restart documentOrder rowOrder =>
    obtain ⟨store, hstore, hsound, -⟩ :=
      DocumentStore.sound_reopen h.store.database documentOrder rowOrder
    rw [Server.step, hstore]
    exact relays_start hsound
  | .receive conn body order =>
    rw [Server.step]
    split
    case isTrue => exact h.disconnect conn (Or.inl rfl)
    case isFalse hlen =>
      rw [receiveMessage]
      cases hm : Message.deserialize body with
      | error => exact h.disconnect conn (Or.inl rfl)
      | ok message =>
        have hends := h.handle hm hlen hassumed hnul
        revert hends
        dsimp only
        cases s.handle sha256 order conn message with
        | ok t => exact fun hends => hends
        | error t => exact fun hends => Relays.disconnect hends conn (Or.inr rfl)

/-! ## Runs -/

/-- **The relay loses no operation and leaks none**: in every run that accepts no operation with a
NUL byte, after every event. -/
theorem agreement_along {events : List Event}
    (h : Along (step sha256) (fun s e => Assumed sha256 s e ∧ s.NulFree e) (start .empty) events) :
    Along (step sha256) (fun s e => (s.step sha256 e).Agreement) (start .empty) events :=
  Along.of_invariant
    (fun _ e hs he => ⟨(Relays.step hs e he.1 he.2).agreement, hs.step e he.1 he.2⟩)
    (relays_start DocumentStore.sound_empty) h

/-- A message of the given lines arrives. -/
def arrives (conn : ConnId) (lines : List Str) : Event :=
  .receive conn ([newline].intercalate lines) (.inserted Str)

/-- Two clients; the first one types between the history and the `SYNC_COMPLETE` of the second. -/
def sampleEvents : List Event :=
  [arrives 0 [str "HELLO", str "a", []],
   arrives 0 [str "OPEN_DOCUMENT", str "a", str "d"],
   arrives 0 [str "SYNC_COMPLETE", str "a", []],
   arrives 1 [str "HELLO", str "b", []],
   arrives 1 [str "OPEN_DOCUMENT", str "b", str "d"],
   arrives 0 [str "OPERATION", str "a", str "REMOVE|1,a"],
   arrives 1 [str "SYNC_COMPLETE", str "b", []]]

theorem agreement_along_sample :
    Along (step DocumentStore.sampleDigest)
      (fun s e => (s.step DocumentStore.sampleDigest e).Agreement) (start .empty) sampleEvents :=
  agreement_along (by decide +kernel)

/-- A live client removes `(5, "a\0b")`. -/
def nulEvents : List Event :=
  [arrives 0 [str "HELLO", str "a", []],
   arrives 0 [str "OPEN_DOCUMENT", str "a", str "d"],
   arrives 0 [str "SYNC_COMPLETE", str "a", []],
   arrives 0 [str "OPERATION", str "a", str "REMOVE|5,a" ++ [nul] ++ str "b"]]

/-- SHA-256 on the one text of the run. -/
def nulDigest : Str → Vector UInt8 32 := fun _ =>
  #v[81, 73, 74, 200, 175, 227, 24, 171, 41, 110, 167, 246, 90, 189, 133, 242,
    236, 69, 82, 142, 12, 88, 71, 205, 235, 169, 176, 26, 237, 179, 151, 138]

/-- **With a NUL byte the record is not what was submitted.** -/
theorem disagreement_after_nul :
    Along (step nulDigest) (Assumed nulDigest) (start .empty) nulEvents ∧
    ¬ Along (step nulDigest) (fun s e => (s.step nulDigest e).Agreement) (start .empty)
      nulEvents := by
  refine ⟨by decide +kernel, fun h => ?_⟩
  obtain ⟨-, -, -, h, -⟩ := h
  have hsubmitted := (h.live 0 (str "d") (by decide +kernel) (by decide +kernel)
    (.remove ⟨⟨5, str "a" ++ [nul] ++ str "b"⟩⟩)).mpr (by decide +kernel)
  exact absurd hsubmitted (by decide +kernel)

end CrdtEditor.Server
