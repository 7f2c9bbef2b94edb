import CrdtEditor.Persistence.Database

/-!
# Wire/Message — the messages of the protocol as text

`message.cpp` and the size limit of `framing.cpp`.  A message is its type, its sender and its
payload, a line each; a history is one line an operation.  Messages whose fields avoid the newline
read back (`deserialize_serialize`), and what was read is little longer when written again
(`length_serialize_le`).
-/

open scoped List

namespace CrdtEditor

open Text

inductive MessageType
  | hello
  | helloAck
  | operation
  | syncRequest
  | syncResponse
  | syncComplete
  | cursorUpdate
  | openDocument
  deriving DecidableEq, Repr

inductive MessagePayload
  | monostate
  | operation (op : Operation)
  | history (ops : List Operation)
  | cursorUpdate (position : ElementID)
  | openDocument (documentId : DocumentID)
  deriving DecidableEq, Repr

structure Message where
  type : MessageType
  sender : Str
  payload : MessagePayload
  deriving DecidableEq, Repr

/-- `framing::MAX_MESSAGE_SIZE`. -/
def maxMessageSize : ℕ := 1024 * 1024

/-- A framed message that waits in a write queue; `number` is its position among those the queue
accepted. -/
structure Frame where
  number : ℕ
  message : Message
  deriving DecidableEq

namespace MessageType

/-- `message_serializer::serialize_type`. -/
def serialize : MessageType → Str
  | hello => str "HELLO"
  | operation => str "OPERATION"
  | syncRequest => str "SYNC_REQUEST"
  | syncResponse => str "SYNC_RESPONSE"
  | syncComplete => str "SYNC_COMPLETE"
  | cursorUpdate => str "CURSOR_UPDATE"
  | openDocument => str "OPEN_DOCUMENT"
  | helloAck => str "HELLO_ACK"

/-- `message_serializer::deserialize_type`. -/
def deserialize (s : Str) : Except Exn MessageType :=
  if s = str "HELLO" then .ok hello
  else if s = str "OPERATION" then .ok operation
  else if s = str "SYNC_REQUEST" then .ok syncRequest
  else if s = str "SYNC_RESPONSE" then .ok syncResponse
  else if s = str "SYNC_COMPLETE" then .ok syncComplete
  else if s = str "CURSOR_UPDATE" then .ok cursorUpdate
  else if s = str "OPEN_DOCUMENT" then .ok openDocument
  else if s = str "HELLO_ACK" then .ok helloAck
  else .error (.invalidArgument (str "Unknown message type: " ++ s))

theorem deserialize_serialize (t : MessageType) : deserialize t.serialize = .ok t := by
  cases t <;> rfl

theorem newline_notMem_serialize (t : MessageType) : newline ∉ t.serialize := by
  cases t <;> decide

theorem length_serialize_le (t : MessageType) : t.serialize.length ≤ 13 := by
  cases t <;> decide

end MessageType

namespace MessagePayload

def serialize : MessagePayload → Str
  | monostate => []
  | operation op => op.serialize
  | history ops => ops.flatMap fun op => op.serialize ++ [newline]
  | cursorUpdate position => position.serialize
  | openDocument documentId => documentId

/-- `std::get<Operation>`. -/
def getOperation : MessagePayload → Except Exn Operation
  | operation op => .ok op
  | _ => .error .badVariantAccess

/-- `std::get<std::vector<Operation>>`. -/
def getHistory : MessagePayload → Except Exn (List Operation)
  | history ops => .ok ops
  | _ => .error .badVariantAccess

/-- `std::get<CursorUpdate>`. -/
def getCursorUpdate : MessagePayload → Except Exn ElementID
  | cursorUpdate position => .ok position
  | _ => .error .badVariantAccess

/-- `std::get<OpenDocument>`. -/
def getOpenDocument : MessagePayload → Except Exn DocumentID
  | openDocument documentId => .ok documentId
  | _ => .error .badVariantAccess

/-- The operations a payload carries. -/
def operations : MessagePayload → List Operation
  | operation op => [op]
  | history ops => ops
  | _ => []

/-- The site ids a payload names. -/
def sites : MessagePayload → List Str
  | cursorUpdate position => [position.siteId]
  | payload => payload.operations.flatMap Operation.sites

end MessagePayload

namespace Message

def serialize (m : Message) : Str :=
  m.type.serialize ++ newline :: (m.sender ++ newline :: m.payload.serialize)

/-- `tokens.at(i)`. -/
def token (tokens : List Str) (i : ℕ) : Except Exn Str :=
  match tokens[i]? with
  | some t => .ok t
  | none => .error (.outOfRange (str "vector::_M_range_check"))

/-- The payload of a message of a given type, from the lines of the message. -/
def payloadOf (tokens : List Str) : MessageType → Except Exn MessagePayload
  | .hello => .ok .monostate
  | .helloAck => .ok .monostate
  | .operation => do
    if tokens.length < 3 ∨ tokens[2]? = some [] then
      throw (.invalidArgument (str "OPERATION message missing operation payload"))
    let op ← Operation.deserialize (← token tokens 2)
    pure (.operation op)
  | .syncResponse => do
    let ops ← ((tokens.drop 2).filter (· ≠ [])).mapM Operation.deserialize
    pure (.history ops)
  | .syncComplete => .ok .monostate
  | .cursorUpdate => do
    if tokens.length < 3 ∨ tokens[2]? = some [] then
      throw (.invalidArgument (str "CURSOR_UPDATE message missing cursor position"))
    let position ← ElementID.deserialize (← token tokens 2)
    pure (.cursorUpdate position)
  | .openDocument => do
    if tokens.length < 3 ∨ tokens[2]? = some [] then
      throw (.invalidArgument (str "OPEN_DOCUMENT message missing document ID."))
    let documentId ← token tokens 2
    pure (.openDocument documentId)
  | .syncRequest => .error (.invalidArgument (str "Unknown message type"))

def deserialize (serializedMessage : Str) : Except Exn Message := do
  let tokens := split newline serializedMessage
  let type ← MessageType.deserialize (← token tokens 0)
  let sender ← token tokens 1
  let payload ← payloadOf tokens type
  pure ⟨type, sender, payload⟩

/-! ## The round trip -/

/-- The payload a message of each type is built with, its fields free of the bytes that delimit
them. -/
def Clean (m : Message) : Prop :=
  newline ∉ m.sender ∧
  match m.type, m.payload with
  | .hello, .monostate => True
  | .helloAck, .monostate => True
  | .syncComplete, .monostate => True
  | .operation, .operation op => op.Avoids newline ∧ op.Avoids bar
  | .syncResponse, .history ops => ∀ op ∈ ops, op.Avoids newline ∧ op.Avoids bar
  | .cursorUpdate, .cursorUpdate position => newline ∉ position.siteId
  | .openDocument, .openDocument documentId => newline ∉ documentId ∧ documentId ≠ []
  | _, _ => False

/-- The lines of a text whose first lines are known. -/
theorem split_cons {a : Str} (h : newline ∉ a) (b : Str) :
    split newline (a ++ newline :: b) = a :: b.splitOn newline := by
  rw [split, if_neg (by simp), List.splitOn_append_cons_self_of_not_mem h]

theorem splitOn_cons {a : Str} (h : newline ∉ a) (b : Str) :
    (a ++ newline :: b).splitOn newline = a :: b.splitOn newline :=
  List.splitOn_append_cons_self_of_not_mem h _

theorem split_serialize {m : Message} (h : newline ∉ m.sender) :
    split newline m.serialize =
      m.type.serialize :: m.sender :: m.payload.serialize.splitOn newline := by
  rw [serialize, split_cons m.type.newline_notMem_serialize, splitOn_cons h]

theorem newline_notMem_serialize {op : Operation} (h : op.Avoids newline) :
    newline ∉ op.serialize :=
  Operation.notMem_serialize (by decide) h

theorem splitOn_history : ∀ {ops : List Operation}, (∀ op ∈ ops, op.Avoids newline) →
    (ops.flatMap fun op => op.serialize ++ [newline]).splitOn newline =
      ops.map Operation.serialize ++ [[]]
  | [], _ => rfl
  | op :: ops, h => by
      rw [List.flatMap_cons, List.append_assoc, List.singleton_append,
        splitOn_cons (newline_notMem_serialize (h op List.mem_cons_self)),
        splitOn_history fun o ho => h o (List.mem_cons_of_mem _ ho), List.map_cons,
        List.cons_append]

/-- The payload is read from the lines after the sender. -/
theorem payloadOf_serialize {m : Message} (h : m.Clean) (a b : Str) :
    payloadOf (a :: b :: m.payload.serialize.splitOn newline) m.type = .ok m.payload := by
  have hsingle : ∀ s : Str, newline ∉ s → s.splitOn newline = [s] := fun s hs =>
    List.splitOn_eq_singleton hs
  obtain ⟨-, h⟩ := h
  obtain ⟨type, sender, payload⟩ := m
  match type, payload, h with
  | .hello, .monostate, _ => rfl
  | .helloAck, .monostate, _ => rfl
  | .syncComplete, .monostate, _ => rfl
  | .operation, .operation op, h =>
    simp only [MessagePayload.serialize]
    rw [hsingle _ (newline_notMem_serialize h.1)]
    simp [payloadOf, token, Operation.serialize_ne_nil, Operation.deserialize_serialize h.2, bind,
      Except.bind, pure, Except.pure]
  | .syncResponse, .history ops, h =>
    simp only [MessagePayload.serialize]
    rw [splitOn_history fun op hop => (h op hop).1]
    have hfilter : ((ops.map Operation.serialize ++ [[]]).filter (· ≠ [])) =
        ops.map Operation.serialize := by
      rw [List.filter_append, List.filter_eq_self.mpr]
      · simp
      · intro s hs
        obtain ⟨op, -, rfl⟩ := List.mem_map.mp hs
        simp [Operation.serialize_ne_nil]
    have hmap : (ops.map Operation.serialize).mapM Operation.deserialize = .ok ops := by
      rw [List.mapM_map]
      exact (Except.mapM_eq_ok (g := id) fun op hop =>
        Operation.deserialize_serialize (h op hop).2).trans (by rw [List.map_id])
    simp only [payloadOf, List.drop_succ_cons, List.drop_zero, hfilter, hmap, bind, Except.bind]
    rfl
  | .cursorUpdate, .cursorUpdate position, h =>
    have hnot : newline ∉ position.serialize :=
      ElementID.notMem_serialize (by decide) (by decide) h
    have hne : position.serialize ≠ [] := by simp [ElementID.serialize]
    simp only [MessagePayload.serialize]
    rw [hsingle _ hnot]
    simp [payloadOf, token, hne, ElementID.deserialize_serialize, bind, Except.bind, pure,
      Except.pure]
  | .openDocument, .openDocument documentId, h =>
    simp only [MessagePayload.serialize]
    rw [hsingle _ h.1]
    simp [payloadOf, token, h.2, bind, Except.bind, pure, Except.pure]

/-- **A clean message reads back.** -/
theorem deserialize_serialize {m : Message} (h : m.Clean) : deserialize m.serialize = .ok m := by
  have hpayload := payloadOf_serialize h m.type.serialize m.sender
  rw [deserialize, split_serialize h.1]
  simp only [token, List.getElem?_cons_zero, List.getElem?_cons_succ, bind, Except.bind,
    MessageType.deserialize_serialize, hpayload]
  rfl

/-- The messages the program builds: the payload each type comes with. -/
inductive Built : Message → Prop
  | hello (sender : Str) : Built ⟨.hello, sender, .monostate⟩
  | helloAck (sender : Str) : Built ⟨.helloAck, sender, .monostate⟩
  | syncComplete (sender : Str) : Built ⟨.syncComplete, sender, .monostate⟩
  | operation (sender : Str) (op : Operation) : Built ⟨.operation, sender, .operation op⟩
  | syncResponse (sender : Str) (ops : List Operation) :
    Built ⟨.syncResponse, sender, .history ops⟩
  | cursorUpdate (sender : Str) (position : ElementID) :
    Built ⟨.cursorUpdate, sender, .cursorUpdate position⟩
  | openDocument (sender : Str) {documentId : DocumentID} (h : documentId ≠ []) :
    Built ⟨.openDocument, sender, .openDocument documentId⟩

/-- **Every message the program builds reads back**, if its fields avoid the delimiters of the
texts they are part of. -/
theorem Built.reads_back {m : Message} (h : m.Built) (hsender : newline ∉ m.sender)
    (hdocument : ∀ documentId, m.payload = .openDocument documentId → newline ∉ documentId)
    (hsites : ∀ site ∈ m.payload.sites, bar ∉ site ∧ newline ∉ site) :
    deserialize m.serialize = .ok m := by
  refine deserialize_serialize ⟨hsender, ?_⟩
  cases h with
  | hello | helloAck | syncComplete => trivial
  | operation sender op =>
    have hop : ∀ site ∈ op.sites, bar ∉ site ∧ newline ∉ site := fun site hs =>
      hsites site (List.mem_flatMap.mpr ⟨op, List.mem_singleton_self op, hs⟩)
    exact ⟨fun site hs => (hop site hs).2, fun site hs => (hop site hs).1⟩
  | syncResponse sender ops =>
    intro op hop
    have hop : ∀ site ∈ op.sites, bar ∉ site ∧ newline ∉ site := fun site hs =>
      hsites site (List.mem_flatMap.mpr ⟨op, hop, hs⟩)
    exact ⟨fun site hs => (hop site hs).2, fun site hs => (hop site hs).1⟩
  | cursorUpdate sender position => exact (hsites position.siteId List.mem_cons_self).2
  | openDocument sender hne => exact ⟨hdocument _ rfl, hne⟩

/-- A history of an insert with a comma in its site ids and a removal. -/
theorem Built.reads_back_history :
    let m : Message := ⟨.syncResponse, str "server", .history
      [.insert ⟨rootId, ⟨18446744073709551615, str "a,b"⟩, 255⟩, .remove ⟨⟨7, []⟩⟩]⟩
    deserialize m.serialize = .ok m :=
  (Built.syncResponse (str "server") _).reads_back (by decide) (by simp) (by decide)

/-! ## What was read -/

/-- A message that was read: its lines, its type on the first, its sender on the second. -/
theorem of_deserialize {s : Str} {m : Message} (h : deserialize s = .ok m) :
    m.sender ∈ split newline s ∧ payloadOf (split newline s) m.type = .ok m.payload := by
  simp only [deserialize, token] at h
  cases h0 : (split newline s)[0]? with
  | none => simp [h0, bind, Except.bind] at h
  | some t =>
    cases ht : MessageType.deserialize t with
    | error e => simp [h0, ht, bind, Except.bind] at h
    | ok type =>
      cases h1 : (split newline s)[1]? with
      | none => simp [h0, ht, h1, bind, Except.bind] at h
      | some sender =>
        cases hp : payloadOf (split newline s) type with
        | error e => simp [h0, ht, h1, hp, bind, Except.bind] at h
        | ok payload =>
          simp only [h0, ht, h1, hp, bind, Except.bind, pure, Except.pure] at h
          obtain rfl := Except.ok.inj h
          exact ⟨List.mem_of_getElem? h1, hp⟩

/-- What was written with a type is read with it. -/
theorem type_of_deserialize_serialize {m m' : Message} (h : deserialize m.serialize = .ok m') :
    m'.type = m.type := by
  rw [deserialize, serialize, split_cons m.type.newline_notMem_serialize] at h
  simp only [token, List.getElem?_cons_zero, bind, Except.bind,
    MessageType.deserialize_serialize] at h
  split at h
  case h_1 => cases h
  case h_2 =>
    split at h
    · cases h
    · rw [← Except.ok.inj h]

/-- An operation message was read from one of the lines. -/
theorem operation_of_deserialize {s : Str} {m : Message} (h : deserialize s = .ok m)
    (hm : m.type = .operation) :
    ∃ op, m.payload = .operation op ∧ ∃ line ∈ split newline s, Operation.deserialize line = .ok op := by
  obtain ⟨-, hp⟩ := of_deserialize h
  rw [hm, payloadOf, token] at hp
  split at hp
  case isTrue => simp [throw, throwThe, MonadExceptOf.throw, bind, Except.bind] at hp
  case isFalse =>
    cases h2 : (split newline s)[2]? with
    | none => simp [h2, bind, Except.bind] at hp
    | some line =>
      cases hop : Operation.deserialize line with
      | error e => simp [h2, hop, bind, Except.bind] at hp
      | ok op =>
        simp only [h2, hop, bind, Except.bind, pure, Except.pure] at hp
        exact ⟨op, (Except.ok.inj hp).symm, line, List.mem_of_getElem? h2, hop⟩

/-- Every operation of a message was read from one of its lines. -/
theorem operations_of_deserialize {s : Str} {m : Message} (h : deserialize s = .ok m) :
    ∀ op ∈ m.payload.operations,
      ∃ line ∈ split newline s, Operation.deserialize line = .ok op := by
  intro op hop
  obtain ⟨-, hp⟩ := of_deserialize h
  cases ht : m.type with
  | operation =>
    obtain ⟨op', hp', hline⟩ := operation_of_deserialize h ht
    rw [hp'] at hop
    exact List.mem_singleton.mp hop ▸ hline
  | syncResponse =>
    rw [ht, payloadOf] at hp
    cases hops : (((split newline s).drop 2).filter (· ≠ [])).mapM Operation.deserialize with
    | error e => simp only [hops, bind, Except.bind] at hp; cases hp
    | ok ops =>
      simp only [hops, bind, Except.bind, pure, Except.pure] at hp
      rw [← Except.ok.inj hp] at hop
      obtain ⟨line, hline, hdec⟩ := (Except.mem_of_mapM_eq_ok hops op).mp hop
      exact ⟨line, List.mem_of_mem_drop (List.mem_of_mem_filter hline), hdec⟩
  | hello | helloAck | syncComplete =>
    rw [ht] at hp
    rw [← Except.ok.inj hp] at hop
    cases hop
  | syncRequest => rw [ht] at hp; cases hp
  | cursorUpdate =>
    rw [ht, payloadOf] at hp
    split at hp
    case isTrue => simp [throw, throwThe, MonadExceptOf.throw, bind, Except.bind] at hp
    case isFalse =>
      cases h2 : token (split newline s) 2 with
      | error e => simp [h2, bind, Except.bind] at hp
      | ok line =>
        cases he : ElementID.deserialize line with
        | error e => simp [h2, he, bind, Except.bind] at hp
        | ok x =>
          simp only [h2, he, bind, Except.bind, pure, Except.pure] at hp
          rw [← Except.ok.inj hp] at hop
          cases hop
  | openDocument =>
    rw [ht, payloadOf] at hp
    split at hp
    case isTrue => simp [throw, throwThe, MonadExceptOf.throw, bind, Except.bind] at hp
    case isFalse =>
      cases h2 : token (split newline s) 2 with
      | error e => simp [h2, bind, Except.bind] at hp
      | ok line =>
        simp only [h2, bind, Except.bind, pure, Except.pure] at hp
        rw [← Except.ok.inj hp] at hop
        cases hop

/-- **An operation that was read is clean**, and not much longer when written again. -/
theorem clean_of_deserialize {s : Str} {m : Message} (h : deserialize s = .ok m)
    (hm : m.type = .operation) : m.Clean ∧ m.serialize.length ≤ 3 * s.length + 100 := by
  obtain ⟨op, hp, line, hline, hdec⟩ := operation_of_deserialize h hm
  obtain ⟨hnl, hsub⟩ := of_mem_split hline
  obtain ⟨hsender, hslen⟩ := of_mem_split (of_deserialize h).1
  obtain ⟨hbar, havoid⟩ := Operation.avoids_of_deserialize hdec
  have hlen : op.serialize.length ≤ 2 * s.length + 60 :=
    Operation.length_serialize_le fun site hsite =>
      (Operation.sublist_of_mem_sites hdec site hsite).2.length_le.trans hsub.length_le
  obtain ⟨type, sender, payload⟩ := m
  subst hm hp
  refine ⟨⟨hsender, havoid _ hnl, hbar⟩, ?_⟩
  have hsl := hslen.length_le
  have htl := MessageType.length_serialize_le .operation
  simp only [serialize, MessagePayload.serialize, List.length_append, List.length_cons] at hsl ⊢
  omega

/-- The payload holds the alternative that a session reads for the type. -/
def Formed (m : Message) : Prop :=
  match m.type with
  | .operation => m.payload.getOperation.toBool = true
  | .syncResponse => m.payload.getHistory.toBool = true
  | .cursorUpdate => m.payload.getCursorUpdate.toBool = true
  | _ => True

instance Formed.decidable : DecidablePred Formed
  | ⟨.operation, _, payload⟩ => inferInstanceAs (Decidable (payload.getOperation.toBool = true))
  | ⟨.syncResponse, _, payload⟩ => inferInstanceAs (Decidable (payload.getHistory.toBool = true))
  | ⟨.cursorUpdate, _, payload⟩ =>
    inferInstanceAs (Decidable (payload.getCursorUpdate.toBool = true))
  | ⟨.hello, _, _⟩ => .isTrue trivial
  | ⟨.helloAck, _, _⟩ => .isTrue trivial
  | ⟨.syncRequest, _, _⟩ => .isTrue trivial
  | ⟨.syncComplete, _, _⟩ => .isTrue trivial
  | ⟨.openDocument, _, _⟩ => .isTrue trivial

/-- **What decodes is formed.** -/
theorem formed_of_deserialize {s : Str} {m : Message} (h : deserialize s = .ok m) : m.Formed := by
  obtain ⟨-, hp⟩ := of_deserialize h
  obtain ⟨type, sender, payload⟩ := m
  cases type with
  | operation =>
    obtain ⟨op, hop, -⟩ := operation_of_deserialize h rfl
    simp only at hop
    subst hop
    rfl
  | syncResponse =>
    simp only [payloadOf] at hp
    cases hops : (((split newline s).drop 2).filter (· ≠ [])).mapM Operation.deserialize with
    | error e => rw [hops] at hp; cases hp
    | ok ops => rw [hops] at hp; cases hp; rfl
  | cursorUpdate =>
    simp only [payloadOf] at hp
    split at hp
    case isTrue => cases hp
    case isFalse =>
      cases hl : token (split newline s) 2 with
      | error e => simp [hl, bind, Except.bind] at hp
      | ok line =>
        cases hx : ElementID.deserialize line with
        | error e => simp [hl, hx, bind, Except.bind] at hp
        | ok x =>
          simp only [hl, hx, bind, Except.bind, pure, Except.pure] at hp
          cases hp
          rfl
  | _ => trivial

/-- The position that a message gives for a client. -/
def cursorOf (id : Str) (m : Message) : Option ElementID :=
  match m.type, m.payload with
  | .cursorUpdate, .cursorUpdate position => if m.sender = id then some position else none
  | _, _ => none

theorem cursorOf_eq_some {id : Str} {m : Message} {x : ElementID} :
    m.cursorOf id = some x ↔
      m.type = .cursorUpdate ∧ m.payload = .cursorUpdate x ∧ m.sender = id := by
  obtain ⟨type, sender, payload⟩ := m
  cases type <;> cases payload <;> simp [cursorOf, and_comm]

end Message

end CrdtEditor
