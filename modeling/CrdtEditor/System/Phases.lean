import CrdtEditor.Server.Protocol
import CrdtEditor.System.Writes

/-!
# System/Phases — the phases of the two ends of a connection

The server takes each connection through its phases by what it reads, the client goes through its own
by what it does and is sent.  The types of the messages written decide how far both can be: the server
is where the messages it read put it (`after`), what it sent are the replies up to there (`Replied`),
and the client is never ahead of what it wrote (`Stage`).

The client writes whatever the session queued, in any phase once it is connected.  The halves fit in
the runs in which nothing is written too early (`calm_along`); a key pressed before the document is
open ends the connection (`rejected_before_sync`).
-/

open scoped List

namespace CrdtEditor

open Text

/-! ## The phases that a sequence of messages goes through -/

def types (ms : List Message) : List MessageType := ms.map Message.type

@[simp] theorem types_nil : types [] = [] := rfl

theorem types_append (ms ms' : List Message) : types (ms ++ ms') = types ms ++ types ms' :=
  List.map_append

theorem types_take (ms : List Message) (n : ℕ) : types (ms.take n) = (types ms).take n :=
  List.map_take

theorem types_getElem? {ms : List Message} {n : ℕ} {m : Message} (h : ms[n]? = some m) :
    (types ms)[n]? = some m.type := by
  rw [types, List.getElem?_map, h, Option.map_some]

namespace ClientState

/-- The phase after a message that is expected. -/
def advance (state : ClientState) : MessageType → ClientState
  | .hello => .registered
  | .openDocument => .syncing
  | .syncComplete => .live
  | _ => state

/-- A connection in this phase may send messages of these types, in this order. -/
def Follows : ClientState → List MessageType → Prop
  | _, [] => True
  | state, type :: types => state.Expects type ∧ (state.advance type).Follows types

instance Follows.decidable : ∀ (state : ClientState) types, Decidable (state.Follows types)
  | _, [] => .isTrue trivial
  | state, type :: types =>
    haveI := Follows.decidable (state.advance type) types
    inferInstanceAs (Decidable (state.Expects type ∧ (state.advance type).Follows types))

/-- The phase of a new connection after messages of these types. -/
def after (types : List MessageType) : ClientState := types.foldl advance .unregistered

theorem follows_append : ∀ (state : ClientState) (ts ts' : List MessageType),
    state.Follows (ts ++ ts') ↔ state.Follows ts ∧ (ts.foldl advance state).Follows ts'
  | _, [], _ => (true_and _).to_iff.symm
  | state, t :: ts, ts' => by
      rw [List.cons_append, Follows, Follows, follows_append, and_assoc, List.foldl_cons]

theorem Follows.of_prefix {state : ClientState} {ts ts' : List MessageType}
    (h : state.Follows ts') (hp : ts <+: ts') : state.Follows ts := by
  obtain ⟨_, rfl⟩ := hp
  exact ((follows_append state ts _).1 h).1

theorem after_append_singleton (ts : List MessageType) (t : MessageType) :
    after (ts ++ [t]) = (after ts).advance t := by
  rw [after, List.foldl_append]
  rfl

/-- The next message is one the phase expects. -/
theorem Follows.expects {ts : List MessageType} (h : unregistered.Follows ts) {n : ℕ}
    {t : MessageType} (ht : ts[n]? = some t) : (after (ts.take n)).Expects t := by
  have hsplit : ts = ts.take n ++ t :: ts.drop (n + 1) := by
    obtain ⟨hn, rfl⟩ := List.getElem?_eq_some_iff.1 ht
    rw [List.cons_getElem_drop_succ, List.take_append_drop]
  rw [hsplit, follows_append] at h
  exact h.2.1

/-- Who has asked for a document does not ask again. -/
theorem Follows.notMem_openDocument : ∀ {ts : List MessageType} {state : ClientState},
    state.Follows ts → state = .syncing ∨ state = .live → .openDocument ∉ ts
  | [], _, _, _ => List.not_mem_nil
  | t :: ts, state, h, hs => by
      obtain ⟨hexpects, hrest⟩ := h
      have hnext : (state.advance t = .syncing ∨ state.advance t = .live) ∧ t ≠ .openDocument := by
        obtain rfl | rfl := hs
        · obtain rfl : t = .syncComplete := hexpects
          exact ⟨Or.inr rfl, by decide⟩
        · obtain rfl | rfl : t = .operation ∨ t = .cursorUpdate := hexpects
          exacts [⟨Or.inr rfl, by decide⟩, ⟨Or.inr rfl, by decide⟩]
      exact fun hm => (List.mem_cons.1 hm).elim (fun he => hnext.2 he.symm)
        (hrest.notMem_openDocument hnext.1)

/-- **The document is asked for after the `HELLO`.** -/
theorem Follows.opens_second {ts : List MessageType} (h : unregistered.Follows ts) {n : ℕ}
    (hn : ts[n]? = some .openDocument) : n = 1 := by
  cases ts with
  | nil => cases hn
  | cons t ts =>
    obtain ⟨hexpects, hrest⟩ := h
    obtain rfl : t = .hello := hexpects
    cases ts with
    | nil =>
      cases n with
      | zero => cases hn
      | succ n => cases hn
    | cons t ts =>
      obtain ⟨hexpects, hrest⟩ := hrest
      obtain rfl : t = .openDocument := hexpects
      have hno : .openDocument ∉ ts := hrest.notMem_openDocument (Or.inl rfl)
      cases n with
      | zero => cases hn
      | succ n =>
        cases n with
        | zero => rfl
        | succ n => exact absurd (List.mem_of_getElem? (show ts[n]? = _ from hn)) hno

theorem after_take_succ {ts : List MessageType} {n : ℕ} {t : MessageType} (ht : ts[n]? = some t) :
    after (ts.take (n + 1)) = (after (ts.take n)).advance t := by
  rw [List.take_add_one, ht, Option.toList_some, after_append_singleton]

/-- What a connection in a phase was sent, by type. -/
def Replied : ClientState → List MessageType → Prop
  | .unregistered, ts => ts = []
  | .registered, ts => ts = [.helloAck]
  | .syncing, ts => ts = [.helloAck, .syncResponse]
  | .live, ts => ∃ rest, ts = .helloAck :: .syncResponse :: rest ∧
    ∀ t ∈ rest, t = .operation ∨ t = .cursorUpdate
  | .disconnected, _ => False

/-- The first message of the server is the `HELLO_ACK`, and the others are for a client that opened a
document. -/
theorem Replied.at {state : ClientState} {ts : List MessageType} (h : state.Replied ts) {n : ℕ}
    {t : MessageType} (ht : ts[n]? = some t) :
    n = 0 ∧ t = .helloAck ∧ state ≠ .unregistered ∨
      1 ≤ n ∧ (t = .syncResponse ∨ t = .operation ∨ t = .cursorUpdate) ∧
        (state = .syncing ∨ state = .live) := by
  cases state with
  | unregistered =>
    obtain rfl : ts = [] := h
    cases ht
  | registered =>
    obtain rfl : ts = [_] := h
    cases n with
    | zero => exact Or.inl ⟨rfl, (Option.some.inj ht).symm, by simp⟩
    | succ n => cases ht
  | syncing =>
    obtain rfl : ts = [_, _] := h
    match n, ht with
    | 0, ht => exact Or.inl ⟨rfl, (Option.some.inj ht).symm, by simp⟩
    | 1, ht => exact Or.inr ⟨le_rfl, Or.inl (Option.some.inj ht).symm, Or.inl rfl⟩
  | live =>
    obtain ⟨rest, rfl, hrest⟩ := h
    match n, ht with
    | 0, ht => exact Or.inl ⟨rfl, (Option.some.inj ht).symm, by simp⟩
    | 1, ht => exact Or.inr ⟨le_rfl, Or.inl (Option.some.inj ht).symm, Or.inr rfl⟩
    | n + 2, ht =>
      exact Or.inr ⟨by omega, Or.inr (hrest t (List.mem_of_getElem? ht)), Or.inr rfl⟩
  | disconnected => exact h.elim

/-- What the server replies to a message, by type. -/
def Replies : MessageType → List MessageType → Prop
  | .hello, ts => ts = [.helloAck]
  | .openDocument, ts => ts = [.syncResponse]
  | .syncComplete, ts => ∀ t ∈ ts, t = .operation ∨ t = .cursorUpdate
  | _, ts => ts = []

theorem Replied.advance {state : ClientState} {ts ts' : List MessageType} {t : MessageType}
    (h : state.Replied ts) (ht : state.Expects t) (hr : Replies t ts') :
    (state.advance t).Replied (ts ++ ts') := by
  cases state with
  | unregistered =>
    obtain rfl : t = .hello := ht
    obtain rfl : ts = [] := h
    exact hr
  | registered =>
    obtain rfl : t = .openDocument := ht
    obtain rfl : ts = [_] := h
    obtain rfl : ts' = [_] := hr
    rfl
  | syncing =>
    obtain rfl : t = .syncComplete := ht
    obtain rfl : ts = [_, _] := h
    exact ⟨ts', rfl, hr⟩
  | live =>
    obtain ⟨rest, rfl, hrest⟩ := h
    obtain rfl | rfl := ht <;> obtain rfl : ts' = [] := hr <;>
      exact ⟨rest, List.append_nil _, hrest⟩
  | disconnected => exact h.elim

end ClientState

/-! ## One connection -/

/-- **What the two ends of a connection agree on.**  A connection that was cut off may have read
messages that it did not reply to. -/
structure Link.Kept (l : Link) (c : ClientConnection) : Prop where
  follows : ClientState.unregistered.Follows (types l.written)
  read : l.read ≤ l.written.length
  state : c.state = .disconnected ∨ c.state = ClientState.after (types (l.written.take l.read))
  replied : ∃ n ≤ l.read, (ClientState.after (types (l.written.take n))).Replied (types c.sent) ∧
    (c.state = .disconnected ∨ n = l.read)

namespace Link.Kept

variable {l : Link} {c : ClientConnection}

theorem fresh : Kept ⟨[], 0, 0⟩ .new where
  follows := trivial
  read := le_rfl
  state := Or.inr rfl
  replied := ⟨0, le_rfl, rfl, Or.inr rfl⟩

/-- The client reads. -/
theorem delivered (h : l.Kept c) (n : ℕ) : Kept { l with delivered := n } c :=
  ⟨h.follows, h.read, h.state, h.replied⟩

/-- The client writes. -/
theorem write (h : l.Kept c) {ms : List Message}
    (hf : ClientState.unregistered.Follows (types (l.written ++ ms))) :
    Kept { l with written := l.written ++ ms } c where
  follows := hf
  read := by
    rw [List.length_append]
    exact h.read.trans (Nat.le_add_right _ _)
  state := by
    rw [List.take_append_of_le_length h.read]
    exact h.state
  replied := by
    obtain ⟨n, hn, hreplied, hor⟩ := h.replied
    refine ⟨n, hn, ?_, hor⟩
    rwa [List.take_append_of_le_length (hn.trans h.read)]

/-- The connection ends. -/
theorem disconnect (h : l.Kept c) : l.Kept { c with state := .disconnected } where
  follows := h.follows
  read := h.read
  state := Or.inl rfl
  replied := by
    obtain ⟨n, hn, hreplied, -⟩ := h.replied
    exact ⟨n, hn, hreplied, Or.inl rfl⟩

/-- A live client is sent operations and cursors. -/
theorem send (h : l.Kept c) {ms : List Message} (hl : ms ≠ [] → c.state = .live)
    (hms : ∀ m ∈ ms, m.type = .operation ∨ m.type = .cursorUpdate) :
    l.Kept { c with sent := c.sent ++ ms } where
  follows := h.follows
  read := h.read
  state := h.state
  replied := by
    obtain ⟨n, hn, hreplied, hor⟩ := h.replied
    refine ⟨n, hn, ?_, hor⟩
    obtain rfl | hne := eq_or_ne ms []
    · rwa [List.append_nil]
    have hlive := hl hne
    obtain rfl : n = l.read := hor.resolve_left (by simp [hlive])
    have hafter := h.state.resolve_left (by simp [hlive])
    rw [hlive] at hafter
    rw [← hafter] at hreplied ⊢
    obtain ⟨rest, hrest, hall⟩ := hreplied
    refine ⟨rest ++ types ms, by rw [types_append, hrest]; rfl, fun t ht => ?_⟩
    obtain ht | ht := List.mem_append.1 ht
    · exact hall t ht
    · obtain ⟨m, hm, rfl⟩ := List.mem_map.1 ht
      exact hms m hm

/-- **The server takes the next message.** -/
theorem next (h : l.Kept c) (hc : c.state ≠ .disconnected) {m : Message}
    (hm : l.written[l.read]? = some m) {c' : ClientConnection} {ms : List Message}
    (hsent : c'.sent = c.sent ++ ms)
    (hor : c'.state = .disconnected ∧ ms = [] ∨
      (c'.state = .disconnected ∨ c'.state = c.state.advance m.type) ∧
        ClientState.Replies m.type (types ms)) :
    Kept { l with read := l.read + 1 } c' := by
  have htype := types_getElem? hm
  have hafter := h.state.resolve_left hc
  have htake : ClientState.after (types (l.written.take (l.read + 1))) = c.state.advance m.type := by
    rw [hafter, types_take, types_take, ClientState.after_take_succ htype]
  obtain ⟨n, -, hreplied, hn⟩ := h.replied
  obtain rfl : n = l.read := hn.resolve_left hc
  refine ⟨h.follows, (List.getElem?_eq_some_iff.1 hm).1, ?_, ?_⟩
  · rw [htake]
    exact hor.elim (fun hd => Or.inl hd.1) fun hd => hd.1
  · obtain ⟨hd, rfl⟩ | ⟨hd, hreplies⟩ := hor
    · refine ⟨l.read, Nat.le_succ _, ?_, Or.inl hd⟩
      rwa [hsent, List.append_nil]
    · refine ⟨l.read + 1, le_rfl, ?_, Or.inr rfl⟩
      have hexpects := h.follows.expects htype
      rw [← types_take] at hexpects
      rw [htake, hafter, hsent, types_append]
      exact hreplied.advance hexpects hreplies

end Link.Kept

namespace Server

variable {sha256 : Str → Vector UInt8 32} {s t : Server} {conn : ConnId} {message : Message}

theorem Caught.type {c : ClientConnection} {m : Message} (h : s.Caught c m) :
    m.type = .operation ∨ m.type = .cursorUpdate := by
  obtain ⟨op, -, rfl⟩ | ⟨id, position, -, -, rfl⟩ := h
  exacts [Or.inl rfl, Or.inr rfl]

theorem types_of_caught {c : ClientConnection} {ms : List Message} (h : ∀ m ∈ ms, s.Caught c m) :
    ∀ t ∈ types ms, t = .operation ∨ t = .cursorUpdate := fun t ht => by
  obtain ⟨m, hm, rfl⟩ := List.mem_map.1 ht
  exact (h m hm).type

theorem Reply.replies {c : ClientConnection} {ms : List Message} (h : s.Reply c message ms) :
    ClientState.Replies message.type (types ms) := by
  rw [Reply] at h
  cases hm : message.type with
  | syncComplete =>
    rw [hm] at h
    exact types_of_caught h
  | openDocument =>
    rw [hm] at h
    obtain ⟨d, history, -, rfl, -⟩ := h
    rfl
  | hello | helloAck | operation | syncRequest | syncResponse | cursorUpdate =>
    rw [hm] at h
    obtain rfl := h
    rfl

theorem Reply.accept_state {c : ClientConnection} {ms : List Message} (h : s.Reply c message ms) :
    (c.accept message).state = c.state.advance message.type := by
  rw [Reply] at h
  rw [ClientConnection.accept]
  cases hm : message.type with
  | openDocument =>
    rw [hm] at h
    obtain ⟨d, history, hp, -, -⟩ := h
    rw [hp]
    rfl
  | operation => cases message.payload <;> rfl
  | hello | helloAck | syncComplete | syncRequest | syncResponse | cursorUpdate => rfl

/-- **A message in its turn keeps every connection in its phase**, and nothing is reported. -/
theorem Outcome.kept (h : s.Outcome conn message.serialize t) {links : ConnId → Link}
    (hkept : ∀ k, (links k).Kept (s.connections k)) (hs : (s.connections conn).state ≠ .disconnected)
    (hm : (links conn).written[(links conn).read]? = some message) :
    t.violations = s.violations ∧
      (∀ k, k ≠ conn → (links k).Kept (t.connections k) ∧
        ((s.connections k).state = .unregistered → t.connections k = s.connections k)) ∧
      Link.Kept { links conn with read := (links conn).read + 1 } (t.connections conn) := by
  have hexpects := (hkept conn).follows.expects (types_getElem? hm)
  rw [← types_take, ← (hkept conn).state.resolve_left hs] at hexpects
  obtain ⟨m, -, hdec, -, hanswers⟩ | ⟨m, -, hdec, hunexpected, -⟩ | ⟨-, hdrops⟩ := h
  · have hmt := Message.type_of_deserialize_serialize hdec
    refine ⟨hanswers.violations, fun k hk => ?_, ?_⟩
    · obtain ⟨ms, hms, hall⟩ := hanswers.others k hk
      rw [hms]
      have hlive : ms ≠ [] → (s.connections k).state = .live := fun hne => by
        obtain ⟨m', hm'⟩ := List.exists_mem_of_ne_nil ms hne
        exact (hall m' hm').2.1.1
      refine ⟨(hkept k).send hlive fun m' hm' => ?_, fun hu => ?_⟩
      · obtain ⟨rfl, -, hor⟩ := hall m' hm'
        exact hor
      · by_cases hne : ms = []
        · rw [hne, List.append_nil]
        · rw [hlive hne] at hu
          cases hu
    · obtain ⟨hd, ms, hsent, rfl | ⟨hsync, hcaught⟩⟩ | ⟨ms, hc, hreply⟩ := hanswers.sender
      · exact (hkept conn).next hs hm hsent (Or.inl ⟨hd, rfl⟩)
      · refine (hkept conn).next hs hm hsent (Or.inr ⟨Or.inl hd, ?_⟩)
        rw [← hmt, hsync]
        exact types_of_caught hcaught
      · have hsent : (t.connections conn).sent = (s.connections conn).sent ++ ms := by rw [hc]
        refine (hkept conn).next hs hm hsent (Or.inr ⟨Or.inr ?_, ?_⟩)
        · rw [hc, ← hmt]
          exact hreply.accept_state
        · rw [← hmt]
          exact hreply.replies
  · rw [Message.type_of_deserialize_serialize hdec] at hunexpected
    exact absurd hexpects hunexpected
  · refine ⟨hdrops.violations, fun k hk => ?_, ?_⟩
    · rw [hdrops.connections, if_neg hk]
      exact ⟨hkept k, fun _ => rfl⟩
    · rw [hdrops.connections, if_pos rfl]
      exact (hkept conn).next hs hm (List.append_nil _).symm (Or.inl ⟨rfl, rfl⟩)

end Server

/-! ## One client -/

namespace NetworkClientState

/-- The types a client takes in each state. -/
def Takes : NetworkClientState → MessageType → Prop
  | .registering, t => t = .helloAck
  | .syncing, t => t = .syncResponse ∨ t = .operation ∨ t = .cursorUpdate
  | .live, t => t = .operation ∨ t = .cursorUpdate
  | _, _ => False

/-- How far a client is on its connection. -/
def Stage : NetworkClientState → Link → Prop
  | .disconnected, _ => True
  | .connecting, _ => True
  | .registering, l => types l.written <+: [.hello]
  | .registered, l => types l.written = [.hello] ∧ 1 ≤ l.delivered
  | .syncing, l => 1 ≤ l.delivered
  | .live, _ => False

theorem stage_of_not_connected {state : NetworkClientState} (h : ¬ state.Connected) (l : Link) :
    state.Stage l := by
  have hor : state = .disconnected ∨ state = .connecting :=
    Classical.not_not.1 fun hno => h (not_or.1 hno)
  obtain rfl | rfl := hor <;> exact trivial

theorem Stage.read {state : NetworkClientState} {l : Link} (h : state.Stage l) (n : ℕ) :
    state.Stage { l with read := n } := by
  cases state <;> exact h

theorem Stage.delivered {state : NetworkClientState} {l : Link} (h : state.Stage l) :
    state.Stage { l with delivered := l.delivered + 1 } := by
  cases state with
  | disconnected | connecting => trivial
  | registering => exact h
  | registered => exact ⟨h.1, Nat.le_succ_of_le h.2⟩
  | syncing => exact Nat.le_succ_of_le h
  | live => exact h.elim

theorem hello_or_nil {ts : List MessageType} (h : ts <+: [.hello]) : ts = [] ∨ ts = [.hello] := by
  obtain rfl | ⟨rest, rfl, hrest⟩ := List.prefix_cons_iff.1 h
  · exact Or.inl rfl
  · exact Or.inr (by rw [List.prefix_nil.1 hrest])

/-- A client that wrote its `HELLO` at most is sent the `HELLO_ACK` and nothing else. -/
theorem greeting {l : Link} {c : ClientConnection} (hkept : l.Kept c)
    (h : types l.written <+: [.hello]) {n : ℕ} {m : Message} (hm : c.sent[n]? = some m) :
    n = 0 ∧ m.type = .helloAck ∧ types l.written = [.hello] := by
  obtain ⟨k, -, hreplied, -⟩ := hkept.replied
  have hat := hreplied.at (types_getElem? hm)
  have hread : types (l.written.take k) <+: types l.written := by
    rw [types_take]
    exact List.take_prefix k _
  obtain hnil | hsent := hello_or_nil (hread.trans h)
  · rw [hnil] at hat
    obtain ⟨-, -, hne⟩ | ⟨-, -, hor⟩ := hat
    · exact absurd rfl hne
    · exact absurd hor (by decide)
  · rw [hsent] at hat hread
    obtain ⟨hn, htype, -⟩ | ⟨-, -, hor⟩ := hat
    · exact ⟨hn, htype, (hread.eq_of_length_le h.length_le).symm⟩
    · exact absurd hor (by decide)

/-- **A client takes the next message it was sent.** -/
theorem Stage.takes {state : NetworkClientState} {l : Link} {c : ClientConnection}
    (h : state.Stage l) (hconn : state.Connected) (hkept : l.Kept c) {m : Message}
    (hm : c.sent[l.delivered]? = some m) :
    state.Takes m.type ∧ (state = .registering → types l.written = [.hello]) := by
  cases state with
  | disconnected => exact absurd rfl hconn.1
  | connecting => exact absurd rfl hconn.2
  | live => exact h.elim
  | registering =>
    obtain ⟨-, htype, hsent⟩ := greeting hkept h hm
    exact ⟨htype, fun _ => hsent⟩
  | registered =>
    obtain ⟨hn, -, -⟩ := greeting hkept (h.1 ▸ List.prefix_rfl) hm
    exact absurd hn (Nat.pos_iff_ne_zero.1 h.2)
  | syncing =>
    obtain ⟨k, -, hreplied, -⟩ := hkept.replied
    obtain ⟨hn, -⟩ | ⟨-, htype, -⟩ := hreplied.at (types_getElem? hm)
    · exact absurd hn (Nat.pos_iff_ne_zero.1 h)
    · exact ⟨htype, fun hno => absurd hno (by simp)⟩

end NetworkClientState

/-- **What a client takes is not reported.** -/
theorem NetworkClient.receive_spec (c : NetworkClient) {m : Message} (h : c.state.Takes m.type) :
    (c.receive m.serialize).violations = c.violations ∧
      (c.receive m.serialize).accepted = c.accepted ∧
      ((c.receive m.serialize).state = c.state ∨
        c.state = .registering ∧ (c.receive m.serialize).state = .registered) := by
  rw [receive]
  split
  · exact ⟨rfl, rfl, Or.inl rfl⟩
  rw [handleMessage]
  cases hdec : Message.deserialize m.serialize with
  | error e => exact ⟨rfl, rfl, Or.inl rfl⟩
  | ok m' =>
    rw [← Message.type_of_deserialize_serialize hdec] at h
    cases hs : c.state <;> rw [hs] at h
    case registering =>
      have hm : m'.type = .helloAck := h
      simp [hm]
    case syncing =>
      obtain hm | hm | hm : _ ∨ _ ∨ _ := h <;> simp [hm]
    case live =>
      obtain hm | hm : _ ∨ _ := h <;> simp [hm]
    all_goals exact h.elim

/-! ## The system -/

namespace System

variable {sha256 : Str → Vector UInt8 32} {s : System} {id : Str}

/-- **Where everybody is.** -/
structure Phased (s : System) : Prop where
  registry : s.server.Registry
  server : s.server.violations = []
  clients : ∀ id, (s.network id).violations = []
  fresh : ∀ k, s.opened ≤ k → s.server.connections k = .new ∧ s.links k = ⟨[], 0, 0⟩
  kept : ∀ k, (s.links k).Kept (s.server.connections k)
  stage : ∀ id, (s.network id).state.Stage (s.link id)
  opened : ∀ id, (s.network id).state.Connected → s.connection id < s.opened
  distinct : ∀ id id', (s.network id).state.Connected → (s.network id').state.Connected →
    s.connection id = s.connection id' → id = id'

theorem phased_start : start.Phased where
  registry := Server.registry_start DocumentStore.filed_empty
  server := rfl
  clients _ := rfl
  fresh _ _ := ⟨rfl, rfl⟩
  kept _ := .fresh
  stage _ := trivial
  opened _ h := absurd rfl h.1
  distinct _ _ h := absurd rfl h.1

/-- What asks for a document is the second message. -/
theorem Phased.opens_second (h : s.Phased) (k : ConnId) {m : Message} (hm : m ∈ (s.links k).written)
    (htype : m.type = .openDocument) : (s.links k).written[1]? = some m := by
  obtain ⟨n, hn⟩ := List.getElem?_of_mem hm
  obtain rfl : n = 1 := (h.kept k).follows.opens_second (htype ▸ types_getElem? hn)
  exact hn

/-- **A step of one client**, which changes its link only while it is connected. -/
theorem Phased.client {t : System} (h : s.Phased) (id : Str) (hserver : t.server = s.server)
    (hopened : t.opened = s.opened) (hconnection : t.connection = s.connection)
    (hothers : ∀ k, k ≠ id → t.network k = s.network k) {l : Link}
    (hlinks : ∀ k, t.links k = if k = s.connection id then l else s.links k)
    (hl : l = s.link id ∨ (s.network id).state.Connected)
    (hkept : l.Kept (s.server.connections (s.connection id)))
    (hstage : (t.network id).state.Stage l)
    (hconn : (t.network id).state.Connected → (s.network id).state.Connected)
    (hviolations : (t.network id).violations = []) : t.Phased := by
  have hconnected : ∀ k, (t.network k).state.Connected → (s.network k).state.Connected := by
    intro k hk
    by_cases he : k = id
    · exact he ▸ hconn (he ▸ hk)
    · exact hothers k he ▸ hk
  refine
    { registry := hserver ▸ h.registry
      server := hserver ▸ h.server
      clients := fun k => ?_
      fresh := fun k hk => ?_
      kept := fun k => ?_
      stage := fun k => ?_
      opened := fun k hk => ?_
      distinct := fun k k' hk hk' he => ?_ }
  · by_cases he : k = id
    · exact he ▸ hviolations
    · exact (hothers k he).symm ▸ h.clients k
  · rw [hopened] at hk
    have hfresh := h.fresh k hk
    rw [hserver, hlinks]
    refine ⟨hfresh.1, ?_⟩
    split
    case isTrue he =>
      have hno : ¬ (s.network id).state.Connected := fun hc =>
        absurd (h.opened id hc) (not_lt.2 (he ▸ hk))
      rw [hl.resolve_right hno, link, ← he]
      exact hfresh.2
    case isFalse => exact hfresh.2
  · rw [hserver, hlinks]
    split
    case isTrue he => exact he ▸ hkept
    case isFalse => exact h.kept k
  · rw [link, hconnection, hlinks]
    by_cases he : k = id
    · subst he
      rwa [if_pos rfl]
    · rw [hothers k he]
      by_cases hk : (s.network k).state.Connected
      · split
        case isTrue heq =>
          have hlink := hl.resolve_right fun hc => he (h.distinct k id hk hc heq)
          rw [hlink, link, ← heq]
          exact h.stage k
        case isFalse => exact h.stage k
      · exact NetworkClientState.stage_of_not_connected hk _
  · rw [hconnection, hopened]
    exact h.opened k (hconnected k hk)
  · rw [hconnection] at he
    exact h.distinct k k' (hconnected k hk) (hconnected k' hk') he

/-- A handler of a network client that stays on its connection. -/
theorem Phased.run (h : s.Phased) {handler : NetworkClient → NetworkClient}
    {ms : List Message}
    (hw : (handler (s.client id)).accepted.map (·.2) = (s.network id).accepted.map (·.2) ++ ms)
    (hviolations : (handler (s.client id)).violations = (s.network id).violations)
    (hconn : (handler (s.client id)).state.Connected → (s.network id).state.Connected)
    (hms : ms ≠ [] → (s.network id).state.Connected ∧
      ClientState.unregistered.Follows (types ((s.link id).written ++ ms)))
    (hstage : (handler (s.client id)).state.Stage
      { s.link id with written := (s.link id).written ++ ms }) :
    (s.run id handler).Phased := by
  have hnetwork := network_run s id handler
  refine h.client id rfl rfl rfl (fun k hk => by rw [hnetwork, if_neg hk])
    (l := { s.link id with written := (s.link id).written ++ ms }) (fun k => ?_) ?_ ?_ ?_ ?_ ?_
  · rw [links_run s id handler hw]
    split
    case isTrue he => rw [he]; rfl
    case isFalse => rfl
  · by_cases hne : ms = []
    · rw [hne, List.append_nil]
      exact Or.inl rfl
    · exact Or.inr (hms hne).1
  · by_cases hne : ms = []
    · rw [hne, List.append_nil]
      exact h.kept _
    · exact (h.kept _).write (hms hne).2
  · rwa [hnetwork, if_pos rfl]
  · rwa [hnetwork, if_pos rfl]
  · rw [hnetwork, if_pos rfl, hviolations]
    exact h.clients id

theorem Phased.connectImpl (h : s.Phased) (opened : Bool) :
    (s.run id (·.connectImpl opened)).Phased := by
  have hw := NetworkClient.writes_connectImpl (s.client id) opened
  refine h.run hw.accepted hw.violations (fun hc => ?_) (fun hno => absurd rfl hno) ?_ <;>
    rw [hw.state] at *
  · split at hc
    · exact absurd rfl hc.2
    · exact hc
  · split
    · trivial
    · rw [List.append_nil]
      exact h.stage id

theorem Phased.disconnectImpl (h : s.Phased) :
    (s.run id NetworkClient.disconnectImpl).Phased := by
  have hw := NetworkClient.writes_disconnectImpl (s.client id)
  refine h.run hw.accepted hw.violations (fun hc => ?_) (fun hno => absurd rfl hno) ?_ <;>
    rw [hw.state] at *
  · exact absurd rfl hc.1
  · trivial

/-- **`send_open_document_impl`**: a registered client wrote its `HELLO` and nothing else. -/
theorem Phased.openDocumentImpl (h : s.Phased) (documentId : DocumentID) :
    (s.run id fun c => (c.openDocumentImpl documentId).state).Phased := by
  have hw := NetworkClient.writes_openDocumentImpl (s.client id) documentId
  have hstage := h.stage id
  by_cases hs : (s.client id).state = .registered ∧ documentId ≠ []
  · have hregistered : (s.network id).state = .registered := hs.1
    have hconn : (s.network id).state.Connected := by rw [hregistered]; decide
    rw [hregistered] at hstage
    obtain ⟨hhello, hdelivered⟩ := hstage
    refine h.run hw.accepted hw.violations (fun _ => hconn) (fun hne => ⟨hconn, ?_⟩) ?_
    · rw [types_append, hhello]
      split at hne
      case isTrue he =>
        rw [if_pos he]
        exact ⟨rfl, rfl, trivial⟩
      case isFalse => exact absurd rfl hne
    · rw [hw.state, if_pos hs]
      exact hdelivered
  · have hms := hw.accepted
    have hstate := hw.state
    rw [if_neg fun hno => hs ⟨hno.1, hno.2.1⟩] at hms
    rw [if_neg hs] at hstate
    refine h.run hms hw.violations (fun hc => hstate ▸ hc) (fun hno => absurd rfl hno) ?_
    rw [hstate, List.append_nil]
    exact hstage

/-- What is queued at a connected client is what the server expects next. -/
def Orderly (s : System) : Event → Prop
  | .processOutgoing id => (s.network id).state.Connected →
      (s.session id).outgoingQueue = [] ∨
        (s.network id).state = .syncing ∧ ClientState.unregistered.Follows
          (types (s.link id).written ++ types (s.session id).outgoingQueue)
  | _ => True

instance Orderly.decidable (s : System) : DecidablePred s.Orderly
  | .processOutgoing _ => inferInstanceAs (Decidable (_ → _ ∨ _ ∧ _))
  | .act .. => .isTrue trivial
  | .connect .. => .isTrue trivial
  | .connected _ => .isTrue trivial
  | .disconnect _ => .isTrue trivial
  | .openDocument .. => .isTrue trivial
  | .deliver _ => .isTrue trivial
  | .read .. => .isTrue trivial
  | .close _ => .isTrue trivial
  | .launch _ => .isTrue trivial

/-- **`process_outgoing`.** -/
theorem Phased.processOutgoing (h : s.Phased) (he : s.Orderly (.processOutgoing id)) :
    (s.run id fun c => c.processOutgoing.state).Phased := by
  have hw := NetworkClient.writes_processOutgoing (s.client id)
  have hstage := h.stage id
  by_cases hconn : (s.client id).state.Connected
  · have hms := hw.accepted
    rw [if_pos hconn] at hms
    obtain hnil | ⟨hsyncing, hfollows⟩ := he hconn
    · have houtgoing : (s.client id).outgoing = [] := hnil
      rw [houtgoing, List.takeWhile_nil] at hms
      refine h.run hms hw.violations (fun _ => hconn) (fun hno => absurd rfl hno) ?_
      rw [hw.state, List.append_nil]
      exact hstage
    · refine h.run hms hw.violations (fun _ => hconn) (fun _ => ⟨hconn, ?_⟩) ?_
      · refine hfollows.of_prefix ?_
        rw [types_append]
        exact List.prefix_append_right_inj _ |>.2 ((List.takeWhile_prefix _).map _)
      · rw [hw.state]
        change (s.network id).state.Stage _
        rw [hsyncing] at hstage ⊢
        exact hstage
  · have hms := hw.accepted
    rw [if_neg hconn] at hms
    refine h.run hms hw.violations (fun hc => hw.state ▸ hc) (fun hno => absurd rfl hno) ?_
    rw [hw.state]
    exact NetworkClientState.stage_of_not_connected hconn _

/-- **The next message of the server.** -/
theorem Phased.deliver (h : s.Phased) (id : Str) : (s.deliver id).Phased := by
  rw [System.deliver]
  split
  case isFalse => exact h
  case isTrue hconn =>
    split
    case h_2 => exact h
    case h_1 message hm =>
      have hkept := h.kept (s.connection id)
      obtain ⟨htakes, hhello⟩ := (h.stage id).takes hconn hkept hm
      obtain ⟨hviolations, haccepted, hstate⟩ := (s.client id).receive_spec htakes
      set l : Link := { s.link id with delivered := (s.link id).delivered + 1 } with hl
      have hnetwork := network_run (s.setLink (s.connection id) l) id (·.receive message.serialize)
      have hnew : ((s.setLink (s.connection id) l).run id (·.receive message.serialize)).network id =
          (s.client id).receive message.serialize := by rw [hnetwork, if_pos rfl]; rfl
      refine h.client id rfl rfl rfl (fun k hk => ?_) (l := l) (fun k => ?_)
        (Or.inr hconn) (hkept.delivered _) ?_ (fun _ => hconn) ?_
      · rw [hnetwork, if_neg hk]
        rfl
      · have hnothing : ((s.client id).receive message.serialize).accepted.map (·.2) =
            (s.network id).accepted.map (·.2) ++ [] := by
          rw [haccepted, List.append_nil]
          rfl
        rw [links_run _ _ _ hnothing, List.append_nil]
        change (if k = s.connection id then Function.update s.links (s.connection id) l k else
          Function.update s.links (s.connection id) l k) = _
        rw [ite_self, Function.update_apply]
      · rw [hnew]
        have hstage := h.stage id
        obtain he | ⟨hregistering, he⟩ := hstate
        · rw [he]
          exact hstage.delivered
        · rw [he]
          exact ⟨hhello hregistering, Nat.succ_pos _⟩
      · rw [hnew, hviolations]
        exact h.clients id

/-- **A new connection.** -/
theorem Phased.establish (h : s.Phased) (id : Str) : (s.establish id).Phased := by
  rw [System.establish]
  split
  case isFalse => exact h
  case isTrue hs =>
    set u : System := { s with
      connection := Function.update s.connection id s.opened
      opened := s.opened + 1 } with hu
    have hw := NetworkClient.writes_connected (u.client id)
    have hconnection : u.connection id = s.opened := Function.update_self ..
    have hold : ∀ k, k ≠ id → u.connection k = s.connection k := fun k hk =>
      Function.update_of_ne hk _ _
    have hnetwork := network_run u id NetworkClient.connected
    have hlinks := links_run u id NetworkClient.connected hw.accepted
    rw [hconnection] at hlinks
    set ms := if (NetworkClient.hello (u.client id).clientId).Framable then
      [NetworkClient.hello (u.client id).clientId] else [] with hms
    have hhello : types ms <+: [.hello] := by
      rw [hms]
      split
      exacts [List.prefix_rfl, List.nil_prefix]
    have hfresh := h.fresh s.opened le_rfl
    have hopened : ∀ k, k ≠ id → (s.network k).state.Connected →
        (u.run id NetworkClient.connected).connection k < s.opened := fun k hk hc => by
      rw [show (u.run id NetworkClient.connected).connection k = s.connection k from hold k hk]
      exact h.opened k hc
    refine
      { registry := h.registry
        server := h.server
        clients := fun k => ?_
        fresh := fun k hk => ?_
        kept := fun k => ?_
        stage := fun k => ?_
        opened := fun k hk => ?_
        distinct := fun k k' hk hk' he => ?_ }
    · rw [hnetwork]
      split
      · exact hw.violations.trans (h.clients id)
      · exact h.clients k
    · have hne : k ≠ s.opened := Nat.ne_of_gt hk
      rw [hlinks, if_neg hne]
      exact h.fresh k (Nat.le_of_succ_le hk)
    · rw [hlinks]
      split
      case isTrue he =>
        subst he
        refine (h.kept s.opened).write ?_
        rw [hfresh.2, List.nil_append]
        have hfirst : ClientState.unregistered.Follows [.hello] := ⟨rfl, trivial⟩
        exact hfirst.of_prefix hhello
      case isFalse => exact h.kept k
    · rw [hnetwork, link, hlinks]
      by_cases hk : k = id
      · rw [if_pos hk, hw.state, hk]
        change NetworkClientState.Stage _ (if u.connection id = s.opened then _ else _)
        rw [if_pos hconnection]
        change types ((s.links (u.connection id)).written ++ ms) <+: [.hello]
        rwa [hconnection, hfresh.2]
      · rw [if_neg hk]
        by_cases hc : (s.network k).state.Connected
        · have hlt : (u.run id NetworkClient.connected).connection k ≠ s.opened :=
            Nat.ne_of_lt (hopened k hk hc)
          rw [if_neg hlt, show (u.run id NetworkClient.connected).connection k = s.connection k from
            hold k hk]
          exact h.stage k
        · exact NetworkClientState.stage_of_not_connected hc _
    · rw [hnetwork] at hk
      by_cases he : k = id
      · rw [he, show (u.run id NetworkClient.connected).connection id = s.opened from hconnection]
        exact Nat.lt_succ_self _
      · rw [if_neg he] at hk
        exact Nat.lt_succ_of_lt (hopened k he hk)
    · rw [hnetwork] at hk hk'
      by_cases hkid : k = id <;> by_cases hkid' : k' = id
      · rw [hkid, hkid']
      · rw [if_neg hkid'] at hk'
        have hlt := hopened k' hkid' hk'
        rw [← he, hkid] at hlt
        exact absurd (hconnection ▸ hlt) (lt_irrefl _)
      · rw [if_neg hkid] at hk
        have hlt := hopened k hkid hk
        rw [he, hkid'] at hlt
        exact absurd (hconnection ▸ hlt) (lt_irrefl _)
      · rw [if_neg hkid] at hk
        rw [if_neg hkid'] at hk'
        exact h.distinct k k' hk hk' (((hold k hkid).symm.trans he).trans (hold k' hkid'))

/-- **The next message for the server.** -/
theorem Phased.read (h : s.Phased) (conn : ConnId) (order : RowOrder Str) :
    (s.read sha256 conn order).Phased := by
  rw [System.read]
  split
  case isTrue => exact h
  case isFalse hs =>
    split
    case h_2 => exact h
    case h_1 message hm =>
      have hout := h.registry.outcome sha256 (fun _ => false) hs message.serialize order
      rw [Server.stepWith_none] at hout
      obtain ⟨hviolations, hothers, hself⟩ := hout.kept h.kept hs hm
      have hopen : conn < s.opened := by
        by_contra hno
        rw [(h.fresh conn (not_lt.1 hno)).2] at hm
        cases hm
      refine
        { registry := hout.registry
          server := hviolations.trans h.server
          clients := h.clients
          fresh := fun k hk => ?_
          kept := fun k => ?_
          stage := fun k => ?_
          opened := h.opened
          distinct := h.distinct }
      · have hne : k ≠ conn := fun he => absurd hopen (not_lt.2 (he ▸ hk))
        have hfresh := h.fresh k hk
        refine ⟨((hothers k hne).2 (by rw [hfresh.1]; rfl)).trans hfresh.1, ?_⟩
        exact (Function.update_of_ne hne _ _).trans hfresh.2
      · change Link.Kept (Function.update s.links conn _ k) _
        rw [Function.update_apply]
        split
        case isTrue he => exact he ▸ hself
        case isFalse he => exact (hothers k he).1
      · change NetworkClientState.Stage _ (Function.update s.links conn _ (s.connection k))
        rw [Function.update_apply]
        split
        case isTrue he =>
          have hstage := h.stage k
          rw [link, he] at hstage
          exact hstage.read _
        case isFalse he => exact h.stage k

/-- The end of a connection at the server. -/
theorem Phased.close (h : s.Phased) {conn : ConnId} (hopen : conn < s.opened) :
    ({ s with server := s.server.disconnect conn } : System).Phased := by
  have hdrops := h.registry.disconnect conn
  refine
    { registry := hdrops.registry
      server := hdrops.violations.trans h.server
      clients := h.clients
      fresh := fun k hk => ?_
      kept := fun k => ?_
      stage := h.stage
      opened := h.opened
      distinct := h.distinct }
  · have hne : k ≠ conn := fun he => absurd hopen (not_lt.2 (he ▸ hk))
    change (s.server.disconnect conn).connections k = _ ∧ s.links k = _
    rw [hdrops.connections, if_neg hne]
    exact h.fresh k hk
  · change Link.Kept (s.links k) ((s.server.disconnect conn).connections k)
    rw [hdrops.connections]
    split
    case isTrue he => exact he ▸ (h.kept conn).disconnect
    case isFalse => exact h.kept k

/-- A process that leaves its connection, or only works on its session. -/
theorem Phased.setProcess (h : s.Phased) {p : Process}
    (hp : p.network = s.network id ∨ p.network = .start id) : (s.setProcess id p).Phased := by
  have hnetwork : ∀ k, (s.setProcess id p).network k = if k = id then p.network else s.network k :=
    fun k => by
      change (Function.update s.processes id p k).network = _
      rw [Function.update_apply]
      split <;> rfl
  have hself : (s.setProcess id p).network id = p.network := by rw [hnetwork, if_pos rfl]
  refine h.client id rfl rfl rfl (fun k hk => by rw [hnetwork, if_neg hk]) (l := s.link id)
    (fun k => ?_) (Or.inl rfl) (h.kept _) ?_ ?_ ?_
  · change s.links k = _
    split
    case isTrue he => rw [he]; rfl
    case isFalse => rfl
  all_goals rw [hself]
  · obtain he | he := hp <;> rw [he]
    exacts [h.stage id, trivial]
  · obtain he | he := hp <;> rw [he]
    exacts [fun hc => hc, fun hc => absurd rfl hc.1]
  · obtain he | he := hp <;> rw [he]
    exacts [h.clients id, rfl]

/-- **Every step in order keeps everybody in its phase.** -/
theorem Phased.step (h : s.Phased) {e : Event} (he : s.Orderly e) : (s.step sha256 e).Phased := by
  cases e with
  | act id action => exact h.setProcess (Or.inl rfl)
  | connect id opened => exact h.connectImpl opened
  | connected id => exact h.establish id
  | disconnect id => exact h.disconnectImpl
  | openDocument id documentId => exact h.openDocumentImpl documentId
  | processOutgoing id => exact h.processOutgoing he
  | deliver id => exact h.deliver id
  | read conn order => exact h.read conn order
  | close conn =>
    rw [System.step]
    split
    case isTrue hopen => exact h.close hopen
    case isFalse => exact h
  | launch id => exact h.setProcess (Or.inr rfl)

/-- Nobody reported a message out of turn. -/
def Calm (s : System) : Prop :=
  s.server.violations = [] ∧ ∀ id, (s.network id).violations = []

/-- **The halves of the protocol fit**: where each `process_outgoing` finds in its queue what the
server expects next, neither the server nor a client ever receives a message out of turn. -/
theorem calm_along {events : List Event} (h : Along (step sha256) Orderly start events) :
    Along (step sha256) (fun s e => (s.step sha256 e).Calm) start events :=
  Along.of_invariant
    (fun _ _ hs he => ⟨⟨(hs.step he).server, (hs.step he).clients⟩, hs.step he⟩) phased_start h

/-- A key pressed at a client, and what its `io_context` does about it. -/
def typed (id : Str) (character : Char) : List Event :=
  [.act id (.command ⟨.insertCharacter, character.toUInt8⟩), .act id .queueCursorUpdate,
   .processOutgoing id]

/-- A client connects and opens a document. -/
def joined (id : Str) (conn : ConnId) (documentId : DocumentID) : List Event :=
  [.connect id true, .connected id, .read conn (.inserted Str), .deliver id,
   .openDocument id documentId, .read conn (.inserted Str), .deliver id]

/-- A client that types before it connects, opens `d` and types again. -/
def sampleEvents : List Event :=
  typed (str "a") 'x' ++ joined (str "a") 0 (str "d") ++
    (.act (str "a") .flush :: typed (str "a") 'y' ++
      [.read 0 (.inserted Str), .read 0 (.inserted Str), .read 0 (.inserted Str)])

theorem calm_along_sample :
    Along (step DocumentStore.sampleDigest) (fun s e => (s.step DocumentStore.sampleDigest e).Calm)
      start sampleEvents :=
  calm_along (by decide +kernel)

/-- **A key pressed while the client registers is sent at once**, and the server ends the
connection. -/
theorem rejected_before_sync :
    ¬ ∀ events, Along (step DocumentStore.sampleDigest)
      (fun s e => (s.step DocumentStore.sampleDigest e).Calm) start events := fun h => by
  obtain ⟨-, -, -, -, -, -, ⟨hserver, -⟩, -⟩ := h ([.connect (str "a") true, .connected (str "a"),
    .read 0 (.inserted Str)] ++ typed (str "a") 'x' ++ [.read 0 (.inserted Str)])
  exact absurd hserver (by decide +kernel)

end System

end CrdtEditor
