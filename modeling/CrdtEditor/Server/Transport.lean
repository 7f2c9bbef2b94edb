import CrdtEditor.Foundations.Asio
import CrdtEditor.Foundations.Run
import CrdtEditor.Server.Relay

/-!
# Server/Transport — the socket and the write queue of a connection

`client_connection.cpp` below the calls of the server: reads and writes are asynchronous, and the
frames that wait for the socket stand in `writeQueue`.  The server acts on a connection by calling its
methods, from the handler of its own message or from that of another connection.

`frame.number` is the position of a frame among those the connection accepted, `disconnects` counts
how often the connection was torn down, and `written` lists the frames handed to `async_write`: the
source keeps none of them.
-/

open scoped List

namespace CrdtEditor.ClientConnection

/-- The asynchronous operations of a connection, by their handler.  A write remembers how often the
connection had been torn down when it started. -/
inductive Request
  | readHeader
  | readBody
  | write (frame : Frame) (disconnects : ℕ)
  deriving DecidableEq

/-- One connection of the server with its socket: the frames that wait, the operations under way, and
what was written. -/
structure Transport where
  connection : ClientConnection
  socketOpen : Bool
  writeQueue : List Frame
  io : IoContext Request Empty
  disconnects : ℕ
  written : List Frame

/-- What the server calls on a connection. -/
inductive Call
  | send (message : Message)
  | disconnect
  | setClientId (id : Str)
  | setCurrentDocument (id : DocumentID)
  | markRegistered
  | markSyncing
  | markLive

namespace Transport

/-- `start`, on a connection just accepted. -/
def start : Transport where
  connection := .new
  socketOpen := true
  writeQueue := []
  io := ⟨[.readHeader], []⟩
  disconnects := 0
  written := []

/-- Start an asynchronous operation. -/
def request (t : Transport) (operation : Request) : Transport :=
  { t with io := t.io.start operation }

/-- `start_write`, on a queue that has a front. -/
def startWrite (t : Transport) : Transport :=
  match t.writeQueue with
  | [] => t
  | frame :: _ =>
    { t with written := t.written ++ [frame] }.request (.write frame t.disconnects)

/-- `send_message`: the frame is queued, and written at once if the queue was empty. -/
def send (t : Transport) (message : Message) : Except Exn Transport := do
  let connection ← t.connection.send message
  if t.connection.state = .unregistered ∨ t.connection.state = .disconnected then return t
  let frame : Frame := ⟨t.connection.sent.length, message⟩
  let queued := { t with connection := connection, writeQueue := t.writeQueue ++ [frame] }
  if t.writeQueue = [] then return queued.startWrite
  return queued

/-- `disconnect`; removing the registration is the server's part. -/
def disconnect (t : Transport) : Transport :=
  if t.connection.state = .disconnected then t
  else
    { t with
      connection := { t.connection with state := .disconnected }
      socketOpen := false
      writeQueue := []
      io := t.io.cancel fun _ => true
      disconnects := t.disconnects + 1 }

/-- One call of the server; a `send` that throws leaves the connection, and its caller goes on to
what follows the exception. -/
def call (t : Transport) : Call → Transport
  | .send message =>
    match t.send message with
    | .ok t => t
    | .error _ => t
  | .disconnect => t.disconnect
  | .setClientId id => { t with connection := { t.connection with clientId := id } }
  | .setCurrentDocument id => { t with connection := { t.connection with currentDocument := some id } }
  | .markRegistered => { t with connection := { t.connection with state := .registered } }
  | .markSyncing => { t with connection := { t.connection with state := .syncing } }
  | .markLive => { t with connection := { t.connection with state := .live } }

/-- The handler of a finished operation: `readHeader` found the length `bodyLength`, `readBody` a body
whose handling makes the server call `calls`. -/
def handle (t : Transport) (bodyLength : ℕ) (calls : List Call) : Request → Bool → Transport
  | .readHeader, true =>
    if maxMessageSize < bodyLength then t.disconnect else t.request .readBody
  | .readBody, true =>
    let t := calls.foldl call t
    if t.connection.state = .disconnected then t else t.request .readHeader
  | .write _ _, true =>
    let t := { t with writeQueue := t.writeQueue.tail }
    if t.writeQueue ≠ [] ∧ t.connection.state ≠ .disconnected then t.startWrite else t
  | _, false => t.disconnect

/-- What can happen to a connection: a handler of another connection calls it, an operation in flight
finishes, a waiting handler runs. -/
inductive Event
  | call (call : Call)
  | finish (i : ℕ) (success : Bool)
  | run (i bodyLength : ℕ) (calls : List Call)

/-- One event.  On a closed socket an operation finishes with an error. -/
def step (t : Transport) : Event → Transport
  | .call c => t.call c
  | .finish i success => { t with io := t.io.finish i (success && t.socketOpen) }
  | .run i bodyLength calls =>
    match t.io.ready[i]? with
    | some (.completion operation success) =>
      { t with io := t.io.take i }.handle bodyLength calls operation success
    | _ => t

/-! ## What a completed write finds -/

/-- The write whose successful completion is handled at `e`. -/
def completed (t : Transport) : Event → Option (Frame × ℕ)
  | .run i _ _ =>
    match t.io.ready[i]? with
    | some (.completion (.write frame disconnects) true) => some (frame, disconnects)
    | _ => none
  | _ => none

/-- The front of the queue is the frame whose write completed, so `pop_front` removes it, and the
frames handed to `async_write` are, each once, in the order they were accepted. -/
def Pops (t : Transport) (e : Event) : Prop :=
  (∀ w, t.completed e = some w → t.writeQueue.head? = some w.1) ∧
    (t.step e).written.Pairwise (·.number < ·.number)

/-- The write that completed was started since the connection was last torn down. -/
def Current (t : Transport) (e : Event) : Prop :=
  ∀ w, t.completed e = some w → w.2 = t.disconnects

end Transport

/-- The frame of a write started since the connection was torn down for the `n`th time. -/
def Request.current (n : ℕ) : Request → Option Frame
  | .write frame disconnects => if disconnects = n then some frame else none
  | _ => none

namespace Transport

/-- What the numbers of the frames say, whatever is in flight. -/
structure Numbered (t : Transport) : Prop where
  outstanding : ∀ {frame n}, .write frame n ∈ t.io.outstanding →
    n ≤ t.disconnects ∧ frame.number < t.connection.sent.length
  written : t.written.Pairwise (·.number < ·.number)
  past : ∀ f ∈ t.written, f.number < t.connection.sent.length

/-- A frame in the queue is above those before it and above those of older writes. -/
structure Sorted (t : Transport) : Prop extends Numbered t where
  stale : ∀ {frame n}, .write frame n ∈ t.io.outstanding → n < t.disconnects →
    ∀ g ∈ t.writeQueue, frame.number < g.number
  sorted : t.writeQueue.Pairwise (·.number < ·.number)
  queued : ∀ f ∈ t.writeQueue, f.number < t.connection.sent.length

/-- **The write queue of a connection**: the write of its front is the only current one. -/
structure Queued (t : Transport) : Prop extends Sorted t where
  current : t.io.outstanding.filterMap (Request.current t.disconnects) ~ t.writeQueue.head?.toList
  behind : ∀ f ∈ t.written, ∀ g ∈ t.writeQueue.tail, f.number < g.number
  quiet : t.connection.state = .unregistered ∨ t.connection.state = .disconnected →
    t.writeQueue = []

/-- Between two writes: no write is current, and the whole queue is to be written. -/
structure Idle (t : Transport) : Prop extends Sorted t where
  current : t.io.outstanding.filterMap (Request.current t.disconnects) = []
  behind : ∀ f ∈ t.written, ∀ g ∈ t.writeQueue, f.number < g.number

/-- A new connection has nothing queued. -/
theorem queued_start : Queued start where
  outstanding h := by simp [start, IoContext.outstanding] at h
  written := .nil
  past _ h := absurd h List.not_mem_nil
  current := .refl _
  stale h := by simp [start, IoContext.outstanding] at h
  sorted := .nil
  queued _ h := absurd h List.not_mem_nil
  behind _ h := absurd h List.not_mem_nil
  quiet _ := rfl

variable {t : Transport}

/-- Operations that end leave the others numbered. -/
theorem Numbered.io (h : Numbered t) {io : IoContext Request Empty}
    (hio : io.outstanding ⊆ t.io.outstanding) : Numbered { t with io := io } where
  outstanding hw := h.outstanding (hio hw)
  written := h.written
  past := h.past

/-- Operations that end change nothing but `io` while the current write stays. -/
theorem Queued.io (h : Queued t) {io : IoContext Request Empty}
    (hio : io.outstanding ⊆ t.io.outstanding)
    (hcurrent : io.outstanding.filterMap (Request.current t.disconnects) ~
      t.io.outstanding.filterMap (Request.current t.disconnects)) :
    Queued { t with io := io } where
  toNumbered := h.toNumbered.io hio
  stale hw := h.stale (hio hw)
  sorted := h.sorted
  queued := h.queued
  current := hcurrent.trans h.current
  behind := h.behind
  quiet := h.quiet

/-- What matters of the `io_context` is what is outstanding. -/
theorem Queued.io_perm (h : Queued t) {io : IoContext Request Empty}
    (hio : io.outstanding ~ t.io.outstanding) : Queued { t with io := io } :=
  h.io hio.subset (hio.filterMap _)

/-- An operation other than a write starts or ends. -/
theorem Queued.request (h : Queued t) {operation : Request}
    (hop : ∀ n, operation.current n = none) : Queued (t.request operation) := by
  have hperm := t.io.outstanding_start operation
  have hmem : ∀ {frame n}, .write frame n ∈ (t.io.start operation).outstanding →
      .write frame n ∈ t.io.outstanding := fun {frame n} hw => by
    rcases List.mem_cons.1 (hperm.subset hw) with rfl | hw
    · have := hop n
      simp [Request.current] at this
    · exact hw
  refine
    { outstanding := fun hw => h.outstanding (hmem hw)
      written := h.written
      past := h.past
      current := ((hperm.filterMap _).trans ?_).trans h.current
      stale := fun hw => h.stale (hmem hw)
      sorted := h.sorted
      queued := h.queued
      behind := h.behind
      quiet := h.quiet }
  rw [List.filterMap_cons, hop]
  rfl

/-- **Tearing down** leaves no current write and no queue. -/
theorem Numbered.disconnect (h : Numbered t) (ht : t.connection.state ≠ .disconnected) :
    Queued t.disconnect := by
  rw [Transport.disconnect, if_neg ht]
  have hperm := t.io.outstanding_cancel fun _ => true
  have hle : ∀ {frame n}, Request.write frame n ∈ (t.io.cancel fun _ => true).outstanding →
      n ≤ t.disconnects ∧ frame.number < t.connection.sent.length :=
    fun hw => h.outstanding (hperm.subset hw)
  refine
    { outstanding := fun hw => ⟨(hle hw).1.trans (Nat.le_succ _), (hle hw).2⟩
      written := h.written
      past := h.past
      current := ?_
      stale := fun _ _ _ hg => absurd hg List.not_mem_nil
      sorted := .nil
      queued := fun _ hg => absurd hg List.not_mem_nil
      behind := fun _ _ _ hg => absurd hg List.not_mem_nil
      quiet := fun _ => rfl }
  refine .of_eq (List.filterMap_eq_nil_iff.2 fun operation hop => ?_)
  cases operation with
  | write frame n => exact if_neg fun he : n = t.disconnects + 1 => by have := (hle hop).1; omega
  | readHeader => rfl
  | readBody => rfl

/-- A disconnect empties the queue; a write under way is still to end. -/
theorem Queued.disconnect (h : Queued t) : Queued t.disconnect := by
  by_cases ht : t.connection.state = .disconnected
  · rwa [Transport.disconnect, if_pos ht]
  · exact h.toNumbered.disconnect ht

/-- Writing the front of the queue. -/
theorem startWrite_eq {frame : Frame} {rest : List Frame} (hq : t.writeQueue = frame :: rest) :
    t.startWrite = { t with
      written := t.written ++ [frame]
      io := t.io.start (.write frame t.disconnects) } := by
  rw [Transport.startWrite]
  split
  · next h => rw [h] at hq; cases hq
  · next h => rw [h] at hq; cases hq; rfl

/-- **`start_write`** makes the write of the front the current one. -/
theorem Idle.startWrite (h : Idle t) (hne : t.writeQueue ≠ [])
    (hquiet : ¬ (t.connection.state = .unregistered ∨ t.connection.state = .disconnected)) :
    Queued t.startWrite := by
  obtain ⟨frame, rest, hq⟩ := List.exists_cons_of_ne_nil hne
  have hfront : frame ∈ t.writeQueue := hq ▸ List.mem_cons_self
  have hperm := t.io.outstanding_start (.write frame t.disconnects)
  have hmem : ∀ {f n}, .write f n ∈ (t.io.start (.write frame t.disconnects)).outstanding →
      (f = frame ∧ n = t.disconnects) ∨ .write f n ∈ t.io.outstanding := fun hw =>
    (List.mem_cons.1 (hperm.subset hw)).imp_left fun he => by injection he with h1 h2; exact ⟨h1, h2⟩
  rw [startWrite_eq hq]
  refine
    { outstanding := fun hw => ?_
      written := List.pairwise_append.2 ⟨h.written, List.pairwise_singleton _ _,
        fun f hf g hg => List.mem_singleton.1 hg ▸ h.behind f hf frame hfront⟩
      past := fun f hf => ?_
      stale := fun hw hlt => ?_
      sorted := h.sorted
      queued := h.queued
      current := ?_
      behind := fun f hf g hg => ?_
      quiet := fun hs => absurd hs hquiet }
  · rcases hmem hw with ⟨hf, hn⟩ | hw
    · rw [hf, hn]
      exact ⟨le_rfl, h.queued frame hfront⟩
    · exact h.outstanding hw
  · rcases List.mem_append.1 hf with hf | hf
    · exact h.past f hf
    · exact List.mem_singleton.1 hf ▸ h.queued frame hfront
  · rcases hmem hw with ⟨-, hn⟩ | hw
    · exact absurd hn hlt.ne
    · exact h.stale hw hlt
  · refine (hperm.filterMap _).trans ?_
    rw [List.filterMap_cons, Request.current, if_pos rfl]
    rw [h.current, hq]
    exact .refl _
  · have hg : g ∈ rest := by simpa [hq] using hg
    rcases List.mem_append.1 hf with hf | hf
    · exact h.behind f hf g (hq ▸ List.mem_cons_of_mem _ hg)
    · exact List.mem_singleton.1 hf ▸ (List.pairwise_cons.1 (hq ▸ h.sorted)).1 g hg

/-- What an accepted message does to the record of the connection. -/
theorem send_eq_ok {c c' : ClientConnection} {message : Message} (h : c.send message = .ok c') :
    (c.state = .unregistered ∨ c.state = .disconnected) ∧ c' = c ∨
      ¬ (c.state = .unregistered ∨ c.state = .disconnected) ∧
        c' = { c with sent := c.sent ++ [message] } := by
  rw [ClientConnection.send] at h
  split at h
  · next hs => exact .inl ⟨hs, by simpa using h.symm⟩
  · next hs =>
    split at h
    · cases h
    · exact .inr ⟨hs, by simpa using h.symm⟩

/-- The queue with one more frame, before any of it is written. -/
theorem Sorted.push (h : Sorted t) (message : Message) :
    Sorted { t with
      connection := { t.connection with sent := t.connection.sent ++ [message] }
      writeQueue := t.writeQueue ++ [⟨t.connection.sent.length, message⟩] } where
  outstanding hw := by
    have := h.outstanding hw
    simp only [List.length_append, List.length_singleton]
    omega
  written := h.written
  past f hf := by
    have := h.past f hf
    simp only [List.length_append, List.length_singleton]
    omega
  stale hw hlt g hg := by
    rcases List.mem_append.1 hg with hg | hg
    · exact h.stale hw hlt g hg
    · exact List.mem_singleton.1 hg ▸ (h.outstanding hw).2
  sorted := List.pairwise_append.2 ⟨h.sorted, List.pairwise_singleton _ _,
    fun f hf g hg => List.mem_singleton.1 hg ▸ h.queued f hf⟩
  queued f hf := by
    simp only [List.length_append, List.length_singleton]
    rcases List.mem_append.1 hf with hf | hf
    · exact (h.queued f hf).trans (Nat.lt_succ_self _)
    · exact List.mem_singleton.1 hf ▸ Nat.lt_succ_self _

/-- **`send`** queues a frame above all others, and writes it when the queue was empty. -/
theorem Queued.send (h : Queued t) {message : Message} {t' : Transport}
    (ht : t.send message = .ok t') : Queued t' := by
  rw [Transport.send] at ht
  cases hc : t.connection.send message with
  | error e => rw [hc] at ht; cases ht
  | ok c =>
  rw [hc] at ht
  change (if _ then _ else _) = _ at ht
  rcases send_eq_ok hc with ⟨hs, rfl⟩ | ⟨hs, rfl⟩
  · rw [if_pos hs] at ht
    cases ht
    exact h
  · rw [if_neg hs] at ht
    have hpush := h.toSorted.push message
    split at ht
    · next hq =>
      cases ht
      have hcurrent := h.current
      rw [hq] at hcurrent hpush ⊢
      refine Idle.startWrite { toSorted := hpush, current := hcurrent.eq_nil, behind := ?_ }
        (List.cons_ne_nil _ _) hs
      exact fun f hf g hg => List.mem_singleton.1 hg ▸ h.past f hf
    · next hq =>
      cases ht
      obtain ⟨front, rest, hq⟩ := List.exists_cons_of_ne_nil hq
      refine { toSorted := hpush, current := ?_, behind := ?_, quiet := fun hs' => absurd hs' hs }
      · have := h.current
        rw [hq] at this ⊢
        exact this
      · intro f hf g hg
        have := h.behind
        rw [hq] at this hg
        change g ∈ rest ++ _ at hg
        rcases List.mem_append.1 hg with hg | hg
        · exact this f hf g hg
        · exact List.mem_singleton.1 hg ▸ h.past f hf

/-- **One call** of the server keeps the queue in order. -/
theorem Queued.call (h : Queued t) (c : Call) : Queued (t.call c) := by
  cases c with
  | send message =>
    rw [Transport.call]
    split
    · next h' => exact h.send h'
    · exact h
  | disconnect => exact h.disconnect
  | setClientId id => exact { h with }
  | setCurrentDocument id => exact { h with }
  | markRegistered => exact { h with quiet := fun hs => by rcases hs with hs | hs <;> cases hs }
  | markSyncing => exact { h with quiet := fun hs => by rcases hs with hs | hs <;> cases hs }
  | markLive => exact { h with quiet := fun hs => by rcases hs with hs | hs <;> cases hs }

/-- Then any calls. -/
theorem Queued.calls (h : Queued t) (cs : List Call) : Queued (cs.foldl Transport.call t) := by
  induction cs generalizing t with
  | nil => exact h
  | cons c cs ih => exact ih (h.call c)

/-! ## The handlers -/

section

variable {i : ℕ} {operation : Request} {success : Bool}

/-- An operation ends that was not the current write. -/
theorem Queued.take (h : Queued t) (hr : t.io.ready[i]? = some (.completion operation success))
    (hop : operation.current t.disconnects = none) : Queued { t with io := t.io.take i } := by
  have hperm := IoContext.outstanding_take hr
  refine h.io (fun _ ho => hperm.symm.subset (List.mem_cons_of_mem _ ho)) ?_
  have := hperm.filterMap (Request.current t.disconnects)
  rw [List.filterMap_cons, hop] at this
  exact this.symm

/-- **A current write that ends is the one of the front**, and leaves none. -/
theorem Queued.front (h : Queued t) (hr : t.io.ready[i]? = some (.completion operation success))
    {frame : Frame} (hop : operation.current t.disconnects = some frame) :
    t.writeQueue.head? = some frame ∧
      (t.io.take i).outstanding.filterMap (Request.current t.disconnects) = [] := by
  have hperm := ((IoContext.outstanding_take hr).symm.filterMap _).trans h.current
  rw [List.filterMap_cons, hop] at hperm
  cases hq : t.writeQueue.head? with
  | none => rw [hq] at hperm; exact absurd hperm.eq_nil (List.cons_ne_nil _ _)
  | some front =>
    rw [hq] at hperm
    obtain ⟨rfl, hnil⟩ := List.cons.inj (List.perm_singleton.1 hperm)
    exact ⟨rfl, hnil⟩

/-- An older write that ends is not the one of the front. -/
theorem Queued.not_front (h : Queued t) {frame : Frame} {n : ℕ}
    (hr : t.io.ready[i]? = some (.completion (.write frame n) success))
    (hn : n ≠ t.disconnects) : t.writeQueue.head? ≠ some frame := by
  intro hq
  have hmem : Request.write frame n ∈ t.io.outstanding :=
    (IoContext.outstanding_take hr).symm.subset List.mem_cons_self
  have hlt := lt_of_le_of_ne (h.outstanding hmem).1 hn
  exact lt_irrefl _ (h.stale hmem hlt frame (List.mem_of_mem_head? hq))

/-- Taking a handler to run leaves the rest numbered. -/
theorem Queued.numbered_take (h : Queued t) (i : ℕ) : Numbered { t with io := t.io.take i } :=
  h.toNumbered.io fun o ho => by
    rcases List.mem_append.1 ho with ho | ho
    · exact List.mem_append_left _ ho
    · exact List.mem_append_right _ (List.Sublist.subset
        ((List.eraseIdx_sublist _ _).filterMap _) ho)

/-- A handler that fails tears the connection down, or finds it down. -/
theorem Queued.fail (h : Queued t) (hr : t.io.ready[i]? = some (.completion operation success)) :
    Queued ({ t with io := t.io.take i } : Transport).disconnect := by
  by_cases ht : t.connection.state = .disconnected
  · rw [Transport.disconnect, if_pos ht]
    refine h.take hr ?_
    cases hop : operation.current t.disconnects with
    | none => rfl
    | some frame =>
      have := (h.front hr hop).1
      rw [h.quiet (.inr ht)] at this
      cases this
  · exact (h.numbered_take i).disconnect ht

/-- **A current write that succeeds** pops its own frame and starts the next. -/
theorem Queued.pop (h : Queued t) {frame : Frame}
    (hr : t.io.ready[i]? = some (.completion (.write frame t.disconnects) true)) (n : ℕ)
    (calls : List Call) :
    Queued (({ t with io := t.io.take i } : Transport).handle n calls
      (.write frame t.disconnects) true) := by
  obtain ⟨hfront, hnone⟩ := h.front hr (if_pos rfl)
  obtain ⟨rest, hq⟩ : ∃ rest, t.writeQueue = frame :: rest :=
    ⟨_, List.eq_cons_of_mem_head? hfront⟩
  have hquiet : ¬ (t.connection.state = .unregistered ∨ t.connection.state = .disconnected) :=
    fun hs => by rw [h.quiet hs] at hq; cases hq
  have hin : ∀ {g}, g ∈ rest → g ∈ t.writeQueue := fun hg => hq ▸ List.mem_cons_of_mem _ hg
  have hnumbered := h.numbered_take i
  have hidle : Idle { t with io := t.io.take i, writeQueue := rest } :=
    { outstanding := hnumbered.outstanding
      written := h.written
      past := h.past
      stale := fun hw hlt g hg =>
        h.stale ((IoContext.outstanding_take hr).symm.subset (List.mem_cons_of_mem _ hw)) hlt g (hin hg)
      sorted := (List.pairwise_cons.1 (hq ▸ h.sorted)).2
      queued := fun g hg => h.queued g (hin hg)
      current := hnone
      behind := fun f hf g hg => h.behind f hf g (by rw [hq]; exact hg) }
  simp only [handle, hq, List.tail_cons]
  split
  · next hs => exact hidle.startWrite hs.1 hquiet
  · next hs =>
    have hrest : rest = [] := by
      by_contra hne
      exact hs ⟨hne, fun hd => hquiet (.inr hd)⟩
    subst hrest
    exact { hidle with
      current := .of_eq hnone
      behind := fun _ _ _ hg => absurd hg List.not_mem_nil
      quiet := fun _ => rfl }

/-- **Every handler keeps the queue**, unless it is that of an older write that succeeded. -/
theorem Queued.handle (h : Queued t) (hr : t.io.ready[i]? = some (.completion operation success))
    (hcurrent : ∀ {frame n}, operation = .write frame n → success = true → n = t.disconnects)
    (n : ℕ) (calls : List Call) :
    Queued (({ t with io := t.io.take i } : Transport).handle n calls operation success) := by
  cases success with
  | false => cases operation <;> exact h.fail hr
  | true =>
    cases operation with
    | readHeader =>
      have htake := h.take hr rfl
      rw [Transport.handle]
      split
      · exact htake.disconnect
      · exact htake.request fun _ => rfl
    | readBody =>
      have hcalls := (h.take hr rfl).calls calls
      rw [Transport.handle]
      split
      · exact hcalls
      · exact hcalls.request fun _ => rfl
    | write frame m =>
      obtain rfl := hcurrent rfl rfl
      exact h.pop hr n calls

end

/-! ## Runs -/

/-- A write that completes is one that succeeded and whose handler is taken to run. -/
theorem completed_eq_some {i n : ℕ} {calls : List Call} {w : Frame × ℕ}
    (h : t.completed (.run i n calls) = some w) :
    t.io.ready[i]? = some (.completion (.write w.1 w.2) true) := by
  rw [completed] at h
  split at h
  · next hr => cases h; exact hr
  · cases h

/-- **Step lemma.** -/
theorem Queued.step (h : Queued t) (e : Event) (hcurrent : t.Current e) : Queued (t.step e) := by
  cases e with
  | call c => exact h.call c
  | finish i success => exact h.io_perm (t.io.outstanding_finish i _)
  | run i n calls =>
    rw [Transport.step]
    split
    · next operation success hr =>
      refine h.handle hr (fun hop hs => ?_) n calls
      subst hop hs
      exact hcurrent (_, _) (by rw [completed, hr])
    · exact h

/-- **One event** pops the frame that was written, exactly if the connection was not torn down since. -/
theorem Queued.pops_iff (h : Queued t) (e : Event) : t.Pops e ↔ t.Current e := by
  refine ⟨fun ⟨hfront, _⟩ w hw => ?_, fun hcurrent => ⟨fun w hw => ?_, (h.step e hcurrent).written⟩⟩
  · by_contra hn
    cases e with
    | run i n calls => exact h.not_front (completed_eq_some hw) hn (hfront w hw)
    | call c => cases hw
    | finish i success => cases hw
  · cases e with
    | run i n calls => exact (h.front (completed_eq_some hw) (if_pos (hcurrent w hw))).1
    | call c => cases hw
    | finish i success => cases hw

/-- **The write queue.**  Along every run of a connection, each write that completes without an error
finds its frame at the front of the queue, and the frames are written once each in the order they were
sent, exactly if no write completes that was started before the connection was last torn down. -/
theorem pops_along_iff (es : List Event) : Along step Pops start es ↔ Along step Current start es :=
  Along.iff_of_invariant (fun _ e h => h.pops_iff e) (fun _ e h => h.step e) queued_start

/-- A client says `HELLO`; when its connection breaks, the answer has just been written, and the
handler of that write finds the queue empty. -/
theorem pops_empty_after_disconnect :
    ¬ ∀ es, Along step Pops start es := by
  intro h
  have hrun := h [.finish 0 true, .run 0 8 [], .finish 0 true,
    .run 0 0 [.setClientId (str "a"), .markRegistered,
      .send ⟨.helloAck, str "server", .monostate⟩],
    .finish 1 false, .finish 0 true, .run 0 0 [], .run 0 0 []]
  exact absurd (hrun.2.2.2.2.2.2.2.1.1 (⟨0, ⟨.helloAck, str "server", .monostate⟩⟩, 0) (by decide))
    (by decide)

end Transport

/-! ## The server's side of a connection -/

/-- A call, on the record the server reads. -/
def call (c : ClientConnection) : Call → ClientConnection
  | .send message =>
    match c.send message with
    | .ok c => c
    | .error _ => c
  | .disconnect => if c.state = .disconnected then c else { c with state := .disconnected }
  | .setClientId id => { c with clientId := id }
  | .setCurrentDocument id => { c with currentDocument := some id }
  | .markRegistered => { c with state := .registered }
  | .markSyncing => { c with state := .syncing }
  | .markLive => { c with state := .live }

/-- A message is sent to a registered client if it can be framed. -/
theorem call_send (c : ClientConnection) (message : Message) :
    c.call (.send message) =
      if c.isRegistered ∧ message.serialize.length < 2 ^ 32
      then { c with sent := c.sent ++ [message] } else c := by
  have hr : c.isRegistered ↔ ¬ (c.state = .unregistered ∨ c.state = .disconnected) := by
    cases hs : c.state <;> simp [ClientConnection.isRegistered, hs]
  rw [call, ClientConnection.send]
  by_cases hs : c.state = .unregistered ∨ c.state = .disconnected
  · rw [if_pos hs, if_neg fun h => hr.1 h.1 hs]
  · rw [if_neg hs]
    by_cases hl : 2 ^ 32 ≤ message.serialize.length
    · rw [if_pos hl, if_neg fun h => absurd h.2 (not_lt.2 hl)]
    · rw [if_neg hl, if_pos ⟨hr.2 hs, not_le.1 hl⟩]

/-- The transport carries the server's record along. -/
theorem Transport.call_connection (t : Transport) (k : Call) :
    (t.call k).connection = t.connection.call k := by
  cases k with
  | send message =>
    rw [Transport.call, ClientConnection.call, Transport.send]
    cases hc : t.connection.send message with
    | error e => rfl
    | ok c =>
      rcases Transport.send_eq_ok hc with ⟨hs, rfl⟩ | ⟨hs, rfl⟩
      · simp only [bind, Except.bind, if_pos hs]; rfl
      · simp only [bind, Except.bind, if_neg hs]
        by_cases hq : t.writeQueue = []
        · simp only [hq, if_true, List.nil_append]; rfl
        · simp only [hq, if_false]; rfl
  | disconnect =>
    rw [Transport.call, ClientConnection.call, Transport.disconnect]
    split <;> rfl
  | setClientId id => rfl
  | setCurrentDocument id => rfl
  | markRegistered => rfl
  | markSyncing => rfl
  | markLive => rfl

/-- A call ignores the record of what was submitted. -/
theorem call_submitted (c : ClientConnection) (ops : List Operation) (k : Call) :
    { c with submitted := ops }.call k = { c.call k with submitted := ops } := by
  cases k with
  | send message =>
    have hr : ({ c with submitted := ops } : ClientConnection).isRegistered = c.isRegistered := rfl
    simp only [call_send, hr]
    split <;> rfl
  | disconnect => rw [call, call]; split <;> rfl
  | setClientId id => rfl
  | setCurrentDocument id => rfl
  | markRegistered => rfl
  | markSyncing => rfl
  | markLive => rfl

/-- No call reads or writes what the client submitted. -/
theorem calls_submitted (c : ClientConnection) (ops : List Operation) (ks : List Call) :
    ks.foldl call { c with submitted := ops } = { ks.foldl call c with submitted := ops } := by
  induction ks generalizing c with
  | nil => rfl
  | cons k ks ih => rw [List.foldl_cons, List.foldl_cons, call_submitted, ih]

end CrdtEditor.ClientConnection

namespace CrdtEditor.Server

open ClientConnection

/-- From `s` to `t` the server did nothing to a connection but call it. -/
def Calls (s t : Server) : Prop :=
  ∀ conn, ∃ ks : List Call, ks.foldl call (s.connections conn) =
    { t.connections conn with submitted := (s.connections conn).submitted }

/-- No call. -/
theorem calls_refl (s : Server) : Calls s s := fun _ => ⟨[], rfl⟩

variable {s t u : Server}

/-- The calls of one handler after those of another. -/
theorem Calls.trans (h : Calls s t) (h' : Calls t u) : Calls s u := fun conn => by
  obtain ⟨ks, hks⟩ := h conn
  obtain ⟨ks', hks'⟩ := h' conn
  refine ⟨ks ++ ks', ?_⟩
  rw [List.foldl_append, hks, calls_submitted, hks']

/-- A change of the documents, the directory or the carets. -/
theorem Calls.of_connections (h : t.connections = s.connections) : Calls s t := fun conn =>
  ⟨[], by rw [h]; rfl⟩

/-- Some calls on one connection. -/
theorem Calls.of_calls (h : Calls s t) {conn : ConnId} {c : ClientConnection} (ks : List Call)
    (hc : ks.foldl call (t.connections conn) =
      { c with submitted := (t.connections conn).submitted }) :
    Calls s (t.setConnection conn c) := by
  refine h.trans fun conn' => ?_
  rw [connections_setConnection]
  split
  case isTrue he => exact ⟨ks, he ▸ hc⟩
  case isFalse => exact ⟨[], rfl⟩

/-- **Sending** is a call. -/
theorem Calls.send (h : Calls s t) (conn : ConnId) (m : Message) :
    (t.send conn m).Ends (Calls s) (Calls s) := by
  rw [Server.send]
  cases hc : (t.connections conn).send m with
  | error e => exact h
  | ok c =>
    refine h.of_calls [.send m] ?_
    simp only [List.foldl_cons, List.foldl_nil, call, hc]
    rcases Transport.send_eq_ok hc with ⟨-, rfl⟩ | ⟨-, rfl⟩ <;> rfl

/-- So is disconnecting. -/
theorem Calls.disconnect (h : Calls s t) (conn : ConnId) : Calls s (t.disconnect conn) := by
  rw [Server.disconnect]
  split
  case isTrue hs => exact h
  case isFalse hs =>
    have hcall := h.of_calls (c := { t.connections conn with state := .disconnected })
      [.disconnect] (if_neg hs)
    dsimp only
    split
    · exact hcall.trans (.of_connections (connections_unregisterClient _ _))
    · exact hcall

/-- A refusal disconnects. -/
theorem Calls.reject (h : Calls s t) (conn : ConnId) (report : Str) :
    Calls s (t.reject conn report) :=
  (h.trans (u := { t with violations := t.violations ++ [report] }) (.of_connections rfl)).disconnect
    conn

/-- Calls on one client after the other. -/
theorem Calls.foldlM {β : Type} {f : Server → β → Except (Exn × Server) Server} {l : List β}
    (hf : ∀ b t, Calls s t → (f t b).Ends (Calls s) (Calls s)) (h : Calls s t) :
    (l.foldlM f t).Ends (Calls s) (Calls s) :=
  Except.ends_foldlM (I := fun _ t => Calls s t) (fun b _ t ht => hf b t ht) h

/-- A `HELLO` sets the id and the state of its connection, and is answered. -/
theorem calls_registerClient (s : Server) (conn : ConnId) (id : Str) :
    (s.registerClient conn id).Ends (Calls s) (Calls s) := by
  rw [Server.registerClient]
  refine Except.ends_ite (fun _ => calls_refl s) fun _ => ?_
  refine Except.ends_ite (fun _ => calls_refl s) fun _ => ?_
  refine Calls.send (Calls.of_calls (.of_connections ?_) [.setClientId id, .markRegistered] ?_) conn _
  · rfl
  · rfl

/-- `OPEN_DOCUMENT` sets its document and its state, and is answered by the history. -/
theorem calls_openDocument (s : Server) (order : RowOrder Str) (conn : ConnId) (d : DocumentID) :
    (s.openDocument order conn d).Ends (Calls s) (Calls s) := by
  rw [Server.openDocument]
  refine Except.ends_ite (fun _ => calls_refl s) fun _ => ?_
  refine Except.ends_ite (fun _ => calls_refl s) fun _ => ?_
  have hopened : ∀ store : DocumentStore,
      (do
        let t : Server := { s with store := store }
        let p ← Except.leaving t (t.store.getDocument d)
        let history ← Except.leaving t (p.getHistory t.store.database order)
        let t := t.setConnection conn
          { t.connections conn with currentDocument := some d, state := .syncing }
        t.send conn ⟨.syncResponse, str "server", .history history⟩ :
          Except (Exn × Server) Server).Ends (Calls s) (Calls s) := fun store => by
    refine Except.ends_leaving_bind (fun p _ => ?_) (.of_connections rfl)
    refine Except.ends_leaving_bind (fun history _ => ?_) (.of_connections rfl)
    refine Calls.send (Calls.of_calls (.of_connections ?_) [.setCurrentDocument d, .markSyncing] ?_)
      conn _
    · rfl
    · rfl
  split
  · exact hopened s.store
  · exact Except.ends_leaving_bind (fun store _ => hopened store) (calls_refl s)

theorem calls_sendPresence (h : Calls s t) (conn : ConnId) :
    (t.sendPresence conn).Ends (Calls s) (Calls s) := by
  rw [Server.sendPresence]
  refine Except.ends_leaving_bind (fun d _ => ?_) h
  refine h.foldlM fun e u hu => ?_
  refine Except.ends_ite (fun _ => hu) fun _ => ?_
  cases AList.lookup e.1 u.clients with
  | none => exact hu
  | some other => exact Except.ends_ite (fun _ => hu.send conn _) fun _ => hu

/-- To those that are live the message is sent; for those that synchronize it waits. -/
theorem calls_routeMessage (h : Calls s t) (sender : ConnId) (m : Message) :
    (t.routeMessage sender m).Ends (Calls s) (Calls s) := by
  rw [Server.routeMessage]
  refine Except.ends_leaving_bind (fun d _ => ?_) h
  refine Except.ends_leaving_bind (fun operation _ => ?_) h
  refine h.foldlM fun e u hu => ?_
  rw [routeTo]
  refine Except.ends_ite (fun _ => ?_) fun _ => hu
  refine Except.ends_ite (fun _ => hu.trans (.of_connections rfl)) fun _ => ?_
  exact Except.ends_ite (fun _ => hu.send e.2 m) fun _ => hu

theorem calls_routeCursorUpdate (s : Server) (sender : ConnId) (m : Message) :
    (s.routeCursorUpdate sender m).Ends (Calls s) (Calls s) := by
  rw [Server.routeCursorUpdate]
  refine Except.ends_leaving_bind (fun d _ => ?_) (calls_refl s)
  refine Except.ends_leaving_bind (fun position _ => ?_) (calls_refl s)
  refine Except.ends_ite (fun _ => calls_refl s) fun _ => ?_
  refine Calls.foldlM (fun e u hu => ?_) (.of_connections rfl)
  exact Except.ends_ite (fun _ => hu.send e.2 m) fun _ => hu

/-- The operations that waited, then the other carets. -/
theorem calls_finishSync (s : Server) (conn : ConnId) :
    (s.finishSync conn).Ends (Calls s) (Calls s) := by
  rw [Server.finishSync]
  refine Except.ends_ite (fun _ => calls_refl s) fun _ => ?_
  refine Except.ends_ite (fun _ => calls_refl s) fun _ => ?_
  dsimp only
  cases AList.lookup (s.connections conn).clientId s.pendingSyncOperations with
  | none => exact calls_refl s
  | some pending =>
    refine Except.Ends.bind ((calls_refl s).foldlM fun op t ht => ht.send conn _) fun t ht => ?_
    refine calls_sendPresence (Calls.of_calls (ht.trans (.of_connections ?_)) [.markLive] ?_) conn
    · rfl
    · rfl

variable (sha256 : Str → Vector UInt8 32)

theorem calls_applyAndRoute (s : Server) (sender : ConnId) (m : Message) :
    (s.applyAndRoute sha256 sender m).Ends (Calls s) (Calls s) := by
  rw [Server.applyAndRoute]
  refine Except.ends_leaving_bind (fun operation _ => ?_) (calls_refl s)
  refine Except.ends_leaving_bind (fun d _ => ?_) (calls_refl s)
  cases s.store.applyOperation sha256 d operation with
  | error e => exact .of_connections rfl
  | ok store =>
    dsimp only
    refine calls_routeMessage (Calls.of_calls (.of_connections ?_) [] ?_) sender m
    · rfl
    · rfl

/-- **One message.** -/
theorem calls_handle (order : RowOrder Str) (s : Server) (sender : ConnId) (m : Message) :
    (s.handle sha256 order sender m).Ends (Calls s) (Calls s) := by
  have hreject : ∀ report, Calls s (s.reject sender report) := (calls_refl s).reject sender
  rw [Server.handle]
  cases m.type with
  | hello =>
    refine Except.ends_ite (fun _ => hreject _) fun _ => ?_
    exact ends_caught (calls_registerClient s sender m.sender) fun t ht => ht.disconnect sender
  | operation =>
    refine Except.ends_ite (fun _ => hreject _) fun _ => ?_
    exact Except.ends_ite (fun _ => hreject _) fun _ => calls_applyAndRoute sha256 s sender m
  | syncComplete =>
    exact Except.ends_ite (fun _ => hreject _) fun _ => calls_finishSync s sender
  | cursorUpdate =>
    exact Except.ends_ite (fun _ => hreject _) fun _ => calls_routeCursorUpdate s sender m
  | openDocument =>
    refine Except.ends_ite (fun _ => hreject _) fun _ => ?_
    refine Except.ends_ite (fun _ => hreject _) fun _ => ?_
    refine Except.ends_leaving_bind (fun d _ => ?_) (calls_refl s)
    exact ends_caught (calls_openDocument s order sender d) fun t ht => ht.disconnect sender
  | helloAck => exact hreject _
  | syncRequest => exact hreject _
  | syncResponse => exact hreject _

/-- **The server acts on its connections by calls alone**: the transport of each connection sees a
run of `Transport.call`. -/
theorem calls_step (s : Server) (e : Event) (he : ∀ documentOrder rowOrder,
    e ≠ .restart documentOrder rowOrder) : Calls s (s.step sha256 e) := by
  cases e with
  | receive conn body order =>
    rw [Server.step]
    split
    · exact (calls_refl s).disconnect conn
    · rw [Server.receiveMessage]
      cases Message.deserialize body with
      | error e => exact (calls_refl s).disconnect conn
      | ok m =>
        have h := calls_handle sha256 order s conn m
        dsimp only
        cases hm : s.handle sha256 order conn m with
        | ok t => rw [hm] at h; exact h
        | error e => rw [hm] at h; exact Calls.disconnect h conn
  | disconnect conn => exact (calls_refl s).disconnect conn
  | restart documentOrder rowOrder => exact absurd rfl (he documentOrder rowOrder)

end CrdtEditor.Server
