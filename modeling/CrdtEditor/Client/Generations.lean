import CrdtEditor.Client.NetworkClient

/-!
# Client/Generations — what the failure of an old connection may reach

A handler of an older generation returns at once, but the `disconnect` that an error posts carries no
generation: it tears down whatever connection it finds when its turn comes.  While a client is
connected, the next disconnect in the queue, if an error posted it, is that of its own generation;
only a connection started in front of a waiting disconnect can break this.
-/

open scoped List

namespace CrdtEditor

namespace NetworkClient

/-- The cause of the first `disconnect` that waits. -/
def nextDisconnect : List (Handler Request Task) → Option (Option ℕ)
  | [] => none
  | .posted (.disconnect cause) :: _ => some cause
  | _ :: ready => nextDisconnect ready

/-- What is posted later is next only if nothing was posted before. -/
theorem nextDisconnect_append (l new : List (Handler Request Task)) :
    nextDisconnect (l ++ new) = (nextDisconnect l).or (nextDisconnect new) := by
  induction l with
  | nil => rfl
  | cons h l ih =>
    cases h with
    | completion operation success => exact ih
    | posted task => cases task <;> first | exact ih | rfl

/-- Any other handler may run first. -/
theorem nextDisconnect_cons {h : Handler Request Task} (hn : ∀ cause, h ≠ .posted (.disconnect cause))
    (l : List (Handler Request Task)) : nextDisconnect (h :: l) = nextDisconnect l := by
  cases h with
  | completion operation success => rfl
  | posted task => cases task <;> first | rfl | exact absurd rfl (hn _)

/-- Operations that end put no disconnect into the queue. -/
theorem nextDisconnect_finish (io : IoContext Request Task) (i : ℕ) (success : Bool) :
    nextDisconnect (io.finish i success).ready = nextDisconnect io.ready := by
  rw [IoContext.finish]
  cases io.flying[i]? with
  | none => rfl
  | some op =>
    rw [nextDisconnect_append]
    exact Option.or_none

/-- Cancelling operations posts no disconnect. -/
theorem nextDisconnect_cancel (io : IoContext Request Task) (p : Request → Bool) :
    nextDisconnect (io.cancel p).ready = nextDisconnect io.ready := by
  have hnone : ∀ l : List Request, nextDisconnect (l.map (.completion · false)) = none := fun l => by
    induction l with
    | nil => rfl
    | cons op l ih => exact ih
  rw [IoContext.cancel, nextDisconnect_append, hnone, Option.or_none]

/-- The next disconnect is one that waits. -/
theorem mem_of_nextDisconnect {cause : Option ℕ} :
    ∀ {l : List (Handler Request Task)}, nextDisconnect l = some cause →
      .posted (.disconnect cause) ∈ l
  | .completion _ _ :: _, h => List.mem_cons_of_mem _ (mem_of_nextDisconnect h)
  | .posted .connect :: _, h => List.mem_cons_of_mem _ (mem_of_nextDisconnect h)
  | .posted (.disconnect _) :: _, h => by cases h; exact List.mem_cons_self
  | .posted (.openDocument _) :: _, h => List.mem_cons_of_mem _ (mem_of_nextDisconnect h)
  | .posted .processOutgoing :: _, h => List.mem_cons_of_mem _ (mem_of_nextDisconnect h)

/-- The disconnect of an error on an older generation, when its turn comes, only leaves the queue: the
state, the socket, the write queue and the operations of the connection are what they were. -/
def Spares (c : NetworkClient) (e : Event) : Prop :=
  ∀ input g, e = .run input → c.io.ready.head? = some (.posted (.disconnect (some g))) →
    g < c.generation → c.step e = { c with io := c.io.take 0 }

/-- The turn of `connect_impl` that starts a connection finds no disconnect of an error next. -/
def Settled (c : NetworkClient) : Event → Prop
  | .run _ => c.io.ready.head? = some (.posted .connect) → c.state = .disconnected →
      (nextDisconnect c.io.ready.tail).join = none
  | _ => True

instance (c : NetworkClient) (e : Event) : Decidable (c.Settled e) := by
  cases e <;> unfold Settled <;> infer_instance

end NetworkClient

namespace NetworkClient.Request

/-- The generation that the callback of an operation was bound with. -/
def generation : Request → ℕ
  | resolve g => g
  | connect g => g
  | readHeader g => g
  | readBody g => g
  | write g _ => g

/-- Whether an operation is on the way to the connection of generation `n`. -/
def dials (n : ℕ) : Request → Bool
  | resolve g => g = n
  | connect g => g = n
  | _ => false

end NetworkClient.Request

namespace NetworkClient

/-- What is outstanding belongs to this generation or an older one. -/
def Past (c : NetworkClient) : Prop := ∀ op ∈ c.io.outstanding, op.generation ≤ c.generation

/-- **A client on its way to a connection**: nothing outstanding is of a later generation, only a
connecting client is dialing, and it dials once. -/
structure Dialing (c : NetworkClient) : Prop where
  past : c.Past
  single : (c.io.outstanding.filter (·.dials c.generation)).length ≤ 1
  dialing : ∀ op ∈ c.io.outstanding, op.dials c.generation → c.state = .connecting

/-- While the client is connected the next disconnect, if an error posted it, is its own. -/
def Owns (c : NetworkClient) : Prop := c.state ≠ .disconnected → ∀ g,
  nextDisconnect c.io.ready = some (some g) → g = c.generation

/-- **A client and what waits for it.** -/
structure Attached (c : NetworkClient) : Prop extends Dialing c where
  owns : c.Owns

/-- A new client has asked for nothing. -/
theorem dialing_start (clientId : Str) : Dialing (start clientId) where
  past _ h := absurd h List.not_mem_nil
  single := Nat.zero_le 1
  dialing _ h := absurd h List.not_mem_nil

/-- Nothing waits for it either. -/
theorem attached_start (clientId : Str) : Attached (start clientId) :=
  ⟨dialing_start clientId, fun h => absurd rfl h⟩

/-- What a handler does within its generation: it starts reads and writes, and posts no disconnect but
its own. -/
structure Stays (c c' : NetworkClient) : Prop where
  generation : c'.generation = c.generation
  connecting : c.state = .connecting → c'.state = .connecting
  disconnected : c.state = .disconnected → c'.state = .disconnected
  started : ∃ ops, c'.io.outstanding ~ ops ++ c.io.outstanding ∧
    ∀ op ∈ ops, op.generation = c.generation ∧ ∀ n, op.dials n = false
  posted : ∃ new, c'.io.ready = c.io.ready ++ new ∧
    ∀ cause, .posted (.disconnect cause) ∈ new → cause = some c.generation

variable {c c' c'' : NetworkClient}

/-- A change that leaves the generation and the `io_context` alone. -/
theorem Stays.of_eq (hg : c'.generation = c.generation) (hio : c'.io = c.io)
    (hc : c.state = .connecting → c'.state = .connecting)
    (hd : c.state = .disconnected → c'.state = .disconnected) : Stays c c' where
  generation := hg
  connecting := hc
  disconnected := hd
  started := ⟨[], by rw [hio]; exact .refl _, by simp⟩
  posted := ⟨[], by rw [hio, List.append_nil], by simp⟩

theorem stays_refl (c : NetworkClient) : Stays c c := .of_eq rfl rfl id id

/-- One handler's part after the other. -/
theorem Stays.trans (h : Stays c c') (h' : Stays c' c'') : Stays c c'' where
  generation := h'.generation.trans h.generation
  connecting := h'.connecting ∘ h.connecting
  disconnected := h'.disconnected ∘ h.disconnected
  started := by
    obtain ⟨ops, hops, hall⟩ := h.started
    obtain ⟨ops', hops', hall'⟩ := h'.started
    refine ⟨ops' ++ ops, ?_, fun op hop => ?_⟩
    · rw [List.append_assoc]
      exact hops'.trans (hops.append_left _)
    · rcases List.mem_append.1 hop with hop | hop
      · exact h.generation ▸ hall' op hop
      · exact hall op hop
  posted := by
    obtain ⟨new, hnew, hown⟩ := h.posted
    obtain ⟨new', hnew', hown'⟩ := h'.posted
    refine ⟨new ++ new', by rw [hnew', hnew, List.append_assoc], fun cause hc => ?_⟩
    rcases List.mem_append.1 hc with hc | hc
    · exact hown cause hc
    · exact h.generation ▸ hown' cause hc

/-- Whatever is posted within a generation is posted behind what waits, and by its own errors. -/
theorem Stays.owns (h : Stays c c') (hc : c.Owns) : c'.Owns := by
  obtain ⟨new, hready, hown⟩ := h.posted
  intro hs g hg
  rw [hready, nextDisconnect_append] at hg
  rw [h.generation]
  cases hl : nextDisconnect c.io.ready with
  | none =>
    rw [hl] at hg
    exact Option.some.inj (hown (some g) (mem_of_nextDisconnect hg))
  | some cause =>
    rw [hl] at hg
    exact hc (fun hd => hs (h.disconnected hd)) g (hl.trans hg)

/-- Reading and writing is not dialing. -/
theorem Stays.dialing (h : Stays c c') (hc : Dialing c) : Dialing c' := by
  obtain ⟨ops, hperm, hops⟩ := h.started
  refine ⟨fun op hop => ?_, ?_, fun op hop hd => ?_⟩
  · rw [h.generation]
    rcases List.mem_append.1 (hperm.subset hop) with hop | hop
    · exact (hops op hop).1.le
    · exact hc.past op hop
  · have hnone : ops.filter (·.dials c.generation) = [] :=
      List.filter_eq_nil_iff.2 fun op hop => by simp [(hops op hop).2]
    rw [h.generation, (hperm.filter _).length_eq, List.filter_append, hnone]
    exact hc.single
  · rw [h.generation] at hd
    rcases List.mem_append.1 (hperm.subset hop) with hop | hop
    · rw [(hops op hop).2] at hd
      cases hd
    · exact h.connecting (hc.dialing op hop hd)

/-! ## The handlers -/

/-- Starting a read or a write. -/
theorem stays_request (c : NetworkClient) {operation : Request}
    (hg : operation.generation = c.generation) (hd : ∀ n, operation.dials n = false) :
    Stays c (c.request operation) where
  generation := rfl
  connecting := id
  disconnected := id
  started := ⟨[operation], c.io.outstanding_start operation,
    fun op hop => List.mem_singleton.1 hop ▸ ⟨hg, hd⟩⟩
  posted := ⟨[], (List.append_nil _).symm, by simp⟩

/-- The error of a handler posts a disconnect for its own generation. -/
theorem stays_fail (c : NetworkClient) : Stays c c.fail where
  generation := rfl
  connecting := id
  disconnected := id
  started := ⟨[], .of_eq (c.io.outstanding_post _), by simp⟩
  posted := ⟨[.posted (.disconnect (some c.generation))], rfl, fun cause hc => by simpa using hc⟩

/-- Writing the front of the queue. -/
theorem stays_startWrite (c : NetworkClient) : Stays c c.startWrite := by
  rw [startWrite]
  split
  · exact stays_refl c
  · exact stays_request c rfl fun _ => rfl

/-- Queueing a message, or throwing because it cannot be framed. -/
theorem ends_sendMessage (c : NetworkClient) (message : Message) :
    (c.sendMessage message).Ends (Stays c) (Stays c) := by
  rw [sendMessage]
  refine Except.ends_ite (fun _ => stays_refl c) fun _ => ?_
  refine Except.ends_ite (fun _ => stays_refl c) fun _ => ?_
  dsimp only
  have hqueued : Stays c { c with
      writeQueue := c.writeQueue ++ [⟨c.accepted.length, message⟩]
      accepted := c.accepted ++ [(c.generation, message)] } := .of_eq rfl rfl id id
  split
  · exact hqueued.trans (stays_startWrite _)
  · exact hqueued

/-- A protocol violation is an error of the handler that read it. -/
theorem stays_reject (c : NetworkClient) (report : Str) : Stays c (c.reject report) := by
  have h : Stays c { c with violations := c.violations ++ [report] } := .of_eq rfl rfl id id
  exact h.trans (stays_fail _)

/-- **One message**, read or refused. -/
theorem stays_handleMessage (c : NetworkClient) (body : Str) : Stays c (c.handleMessage body) := by
  have hpush : ∀ m, Stays c { c with incoming := c.incoming ++ [m] } := fun m =>
    .of_eq rfl rfl id id
  have hite : ∀ {p : Prop} [Decidable p] {a b : NetworkClient}, Stays c a → (¬ p → Stays c b) →
      Stays c (if p then a else b) := fun {p} _ {a b} ha hb => by
    split
    case isTrue => exact ha
    case isFalse h => exact hb h
  rw [handleMessage]
  cases Message.deserialize body with
  | error e => exact stays_fail c
  | ok m =>
    dsimp only
    cases m.type with
    | operation => exact hite (stays_reject c _) fun _ => hpush m
    | syncResponse => exact hite (stays_reject c _) fun _ => hpush m
    | cursorUpdate => exact hite (stays_reject c _) fun _ => hpush m
    | helloAck =>
      refine hite (stays_reject c _) fun hs => .of_eq rfl rfl ?_ ?_
      · rw [not_not.1 hs]
        exact nofun
      · rw [not_not.1 hs]
        exact nofun
    | hello => exact stays_reject c _
    | syncComplete => exact stays_reject c _
    | openDocument => exact stays_reject c _
    | syncRequest => exact stays_reject c _

/-- Nothing dials for a generation that has just begun. -/
theorem Past.renew (hc : Past c) {io : IoContext Request Task}
    (hio : io.outstanding ~ c.io.outstanding) :
    ∀ op ∈ io.outstanding, op.generation ≤ c.generation + 1 ∧ op.dials (c.generation + 1) = false :=
  fun op hop => by
    have hle := hc op (hio.subset hop)
    refine ⟨hle.trans (Nat.le_succ _), ?_⟩
    cases op <;> simp only [Request.dials, Request.generation, decide_eq_false_iff_not] at hle ⊢ <;>
      omega

/-- **Ending a generation** leaves nothing that dials for the next. -/
theorem Past.tearDown (hc : Past c) {c' : NetworkClient} (hg : c'.generation = c.generation + 1)
    (hio : c'.io.outstanding ~ c.io.outstanding) : Dialing c' where
  past op hop := hg ▸ (hc.renew hio op hop).1
  single := by
    rw [hg, List.filter_eq_nil_iff.2 fun op hop => by simp [(hc.renew hio op hop).2]]
    exact Nat.zero_le 1
  dialing op hop hd := by
    rw [hg, (hc.renew hio op hop).2] at hd
    cases hd

/-- Operations that end leave a client dialing as it was. -/
theorem Dialing.of_perm (hc : Dialing c) {c' : NetworkClient} (hs : c'.state = c.state)
    (hg : c'.generation = c.generation) (hperm : c'.io.outstanding ~ c.io.outstanding) :
    Dialing c' where
  past op hop := hg ▸ hc.past op (hperm.subset hop)
  single := by
    rw [hg, (hperm.filter _).length_eq]
    exact hc.single
  dialing op hop hd := hs ▸ hc.dialing op (hperm.subset hop) (hg ▸ hd)

/-- A change that posts no disconnect. -/
theorem Owns.of_eq (hc : c.Owns) {c' : NetworkClient} (hs : c'.state = c.state)
    (hg : c'.generation = c.generation)
    (hnext : nextDisconnect c'.io.ready = nextDisconnect c.io.ready) : c'.Owns := fun hs' g => by
  rw [hnext, hg]
  exact hc (hs ▸ hs') g

/-- Closing the socket fails what is in flight; its handlers are still to run. -/
theorem Dialing.closeSocket (hc : Dialing c) : Dialing c.closeSocket :=
  hc.of_perm rfl rfl (c.io.outstanding_cancel _)

/-- A connection starts. -/
theorem Dialing.open (hc : Dialing c) :
    Dialing ({ c with
      socketOpen := true
      state := .connecting
      generation := c.generation + 1 }.request (.resolve (c.generation + 1))) := by
  have hperm := c.io.outstanding_start (.resolve (c.generation + 1))
  have hrenew := hc.past.renew (.refl _)
  refine ⟨fun op hop => ?_, ?_, fun _ _ _ => rfl⟩
  · rcases List.mem_cons.1 (hperm.subset hop) with rfl | hop
    · exact le_rfl
    · exact (hrenew op hop).1
  · have hnone : c.io.outstanding.filter (Request.dials (c.generation + 1)) = [] :=
      List.filter_eq_nil_iff.2 fun op hop => by simp [(hrenew op hop).2]
    refine (hperm.filter (Request.dials (c.generation + 1))).length_eq.le.trans ?_
    rw [List.filter_cons, hnone]
    split <;> simp

/-- **A connection starts** only in a client that is disconnected, so it dials alone. -/
theorem Dialing.connectImpl (hc : Dialing c) (opened : Bool) : Dialing (c.connectImpl opened) := by
  rw [NetworkClient.connectImpl]
  split
  case isTrue => exact hc
  case isFalse =>
    have hclosed : Dialing (if c.socketOpen then c.closeSocket else c) := by
      split
      exacts [hc.closeSocket, hc]
    dsimp only
    split
    exacts [hclosed.open, hclosed]

/-- **`connect_impl`** starts a connection behind no disconnect that an error posted. -/
theorem Owns.connectImpl (hc : c.Owns) (opened : Bool)
    (h : c.state = .disconnected → (nextDisconnect c.io.ready).join = none) :
    (c.connectImpl opened).Owns := by
  rw [NetworkClient.connectImpl]
  split
  case isTrue => exact hc
  case isFalse hs =>
    have hclosed : (if c.socketOpen then c.closeSocket else c).Owns ∧
        (nextDisconnect (if c.socketOpen then c.closeSocket else c).io.ready).join = none := by
      have hcancel := nextDisconnect_cancel c.io Request.onSocket
      split
      · exact ⟨hc.of_eq rfl rfl hcancel, (congrArg Option.join hcancel).trans (h (not_not.1 hs))⟩
      · exact ⟨hc, h (not_not.1 hs)⟩
    dsimp only
    split
    case isFalse => exact hclosed.1
    case isTrue =>
      intro _ g hg
      have hnext := hclosed.2
      rw [show nextDisconnect (if c.socketOpen then c.closeSocket else c).io.ready = some (some g)
        from hg] at hnext
      cases hnext

/-- The one operation that dials starts in a connecting client. -/
theorem Dialing.dial (hc : Dialing c)
    (hnone : c.io.outstanding.filter (·.dials c.generation) = []) (hs : c.state = .connecting)
    {op : Request} (hg : op.generation ≤ c.generation) : Dialing (c.request op) := by
  have hperm := c.io.outstanding_start op
  refine ⟨fun op' hop => ?_, ?_, fun _ _ _ => hs⟩
  · rcases List.mem_cons.1 (hperm.subset hop) with rfl | hop
    · exact hg
    · exact hc.past op' hop
  · refine (hperm.filter (·.dials c.generation)).length_eq.le.trans ?_
    rw [List.filter_cons, hnone]
    split <;> simp

/-- A client that no longer dials may change its state. -/
theorem Dialing.setState (hc : Dialing c)
    (hnone : c.io.outstanding.filter (·.dials c.generation) = []) (state : NetworkClientState) :
    Dialing { c with state := state } where
  past := hc.past
  single := hc.single
  dialing op hop hd := absurd hd (List.filter_eq_nil_iff.1 hnone op hop)

/-! ## The turn of a handler -/

/-- The client once the front has left the queue. -/
def taken (c : NetworkClient) : NetworkClient := { c with io := c.io.take 0 }

/-- Taking a handler to run ends its operation at most. -/
theorem taken_sublist (c : NetworkClient) : c.taken.io.outstanding.Sublist c.io.outstanding :=
  (List.Sublist.refl _).append ((List.eraseIdx_sublist _ _).filterMap _)

/-- Then nothing new is outstanding. -/
theorem Dialing.taken (hc : Dialing c) : Dialing c.taken where
  past op hop := hc.past op (c.taken_sublist.subset hop)
  single := (c.taken_sublist.filter _).length_le.trans hc.single
  dialing op hop := hc.dialing op (c.taken_sublist.subset hop)

/-- The next disconnect stays next, unless it is the one that was taken. -/
theorem Owns.taken (hc : c.Owns) {handler : Handler Request Task}
    (hr : c.io.ready.head? = some handler)
    (hn : c.state = .disconnected ∨ ∀ cause, handler ≠ .posted (.disconnect cause)) :
    c.taken.Owns := fun hs g hg => by
  have hready : c.io.ready = handler :: c.taken.io.ready := by
    rw [NetworkClient.taken, IoContext.take, List.eraseIdx_zero]
    exact List.eq_cons_of_mem_head? hr
  refine hc hs g ?_
  rw [hready, nextDisconnect_cons (hn.resolve_left hs), hg]

/-- **The handler of the operation that dials** runs in a connecting client, and nothing else
dials. -/
theorem Dialing.sole (hc : Dialing c) {op : Request} {success : Bool}
    (hr : c.io.ready.head? = some (.completion op success)) (hd : op.dials c.generation) :
    c.state = .connecting ∧ c.taken.io.outstanding.filter (·.dials c.generation) = [] := by
  have hperm : c.io.outstanding ~ op :: c.taken.io.outstanding :=
    IoContext.outstanding_take (List.head?_eq_getElem? ▸ hr)
  refine ⟨hc.dialing op (hperm.symm.subset List.mem_cons_self) hd, ?_⟩
  have hlen : (c.taken.io.outstanding.filter (Request.dials c.generation)).length + 1 ≤ 1 := by
    rw [← List.length_cons (a := op), ← List.filter_cons_of_pos hd, ← (hperm.filter _).length_eq]
    exact hc.single
  exact List.length_eq_zero_iff.1 (Nat.le_zero.1 (Nat.le_of_succ_le_succ hlen))

/-- **What a turn does to the connection**: it stays in its generation, dials on, settles in another
state once nothing dials, or ends the generation. -/
inductive Moves (c c' : NetworkClient) : Prop
  | stays (h : Stays c c')
  | dials (op : Request) (hg : op.generation ≤ c.generation) (hs : c.state = .connecting)
    (hnone : c.io.outstanding.filter (·.dials c.generation) = []) (h : c' = c.request op)
  | settles (state : NetworkClientState) (hs : c.state = .connecting)
    (hnone : c.io.outstanding.filter (·.dials c.generation) = [])
    (h : Stays { c with state := state } c')
  | ends (hs : c'.state = .disconnected) (hg : c'.generation = c.generation + 1)
    (hio : c'.io.outstanding ~ c.io.outstanding)

/-- **A turn** leaves a client on its way. -/
theorem Moves.dialing (h : Moves c c') (hc : Dialing c) : Dialing c' := by
  cases h with
  | stays h => exact h.dialing hc
  | dials op hg hs hnone h => exact h ▸ hc.dial hnone hs hg
  | settles state hs hnone h => exact h.dialing (hc.setState hnone state)
  | ends hs hg hio => exact hc.past.tearDown hg hio

/-- And the next disconnect its own. -/
theorem Moves.owns (h : Moves c c') (hc : c.Owns) : c'.Owns := by
  cases h with
  | stays h => exact h.owns hc
  | dials op hg hs hnone h => exact h ▸ hc
  | settles state hs hnone h => exact h.owns fun _ => hc (by rw [hs]; exact nofun)
  | ends hs hg hio => exact fun h => absurd hs h

/-- An error posts a disconnect, unless the client is disconnected. -/
theorem moves_failUnlessDisconnected (c : NetworkClient) : Moves c c.failUnlessDisconnected := by
  rw [failUnlessDisconnected]
  split
  exacts [.stays (stays_fail c), .stays (stays_refl c)]

/-- **The handler of an operation that finished.** -/
theorem Dialing.complete (hc : Dialing c) {op : Request} {success : Bool}
    (hr : c.io.ready.head? = some (.completion op success)) (input : Input) :
    (c.taken.complete input op success).Ends (Moves c.taken) (Moves c.taken) := by
  have hskip : Moves c.taken c.taken := .stays (stays_refl _)
  have hfail := moves_failUnlessDisconnected c.taken
  cases op with
  | resolve g =>
    refine Except.ends_ite (fun _ => hskip) fun hg => ?_
    obtain ⟨hs, hnone⟩ := hc.sole hr (decide_eq_true (not_not.1 hg))
    refine Except.ends_ite (fun _ => ?_) fun _ => .settles .disconnected hs hnone (stays_refl _)
    exact .dials (.connect g) (not_not.1 hg).le hs hnone rfl
  | connect g =>
    refine Except.ends_ite (fun _ => hskip) fun hg => ?_
    obtain ⟨hs, hnone⟩ := hc.sole hr (decide_eq_true (not_not.1 hg))
    refine Except.ends_ite (fun _ => ?_) fun _ =>
      .ends rfl rfl (c.taken.io.outstanding_cancel _)
    refine Except.Ends.bind (P := Stays { c.taken with state := .registering })
      ((ends_sendMessage _ _).imp (fun _ h => h) fun _ h => .settles .registering hs hnone h)
      fun c' h => ?_
    exact .settles .registering hs hnone (h.trans (stays_request c' rfl fun _ => rfl))
  | readHeader g =>
    refine Except.ends_ite (fun _ => hskip) fun hg => ?_
    refine Except.ends_ite (fun _ => hfail) fun _ => ?_
    refine Except.ends_ite (fun _ => .stays (stays_fail _)) fun _ => ?_
    exact .stays (stays_request _ (not_not.1 hg) fun _ => rfl)
  | readBody g =>
    refine Except.ends_ite (fun _ => hskip) fun _ => ?_
    refine Except.ends_ite (fun _ => hfail) fun _ => ?_
    have hm := stays_handleMessage c.taken input.body
    rw [Except.ends_ok]
    split
    · exact .stays (hm.trans (stays_request _ rfl fun _ => rfl))
    · exact .stays hm
  | write g frame =>
    refine Except.ends_ite (fun _ => hskip) fun _ => ?_
    refine Except.ends_ite (fun _ => hfail) fun _ => ?_
    have hpop : Stays c.taken { c.taken with
        writeQueue := c.taken.writeQueue.tail
        written := c.taken.written ++ [(g, frame.message)] } := .of_eq rfl rfl id id
    rw [Except.ends_ok]
    split
    · exact .stays (hpop.trans (stays_startWrite _))
    · exact .stays hpop

/-- **A task other than `connect`.** -/
theorem moves_runTask (c : NetworkClient) (input : Input) {task : Task} (ht : task ≠ .connect) :
    (c.runTask input task).Ends (Moves c) (Moves c) := by
  cases task with
  | connect => exact absurd rfl ht
  | disconnect cause =>
    change Moves c c.disconnectImpl
    rw [disconnectImpl]
    split
    · exact .stays (stays_refl c)
    · exact .ends rfl rfl (c.io.outstanding_cancel _)
  | openDocument d =>
    refine Except.ends_ite (fun _ => .stays (stays_refl c)) fun hs => ?_
    refine Except.ends_ite (fun _ => .stays (stays_refl c)) fun _ => ?_
    have hsync : Stays c { c with state := .syncing } := .of_eq rfl rfl
      (by rw [not_not.1 hs]; exact nofun) (by rw [not_not.1 hs]; exact nofun)
    exact (ends_sendMessage _ _).imp (fun _ h => .stays (hsync.trans h))
      fun _ h => .stays (hsync.trans h)
  | processOutgoing =>
    rw [NetworkClient.runTask, processOutgoing]
    exact (Except.ends_foldlM (I := fun _ c' => Stays c c')
      (fun m _ c' h => (ends_sendMessage c' m).imp (fun _ hs => h.trans hs) fun _ hs => h.trans hs)
      (.of_eq rfl rfl id id : Stays c { c with outgoing := [] })).imp
        (fun _ h => .stays h) fun _ h => .stays h

/-! ## Runs -/

/-- **One event**, of the user or of the network. -/
theorem Dialing.step (hc : Dialing c) (e : Event) : Dialing (c.step e) := by
  have hpost : ∀ task, Dialing (c.post task) := fun task =>
    hc.of_perm rfl rfl (.of_eq (c.io.outstanding_post task))
  cases e with
  | connect => exact hpost .connect
  | disconnect => exact hpost (.disconnect none)
  | openDocument d => exact hpost (.openDocument d)
  | notifyOutgoing => exact hpost .processOutgoing
  | queue m => exact hc.of_perm rfl rfl (.refl _)
  | takeIncoming => exact hc.of_perm rfl rfl (.refl _)
  | finish i success => exact hc.of_perm rfl rfl (c.io.outstanding_finish i success)
  | run input =>
    rw [NetworkClient.step]
    cases hr : c.io.ready.head? with
    | none => exact hc
    | some handler =>
      dsimp only
      cases handler with
      | completion op success =>
        exact Except.Ends.state ((hc.complete hr input).imp (fun _ h => h.dialing hc.taken)
          fun _ h => h.dialing hc.taken)
      | posted task =>
        by_cases ht : task = .connect
        · subst ht
          exact hc.taken.connectImpl input.opened
        · exact Except.Ends.state ((moves_runTask c.taken input ht).imp
            (fun _ h => h.dialing hc.taken) fun _ h => h.dialing hc.taken)

/-- **One event**, if no connection starts in front of a disconnect of an older one. -/
theorem Owns.step (hc : c.Owns) (hd : Dialing c) {e : Event} (he : c.Settled e) :
    (c.step e).Owns := by
  have hpost : ∀ task, (∀ g, nextDisconnect [.posted task] ≠ some (some g)) →
      (c.post task).Owns := fun task ht hs g hg => by
    rw [post, IoContext.post, nextDisconnect_append, Option.or_eq_some_iff] at hg
    exact hg.elim (hc hs g) fun hg => absurd hg.2 (ht g)
  cases e with
  | connect => exact hpost .connect fun _ => by simp [nextDisconnect]
  | disconnect => exact hpost (.disconnect none) fun _ => by simp [nextDisconnect]
  | openDocument d => exact hpost (.openDocument d) fun _ => by simp [nextDisconnect]
  | notifyOutgoing => exact hpost .processOutgoing fun _ => by simp [nextDisconnect]
  | queue m => exact hc
  | takeIncoming => exact hc
  | finish i success => exact hc.of_eq rfl rfl (nextDisconnect_finish c.io i success)
  | run input =>
    rw [NetworkClient.step]
    cases hr : c.io.ready.head? with
    | none => exact hc
    | some handler =>
      dsimp only
      cases handler with
      | completion op success =>
        have ht : c.taken.Owns := hc.taken hr (.inr fun _ hno => by cases hno)
        exact Except.Ends.state ((hd.complete hr input).imp (fun _ h => h.owns ht)
          fun _ h => h.owns ht)
      | posted task =>
        by_cases hor : c.state = .disconnected ∨ ∀ cause, task ≠ .disconnect cause
        · have ht : c.taken.Owns := hc.taken hr (hor.imp_right fun hno cause hp =>
            hno cause (Handler.posted.inj hp))
          by_cases hconnect : task = .connect
          · subst hconnect
            refine ht.connectImpl input.opened fun hs => ?_
            have hready : c.taken.io.ready = c.io.ready.tail := by
              rw [NetworkClient.taken, IoContext.take, List.eraseIdx_zero]
            rw [hready]
            exact he hr hs
          · exact Except.Ends.state ((moves_runTask c.taken input hconnect).imp
              (fun _ h => h.owns ht) fun _ h => h.owns ht)
        · obtain ⟨hs, hdisconnect⟩ := not_or.1 hor
          obtain ⟨cause, rfl⟩ := Classical.not_forall_not.1 hdisconnect
          refine fun hno => absurd ?_ hno
          change c.taken.disconnectImpl.state = .disconnected
          rw [disconnectImpl, if_neg (show c.taken.state ≠ .disconnected from hs)]
          rfl

/-- Both together. -/
theorem Attached.step (hc : Attached c) {e : Event} (he : c.Settled e) : Attached (c.step e) :=
  ⟨hc.toDialing.step e, hc.owns.step hc.toDialing he⟩

/-- The disconnect of an old error finds the client disconnected. -/
theorem Attached.spares (hc : Attached c) (e : Event) : c.Spares e := by
  rintro input g rfl hr hlt
  have hs : c.state = .disconnected := by
    by_contra hs
    refine hlt.ne (hc.owns hs g ?_)
    rw [List.eq_cons_of_mem_head? hr]
    rfl
  rw [NetworkClient.step, hr]
  change c.taken.disconnectImpl = c.taken
  rw [disconnectImpl, if_pos (show c.taken.state = .disconnected from hs)]

/-- **Failures of an old connection leave a newer one alone**, along every run in which no connection
is started in front of a disconnect that an error posted. -/
theorem spares_along (clientId : Str) {es : List Event} (h : Along step Settled (start clientId) es) :
    Along step Spares (start clientId) es :=
  Along.of_invariant (fun _ e hc he => ⟨hc.spares e, hc.step he⟩) (attached_start clientId) h

/-- The network answers and sends `bytes`. -/
def Input.of (body : Str) : Input := ⟨true, body.length, body⟩

/-- A client connects and registers, its read fails, and it connects again once it is disconnected. -/
def reconnect : List Event :=
  let ack := (⟨.helloAck, str "server", .monostate⟩ : Message).serialize
  [.connect, .run (.of []), .finish 0 true, .run (.of []), .finish 0 true, .run (.of []),
    .finish 0 true, .run (.of []), .finish 0 true, .run (.of ack), .finish 0 true, .run (.of ack),
    .finish 0 false, .run (.of []), .disconnect, .run (.of []), .connect, .run (.of []),
    .run (.of []), .finish 0 true, .run (.of [])]

/-- The run of `reconnect`, whose disconnect of generation 1 comes after the new connection is asked
for. -/
theorem spares_along_reconnect : Along step Spares (start (str "a")) reconnect :=
  spares_along (str "a") (by decide +kernel)

/-- The read fails while a disconnect and a new connection wait: the disconnect that the failure posts
comes behind them, and tears the new connection down. -/
theorem torn_down_by_old_failure :
    ¬ ∀ es, Along step Spares (start (str "a")) es := by
  intro h
  have hrun := h [.connect, .run (.of []), .finish 0 true, .run (.of []), .finish 0 true,
    .run (.of []), .finish 1 false, .disconnect, .connect, .run (.of []), .run (.of []),
    .run (.of []), .run (.of [])]
  have hlast := hrun.2.2.2.2.2.2.2.2.2.2.2.2.1 (.of []) 1 rfl (by decide) (by decide)
  exact absurd (congrArg state hlast) (by decide)

end NetworkClient

end CrdtEditor
