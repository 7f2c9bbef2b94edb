import CrdtEditor.System.Clearance
import CrdtEditor.System.Quiet

/-!
# System/Issued — the ids on their way

A client that is started again draws its ids from 0, and a client may write what it queued long before.
`Issued` says what holds of the system all the same: what the server has recorded, what its connections
submitted and what their clients may still submit have different ids.  The steps of the clients keep it
if a client asks for a document only when no history and no `SYNC_COMPLETE` of an earlier connection
waits in its queues (`Settles`); `System/Unique` has the steps of the server and the runs.
-/

namespace CrdtEditor

open Text EditorSession ClientConnection

/-- A connection whose client is `id`, and what passed over it. -/
structure Link.Stands (l : Link) (id : Str) (n : ℕ) (c : ClientConnection) : Prop where
  read : l.read ≤ l.written.length
  wired : ∀ m ∈ l.written, m.Wired id n
  grounded : c.state ≠ .disconnected → c.Grounded id n
  enrolled : c.isRegistered → c.clientId = id
  greeted : c.state = .unregistered → c.sent = [] ∧ ∀ m ∈ l.written, m.type ≠ .openDocument
  unsynced : c.state = .registered → ∀ m ∈ c.sent, m.type ≠ .syncResponse
  sent : ∀ m ∈ c.sent, m.Passable ∧ ∀ op ∈ m.payload.operations, op.Dated [] n

/-- **What a client does with a message**, whatever its state: it queues it, or it does not. -/
theorem NetworkClient.receive_keeps (c : NetworkClient) (body : Str) :
    (c.receive body).accepted = c.accepted ∧ (c.receive body).clientId = c.clientId ∧
      (c.receive body).outgoing = c.outgoing ∧ ∀ m ∈ (c.receive body).incoming,
        m ∈ c.incoming ∨ Message.deserialize body = .ok m := by
  rw [receive]
  split
  · exact ⟨rfl, rfl, rfl, fun _ => Or.inl⟩
  rw [handleMessage]
  cases hdec : Message.deserialize body with
  | error e => exact ⟨rfl, rfl, rfl, fun _ => Or.inl⟩
  | ok message =>
    have hqueued : ∀ m ∈ c.incoming ++ [message], m ∈ c.incoming ∨
        (Except.ok message : Except Exn Message) = .ok m := fun m hm =>
      (List.mem_append.mp hm).imp (fun hm => hm) fun hm => by rw [List.mem_singleton.mp hm]
    dsimp only
    split
    case h_1 | h_2 | h_4 | h_6 =>
      split
      · exact ⟨rfl, rfl, rfl, fun _ => Or.inl⟩
      · first | exact ⟨rfl, rfl, rfl, hqueued⟩ | exact ⟨rfl, rfl, rfl, fun _ => Or.inl⟩
    all_goals exact ⟨rfl, rfl, rfl, fun _ => Or.inl⟩

namespace System

variable {sha256 : Str → Vector UInt8 32} {s t : System} {id : Str} {n n' : ℕ} {w : ConnId → Str}
  {ms : List Message}

/-- A connection once the server has read what its client wrote. -/
def foreseen (s : System) (k : ConnId) : ClientConnection :=
  ((s.links k).written.drop (s.links k).read).foldl foresee (s.server.connections k)

/-- What a client was sent on its connection, or has yet to take. -/
def received (s : System) (id : Str) : List Message :=
  (s.session id).incomingQueue ++ (s.peer id).sent

/-- **A connected client**, which may write any beginning of its queue. -/
structure Engaged (w : ConnId → Str) (s : System) (id : Str) : Prop where
  opened : s.connection id < s.opened
  owner : w (s.connection id) = id
  registered : (s.network id).state = .registered → (s.peer id).state ≠ .unregistered
  clears : (s.peer id).state ≠ .disconnected → ∀ q, q <+: (s.session id).outgoingQueue →
    s.server.Clears id (s.session id).gen.lamportClock (s.received id)
      (q.foldl foresee (s.foreseen (s.connection id)))

/-- **Where the ids are**, after `n` inserts, where `w k` opened the connection `k`. -/
structure Issued (w : ConnId → Str) (n : ℕ) (s : System) : Prop where
  registry : s.server.Registry
  fresh : ∀ k, s.opened ≤ k → s.server.connections k = .new ∧ (s.links k).written = []
  named : ∀ id, (s.network id).clientId = id
  posted : ∀ id, Posted id n (s.session id)
  line : ∀ k, newline ∉ w k
  stands : ∀ k, (s.links k).Stands (w k) n (s.server.connections k)
  recorded : ∀ d, ∀ op ∈ s.server.recorded d, op.Genuine n
  pending : ∀ id, ∀ op ∈ s.server.pending id, op.Genuine n
  unique : ∀ d, Operation.Consistent {op | op ∈ s.server.recorded d}
  fits : ∀ k, (s.server.connections k).state ≠ .disconnected → s.server.Fits (s.foreseen k)
  engaged : ∀ id, (s.network id).state.Connected → s.Engaged w id

theorem issued_start : start.Issued (fun _ => []) 0 where
  registry := Server.registry_start DocumentStore.filed_empty
  fresh _ _ := ⟨rfl, rfl⟩
  named _ := rfl
  posted := posted_start
  line _ := List.not_mem_nil
  stands _ :=
    { read := le_rfl
      wired := fun _ hm => absurd hm List.not_mem_nil
      grounded := fun _ => ⟨⟨fun _ => rfl, fun hor => by simp [start, Server.start, ClientConnection.new] at hor⟩,
        fun _ => rfl, fun _ hop => absurd hop List.not_mem_nil, fun _ ho => absurd ho List.not_mem_nil⟩
      enrolled := fun hr => by cases hr
      greeted := fun _ => ⟨rfl, fun _ hm => absurd hm List.not_mem_nil⟩
      unsynced := fun _ _ hm => absurd hm List.not_mem_nil
      sent := fun _ hm => absurd hm List.not_mem_nil }
  recorded _ _ hop := absurd hop List.not_mem_nil
  pending _ _ hop := absurd hop List.not_mem_nil
  unique _ _ _ ha := absurd ha List.not_mem_nil
  fits _ _ _ hd := by cases hd
  engaged _ hc := absurd rfl hc.1

theorem Issued.grounded (h : s.Issued w n) {k : ConnId}
    (hk : (s.server.connections k).state ≠ .disconnected) : (s.foreseen k).Grounded (w k) n :=
  ((h.stands k).grounded hk).foldl_foresee (h.line k) fun m hm =>
    (h.stands k).wired m (List.mem_of_mem_drop hm)

/-! ## A step of a client -/

/-- What is written comes last. -/
theorem foreseen_of_written {k : ConnId} (hconn : t.server.connections k = s.server.connections k)
    (hread : (t.links k).read = (s.links k).read) (hle : (s.links k).read ≤ (s.links k).written.length)
    (hwritten : (t.links k).written = (s.links k).written ++ ms) :
    t.foreseen k = ms.foldl foresee (s.foreseen k) := by
  rw [foreseen, foreseen, hconn, hread, hwritten, List.drop_append_of_le_length hle,
    List.foldl_append]

/-- **A step of one client**, which writes `ms`. -/
theorem Issued.client (h : s.Issued w n) (id : Str) (hle : n ≤ n') (hserver : t.server = s.server)
    (hopened : t.opened = s.opened) (hconnection : t.connection = s.connection)
    (hothers : ∀ k, k ≠ id → t.processes k = s.processes k)
    (hread : ∀ k, (t.links k).read = (s.links k).read)
    (hwritten : ∀ k, (t.links k).written =
      (s.links k).written ++ if k = s.connection id then ms else [])
    (hconn : ms ≠ [] → (t.network id).state.Connected) (hname : (t.network id).clientId = id)
    (hposted : Posted id n' (t.session id)) (hwired : ∀ m ∈ ms, m.Wired id n')
    (hopens : (s.peer id).state = .unregistered → ∀ m ∈ ms, m.type ≠ .openDocument)
    (hengaged : (t.network id).state.Connected → t.Engaged w id) : t.Issued w n' := by
  have hown : ∀ k, k = s.connection id → ms ≠ [] → w k = id ∧ k < s.opened := fun k hk hne => by
    have ho := hengaged (hconn hne)
    have howner := ho.owner
    have hlt := ho.opened
    rw [hconnection] at howner hlt
    rw [hopened] at hlt
    exact ⟨hk ▸ howner, hk ▸ hlt⟩
  have hforeseen : ∀ k, t.foreseen k =
      (if k = s.connection id then ms else []).foldl foresee (s.foreseen k) := fun k =>
    foreseen_of_written (by rw [hserver]) (hread k) (h.stands k).read (hwritten k)
  have hpeer : ∀ k, t.peer k = s.peer k := fun k => by rw [peer, peer, hserver, hconnection]
  refine
    { registry := hserver ▸ h.registry
      fresh := fun k hk => ?_
      named := fun k => ?_
      posted := fun k => ?_
      line := h.line
      stands := fun k => ?_
      recorded := fun d op hop => (h.recorded d op (hserver ▸ hop)).mono hle
      pending := fun k op hop => (h.pending k op (hserver ▸ hop)).mono hle
      unique := hserver ▸ h.unique
      fits := fun k hk => ?_
      engaged := fun k hk => ?_ }
  · rw [hopened] at hk
    refine ⟨hserver ▸ (h.fresh k hk).1, ?_⟩
    rw [hwritten, (h.fresh k hk).2, List.nil_append]
    split
    case isTrue he =>
      by_contra hne
      exact absurd (hown k he hne).2 (not_lt.mpr hk)
    case isFalse => rfl
  · by_cases hid : k = id
    · exact hid ▸ hname
    · rw [network, hothers k hid]
      exact h.named k
  · by_cases hid : k = id
    · exact hid ▸ hposted
    · rw [session, hothers k hid]
      exact (h.posted k).mono hle
  · have hk := h.stands k
    rw [hserver]
    refine
      { read := ?_
        wired := fun m hm => ?_
        grounded := fun hs => (hk.grounded hs).mono hle
        enrolled := hk.enrolled
        greeted := fun hs => ⟨(hk.greeted hs).1, fun m hm => ?_⟩
        unsynced := hk.unsynced
        sent := fun m hm => ⟨(hk.sent m hm).1, fun op hop => ((hk.sent m hm).2 op hop).mono hle⟩ }
    · rw [hread, hwritten, List.length_append]
      exact hk.read.trans (Nat.le_add_right _ _)
    all_goals
      rw [hwritten] at hm
      obtain hm | hm := List.mem_append.mp hm
    · exact (hk.wired m hm).mono hle
    · split at hm
      case isTrue he => exact (hown k he (List.ne_nil_of_mem hm)).1 ▸ hwired m hm
      case isFalse => cases hm
    · exact (hk.greeted hs).2 m hm
    · split at hm
      case isTrue he => exact hopens (by rw [peer, ← he]; exact hs) m hm
      case isFalse => cases hm
  · by_cases he : k = s.connection id ∧ ms ≠ []
    · obtain ⟨rfl, hne⟩ := he
      have ho := hengaged (hconn hne)
      rw [hserver] at hk
      have := (ho.clears (by rwa [hpeer]) [] List.nil_prefix).fits
      rwa [hconnection] at this
    · have hsame : t.foreseen k = s.foreseen k := by
        rw [hforeseen]
        split
        case isTrue hk =>
          have hnil : ms = [] := Classical.not_not.mp fun hne => he ⟨hk, hne⟩
          rw [hnil]
          rfl
        case isFalse => rfl
      rw [hserver] at hk ⊢
      rw [hsame]
      exact h.fits k hk
  · by_cases hid : k = id
    · exact hid ▸ hengaged (hid ▸ hk)
    · rw [network, hothers k hid] at hk
      have ho := h.engaged k hk
      have hsession : t.session k = s.session k := by rw [session, session, hothers k hid]
      have hsame : t.foreseen (s.connection k) = s.foreseen (s.connection k) := by
        rw [hforeseen]
        split
        case isTrue he =>
          have hnil : ms = [] := Classical.not_not.mp fun hne =>
            hid (ho.owner.symm.trans (hown _ he hne).1)
          rw [hnil]
          rfl
        case isFalse => rfl
      refine
        { opened := by rw [hconnection, hopened]; exact ho.opened
          owner := by rw [hconnection]; exact ho.owner
          registered := by
            rw [hpeer, network, hothers k hid]
            exact ho.registered
          clears := ?_ }
      rw [hpeer, received, hpeer, hsession, hserver, hconnection, hsame]
      exact ho.clears

/-- A beginning of what was queued and of what is queued now. -/
theorem prefix_append_cases {α : Type*} {q l l' : List α} (h : q <+: l ++ l') :
    q <+: l ∨ ∃ q', q' <+: l' ∧ q = l ++ q' := by
  obtain hq | ⟨q', rfl⟩ := List.prefix_or_prefix_of_prefix h (List.prefix_append l l')
  · exact Or.inl hq
  · exact Or.inr ⟨q', (List.prefix_append_right_inj l).mp h, rfl⟩

/-- **An input of a session.** -/
theorem Issued.act (sha256 : Str → Vector UInt8 32) (h : s.Issued w n) (action : Action)
    (hn : n + ((s.session id).inserts action.input).length < 2 ^ 64 - 1) :
    (s.step sha256 (.act id action)).Issued w (n + ((s.session id).inserts action.input).length) := by
  have hposted := h.posted id
  have hlt : (s.session id).gen.lamportClock.toNat + 1 < 2 ^ 64 := by
    have := hposted.clock
    omega
  have hroom : (s.session id).Room action.input := by
    cases action <;> first | exact fun _ => hlt | trivial
  have hreceive : ∀ m, action.input ≠ .receive m := fun m => by cases action <;> simp [Action.input]
  obtain ⟨ms, hsends, hnext⟩ := hposted.input hreceive hroom
  have hsession : (s.step sha256 (.act id action)).session id =
      ((s.session id).input action.input).state := by
    rw [System.step, session_setProcess, if_pos rfl]
  have hnetwork : (s.step sha256 (.act id action)).network id = s.network id :=
    network_seat s id _ id
  refine h.client id (Nat.le_add_right n _) rfl rfl rfl
    (fun k hk => Function.update_of_ne hk _ _) (fun _ => rfl)
    (fun k => by rw [ite_self, List.append_nil]; rfl) (fun hne => absurd rfl hne)
    (by rw [hnetwork]; exact h.named id) (hsession ▸ hnext) (fun _ hm => absurd hm List.not_mem_nil)
    (fun _ _ hm => absurd hm List.not_mem_nil) fun hc => ?_
  rw [hnetwork] at hc
  have ho := h.engaged id hc
  refine
    { opened := ho.opened
      owner := ho.owner
      registered := by rw [hnetwork]; exact ho.registered
      clears := fun hs q hq => ?_ }
  rw [received, hsession]
  rw [hsession, hsends.outgoing] at hq
  have hsub : ((s.session id).input action.input).state.incomingQueue ++ (s.peer id).sent ⊆
      s.received id := List.append_subset.mpr
    ⟨List.subset_append_of_subset_left _ hsends.incoming, List.subset_append_right _ _⟩
  suffices hall : s.server.Clears id ((s.session id).input action.input).state.gen.lamportClock
      (s.received id) (q.foldl foresee (s.foreseen (s.connection id))) from
    hall.receive fun m hm => Or.inl (hsub hm)
  obtain hq | ⟨q', hq', rfl⟩ := prefix_append_cases hq
  · exact (ho.clears hs q hq).mono hsends.clock
  · rw [List.foldl_append]
    have hid : newline ∉ id := ho.owner ▸ h.line _
    have hwired : ∀ m ∈ ms, m.Wired id _ := fun m hm => hnext.wired m (by
      rw [hsends.outgoing]
      exact List.mem_append_right _ hm)
    exact (ho.clears hs _ List.prefix_rfl).sends hid hsends hposted.site hwired (fun _ _ => hlt)
      (List.subset_append_left _ _) hq'

theorem setLink_self (s : System) (id : Str) : s.setLink (s.connection id) (s.link id) = s := by
  rw [setLink, link, Function.update_eq_self]

/-- **A handler of a network client** runs, after a message was taken off the link perhaps. -/
theorem Issued.run (h : s.Issued w n) {l : Link} (hread : l.read = (s.link id).read)
    (hwritten : l.written = (s.link id).written) {handler : NetworkClient → NetworkClient}
    (hname : (handler (s.client id)).clientId = (s.network id).clientId)
    (haccepted : (handler (s.client id)).accepted.map (·.2) =
      (s.network id).accepted.map (·.2) ++ ms)
    (hincoming : ∀ m ∈ (handler (s.client id)).incoming, m ∈ (s.session id).incomingQueue ∨
      (∃ body, Message.deserialize body = .ok m) ∧ ∀ op ∈ m.payload.operations, op.Dated id n)
    (houtgoing : (handler (s.client id)).outgoing ⊆ (s.session id).outgoingQueue)
    (hwired : ∀ m ∈ ms, m.Wired id n)
    (hopens : (s.peer id).state = .unregistered → ∀ m ∈ ms, m.type ≠ .openDocument)
    (hconn : ms ≠ [] → (handler (s.client id)).state.Connected)
    (hengaged : (handler (s.client id)).state.Connected →
      s.connection id < s.opened ∧ w (s.connection id) = id ∧
      ((handler (s.client id)).state = .registered → (s.peer id).state ≠ .unregistered) ∧
      ((s.peer id).state ≠ .disconnected → ∀ q, q <+: (handler (s.client id)).outgoing →
        s.server.Clears id (s.session id).gen.lamportClock
          ((handler (s.client id)).incoming ++ (s.peer id).sent)
          ((ms ++ q).foldl foresee (s.foreseen (s.connection id))))) :
    ((s.setLink (s.connection id) l).run id handler).Issued w n := by
  set u := s.setLink (s.connection id) l with hu
  have hnetwork : (u.run id handler).network id = handler (s.client id) := by
    rw [network_run, if_pos rfl]
    rfl
  have hsession : (u.run id handler).session id = { s.session id with
      incomingQueue := (handler (s.client id)).incoming
      outgoingQueue := (handler (s.client id)).outgoing } := by
    rw [session_run, if_pos rfl]
    rfl
  have hlink : ∀ k, (u.links k).read = (s.links k).read ∧
      (u.links k).written = (s.links k).written := fun k => by
    change (Function.update s.links (s.connection id) l k).read = _ ∧
      (Function.update s.links (s.connection id) l k).written = _
    rw [Function.update_apply]
    split
    case isTrue he => exact he ▸ ⟨hread, hwritten⟩
    case isFalse => exact ⟨rfl, rfl⟩
  have hlinks := links_run u id handler haccepted
  have hreads : ∀ k, ((u.run id handler).links k).read = (s.links k).read := fun k => by
    rw [hlinks, ← (hlink k).1]
    split <;> rfl
  have hwrites : ∀ k, ((u.run id handler).links k).written =
      (s.links k).written ++ if k = s.connection id then ms else [] := fun k => by
    rw [hlinks, ← (hlink k).2]
    change Link.written (if k = s.connection id then _ else _) = _
    split
    case isTrue => rfl
    case isFalse => rw [List.append_nil]
  refine h.client id le_rfl rfl rfl rfl (fun k hk => Function.update_of_ne hk _ _) hreads hwrites
    (hnetwork ▸ hconn) (by rw [hnetwork, hname, h.named]) ?_ hwired hopens fun hc => ?_
  · rw [hsession]
    exact (h.posted id).exchange houtgoing hincoming
  · rw [hnetwork] at hc
    obtain ⟨hlt, howner, hregistered, hclears⟩ := hengaged hc
    refine ⟨hlt, howner, by rw [hnetwork]; exact hregistered, fun hs q hq => ?_⟩
    rw [received, hsession]
    rw [hsession] at hq
    have hforeseen : (u.run id handler).foreseen (s.connection id) =
        ms.foldl foresee (s.foreseen (s.connection id)) :=
      foreseen_of_written rfl (hreads _) (h.stands _).read (by rw [hwrites, if_pos rfl])
    have := hclears hs q hq
    rwa [List.foldl_append, ← hforeseen] at this

/-- A handler that writes nothing, and leaves the connection or the queue. -/
theorem Issued.idle (h : s.Issued w n) {handler : NetworkClient → NetworkClient}
    {state : NetworkClientState} {c : NetworkClient}
    (hw : NetworkClient.Writes c state [] (handler (s.client id)))
    (hid : c.clientId = (s.network id).clientId) (haccepted : c.accepted = (s.network id).accepted)
    (hincoming : c.incoming = (s.session id).incomingQueue)
    (houtgoing : c.outgoing ⊆ (s.session id).outgoingQueue)
    (hstate : state.Connected →
      state = (s.network id).state ∧ c.outgoing = (s.session id).outgoingQueue) :
    (s.run id handler).Issued w n := by
  rw [← setLink_self s id]
  refine h.run rfl rfl (hw.clientId.trans hid) (by rw [hw.accepted, haccepted])
    (fun m hm => Or.inl (by rwa [hw.incoming, hincoming] at hm)) (by rwa [hw.outgoing])
    (fun _ hm => absurd hm List.not_mem_nil) (fun _ _ hm => absurd hm List.not_mem_nil)
    (fun hne => absurd rfl hne) fun hc => ?_
  rw [hw.state] at hc ⊢
  obtain ⟨hs, ho⟩ := hstate hc
  have hengaged := h.engaged id (hs ▸ hc)
  refine ⟨hengaged.opened, hengaged.owner, fun hr => hengaged.registered (hs ▸ hr), ?_⟩
  rw [hw.incoming, hincoming, hw.outgoing, ho]
  exact hengaged.clears

theorem Issued.connectImpl (h : s.Issued w n) (opened : Bool) :
    (s.run id (·.connectImpl opened)).Issued w n := by
  refine h.idle (NetworkClient.writes_connectImpl (s.client id) opened) rfl rfl rfl
    (List.Subset.refl _) fun hc => ⟨?_, rfl⟩
  split at hc
  · exact absurd rfl hc.2
  case isFalse hne =>
    rw [if_neg hne]
    rfl

theorem Issued.disconnectImpl (h : s.Issued w n) :
    (s.run id NetworkClient.disconnectImpl).Issued w n :=
  h.idle (NetworkClient.writes_disconnectImpl (s.client id)) rfl rfl rfl (List.Subset.refl _)
    fun hc => absurd rfl hc.1

/-- **`process_outgoing`** writes a beginning of the queue. -/
theorem Issued.processOutgoing (h : s.Issued w n) :
    (s.run id fun c => c.processOutgoing.state).Issued w n := by
  have hw := NetworkClient.writes_processOutgoing (s.client id)
  by_cases hconn : (s.client id).state.Connected
  · rw [if_pos hconn] at hw
    have ho := h.engaged id hconn
    have hbegins : (s.client id).outgoing.takeWhile (·.Framable) <+: (s.session id).outgoingQueue :=
      List.takeWhile_prefix _
    have hwired := (h.posted id).wired
    have hqueued : ∀ m ∈ (s.session id).outgoingQueue, m.type ≠ .openDocument := fun m hm ht => by
      obtain ⟨_, htype, -⟩ | ⟨htype | htype, -⟩ := ((h.posted id).sender m hm).2 <;>
        cases ht.symm.trans htype
    rw [← setLink_self s id]
    refine h.run rfl rfl hw.clientId hw.accepted (fun m hm => Or.inl (by rwa [hw.incoming] at hm))
      (by rw [hw.outgoing]; exact List.nil_subset _) (fun m hm => hwired m (hbegins.subset hm))
      (fun _ m hm => hqueued m (hbegins.subset hm)) (fun _ => by rw [hw.state]; exact hconn)
      fun hc => ⟨ho.opened, ho.owner, by rw [hw.state]; exact ho.registered, fun hs q hq => ?_⟩
    rw [hw.outgoing] at hq
    rw [List.prefix_nil.mp hq, List.append_nil, hw.incoming]
    exact ho.clears hs _ hbegins
  · rw [if_neg hconn] at hw
    exact h.idle hw rfl rfl rfl (List.nil_subset _) fun hc => absurd hc hconn

/-- What is asked of an event.  A client asks for a document when no history and no `SYNC_COMPLETE` of
an earlier connection is left in its queues. -/
def Settles (s : System) : Event → Prop
  | .connected id => newline ∉ id
  | .openDocument id _ => (s.network id).state = .registered →
      (∀ m ∈ (s.session id).incomingQueue, m.type ≠ .syncResponse) ∧
        ∀ m ∈ (s.session id).outgoingQueue, m.type ≠ .syncComplete
  | _ => True

instance Settles.decidable (s : System) : DecidablePred s.Settles
  | .connected _ => inferInstanceAs (Decidable (_ ∉ _))
  | .openDocument .. => inferInstanceAs (Decidable (_ → (∀ m ∈ _, _) ∧ ∀ m ∈ _, _))
  | .act .. => .isTrue trivial
  | .connect .. => .isTrue trivial
  | .disconnect _ => .isTrue trivial
  | .processOutgoing _ => .isTrue trivial
  | .deliver _ => .isTrue trivial
  | .read .. => .isTrue trivial
  | .close _ => .isTrue trivial
  | .launch _ => .isTrue trivial

/-- **`send_open_document_impl`.** -/
theorem Issued.openDocumentImpl (h : s.Issued w n) {documentId : DocumentID}
    (he : s.Settles (.openDocument id documentId)) :
    (s.run id fun c => (c.openDocumentImpl documentId).state).Issued w n := by
  have hw := NetworkClient.writes_openDocumentImpl (s.client id) documentId
  by_cases hs : (s.client id).state = .registered ∧ documentId ≠ []
  · have hregistered : (s.network id).state = .registered := hs.1
    obtain ⟨hincoming, houtgoing⟩ := he hregistered
    have ho := h.engaged id (by rw [hregistered]; decide)
    have hpeer := ho.registered hregistered
    rw [if_pos hs] at hw
    have hwired : ∀ q, q <+: (s.session id).outgoingQueue →
        ∀ m ∈ q, m.Wired id n ∧ m.Queued ∧ m.type ≠ .syncComplete := fun q hq m hm =>
      ⟨(h.posted id).wired m (hq.subset hm), ((h.posted id).sender m (hq.subset hm)).2,
        houtgoing m (hq.subset hm)⟩
    have hopen : Message.Wired id n ⟨.openDocument, (s.client id).clientId, .openDocument documentId⟩ :=
      { sender := h.named id
        type := Or.inr ⟨Or.inr rfl, rfl⟩
        dated := fun _ hop => absurd hop List.not_mem_nil
        own := fun _ ho => absurd ho List.not_mem_nil }
    rw [← setLink_self s id]
    refine h.run rfl rfl hw.clientId hw.accepted (fun m hm => Or.inl (by rwa [hw.incoming] at hm))
      (by rw [hw.outgoing]; exact List.Subset.refl _) (fun m hm => ?_) (fun hu => absurd hu hpeer)
      (fun _ => by rw [hw.state]; decide) fun _ => ⟨ho.opened, ho.owner, fun hr => ?_, fun hlive q hq => ?_⟩
    · split at hm
      · exact List.mem_singleton.mp hm ▸ hopen
      · cases hm
    · rw [hw.state] at hr
      cases hr
    · rw [hw.outgoing] at hq
      rw [hw.incoming]
      split
      case isFalse => exact ho.clears hlive q hq
      case isTrue =>
        have hgrounded := h.grounded hlive
        rw [ho.owner] at hgrounded
        refine (ho.clears hlive [] List.nil_prefix).opens hgrounded (ho.owner ▸ h.line _) rfl
          (hwired q hq) (fun hr m hm => ?_) h.unique
        obtain hm | hm := List.mem_append.mp hm
        · exact hincoming m hm
        · -- the server has not read the `OPEN_DOCUMENT`
          have hrank := rank_le_foldl (s.peer id) ((s.link id).written.drop (s.link id).read)
          have hforeseen : ((s.foreseen (s.connection id)).state).rank = 1 := by
            rw [show (s.foreseen (s.connection id)).state = _ from hr]
            rfl
          refine (h.stands (s.connection id)).unsynced ?_ m hm
          change (s.peer id).state.rank ≤ (s.foreseen (s.connection id)).state.rank at hrank
          rw [hforeseen] at hrank
          change (s.peer id).state = _
          cases hp : (s.peer id).state <;> rw [hp] at hrank hpeer <;>
            first | rfl | exact absurd rfl hpeer | simp [ClientState.rank] at hrank
  · have hno : ¬ ((s.client id).state = .registered ∧ documentId ≠ [] ∧
        (⟨.openDocument, (s.client id).clientId, .openDocument documentId⟩ : Message).Framable) :=
      fun hno => hs ⟨hno.1, hno.2.1⟩
    rw [if_neg hs, if_neg hno] at hw
    exact h.idle hw rfl rfl rfl (List.Subset.refl _) fun _ => ⟨rfl, rfl⟩

/-- **The next message of the server.** -/
theorem Issued.deliver (h : s.Issued w n) (id : Str) : (s.deliver id).Issued w n := by
  rw [System.deliver]
  split
  case isFalse => exact h
  case isTrue hconn =>
    split
    case h_2 => exact h
    case h_1 message hm =>
      have hmem : message ∈ (s.peer id).sent := List.mem_of_getElem? hm
      obtain ⟨hpassable, hdated⟩ := (h.stands (s.connection id)).sent message hmem
      have hpeer : (s.peer id).state ≠ .unregistered := fun hu =>
        List.ne_nil_of_mem hmem ((h.stands (s.connection id)).greeted hu).1
      obtain ⟨haccepted, hclient, houtgoing, hmessages⟩ :=
        (s.client id).receive_keeps message.serialize
      have ho := h.engaged id hconn
      refine h.run (l := { s.link id with delivered := (s.link id).delivered + 1 }) rfl rfl hclient
        (by rw [haccepted, List.append_nil]; rfl) (fun m hm => ?_) (houtgoing ▸ List.Subset.refl _)
        (fun _ hm => absurd hm List.not_mem_nil) (fun _ _ hm => absurd hm List.not_mem_nil)
        (fun hne => absurd rfl hne)
        fun hc => ⟨ho.opened, ho.owner, fun _ => hpeer, fun hs q hq => ?_⟩
      · refine (hmessages m hm).imp (fun hm => hm) fun hdec => ⟨⟨_, hdec⟩, fun op hop => ?_⟩
        rw [(hpassable.read hdec).2.2] at hop
        exact (hdated op hop).of_nil id
      · rw [houtgoing] at hq
        refine (ho.clears hs q hq).receive fun m hm => ?_
        obtain hm | hm := List.mem_append.mp hm
        · obtain hm | hdec := hmessages m hm
          · exact Or.inl (List.mem_append_left _ hm)
          · refine Or.inr fun hsyncing htype oper hholds => ?_
            rw [(hpassable.read hdec).2.2]
            exact (ho.clears hs q hq).covered hsyncing message (List.mem_append_right _ hmem)
              ((Message.type_of_deserialize_serialize hdec).symm.trans htype) oper hholds
        · exact Or.inl (List.mem_append_right _ hm)

/-- A client without a connection is given one. -/
theorem Issued.assign (h : s.Issued w n) (hid : newline ∉ id)
    (hs : ¬ (s.network id).state.Connected) :
    ({ s with
      connection := Function.update s.connection id s.opened
      opened := s.opened + 1 } : System).Issued (Function.update w s.opened id) n := by
  set u : System := { s with
    connection := Function.update s.connection id s.opened
    opened := s.opened + 1 } with hu
  have hw : ∀ k, k ≠ s.opened → Function.update w s.opened id k = w k := fun k hk =>
    Function.update_of_ne hk _ _
  obtain ⟨hnew, hnone⟩ := h.fresh s.opened le_rfl
  refine
    { registry := h.registry
      fresh := fun k hk => h.fresh k (Nat.le_of_succ_le hk)
      named := h.named
      posted := h.posted
      line := fun k => ?_
      stands := fun k => ?_
      recorded := h.recorded
      pending := h.pending
      unique := h.unique
      fits := h.fits
      engaged := fun k hk => ?_ }
  · by_cases he : k = s.opened
    · rw [he, Function.update_self]
      exact hid
    · rw [hw k he]
      exact h.line k
  · by_cases he : k = s.opened
    · subst he
      have hopened := h.stands s.opened
      rw [Function.update_self]
      exact
        { hopened with
          wired := fun m hm => by
            rw [show (u.links s.opened).written = [] from hnone] at hm
            cases hm
          grounded := fun hs =>
            { hopened.grounded hs with
              own := fun oper ho => by
                rw [show u.server.connections s.opened = .new from hnew] at ho
                cases ho }
          enrolled := fun hr => by
            rw [show u.server.connections s.opened = .new from hnew] at hr
            cases hr }
    · rw [hw k he]
      exact h.stands k
  · have hne : k ≠ id := fun he => hs (he ▸ hk)
    have ho := h.engaged k hk
    have hconnection : u.connection k = s.connection k := Function.update_of_ne hne _ _
    have hpeer : u.peer k = s.peer k := by rw [peer, peer, hconnection]
    refine
      { opened := by rw [hconnection]; exact Nat.lt_succ_of_lt ho.opened
        owner := by rw [hconnection, hw _ (Nat.ne_of_lt ho.opened)]; exact ho.owner
        registered := by rw [hpeer]; exact ho.registered
        clears := ?_ }
    rw [hpeer, received, hpeer, hconnection]
    exact ho.clears

/-- **A new connection.** -/
theorem Issued.establish (h : s.Issued w n) (hid : newline ∉ id) :
    ∃ w', (s.establish id).Issued w' n := by
  rw [System.establish]
  split
  case isFalse => exact ⟨w, h⟩
  case isTrue hs =>
    refine ⟨Function.update w s.opened id, ?_⟩
    obtain ⟨hnew, hnone⟩ := h.fresh s.opened le_rfl
    have hassigned := h.assign hid fun hc => hc.2 hs
    set u : System := { s with
      connection := Function.update s.connection id s.opened
      opened := s.opened + 1 } with hu
    have hconnection : u.connection id = s.opened := Function.update_self ..
    have hw := NetworkClient.writes_connected (u.client id)
    have hhello : Message.Wired id n (NetworkClient.hello (u.client id).clientId) :=
      { sender := h.named id
        type := Or.inr ⟨Or.inl rfl, rfl⟩
        dated := fun _ hop => absurd hop List.not_mem_nil
        own := fun _ ho => absurd ho List.not_mem_nil }
    rw [← setLink_self u id]
    refine hassigned.run rfl rfl hw.clientId hw.accepted
      (fun m hm => Or.inl (by rwa [hw.incoming] at hm)) (by rw [hw.outgoing]; exact List.Subset.refl _)
      (fun m hm => ?_) (fun _ m hm ht => ?_) (fun _ => by rw [hw.state]; decide)
      fun _ => ⟨?_, ?_, fun hr => ?_, fun _ q hq => ?_⟩
    · split at hm
      · exact List.mem_singleton.mp hm ▸ hhello
      · cases hm
    · split at hm
      · rw [List.mem_singleton.mp hm] at ht
        cases ht
      · cases hm
    · rw [hconnection]
      exact Nat.lt_succ_self _
    · rw [hconnection, Function.update_self]
    · rw [hw.state] at hr
      cases hr
    · rw [hw.outgoing] at hq
      -- the connection is new, and nothing asks for a document
      have hforeseen : u.foreseen (u.connection id) = .new := by
        rw [hconnection, foreseen, show (u.links s.opened).written = [] from hnone, List.drop_nil]
        exact hnew
      rw [hforeseen]
      have hgrounded : ClientConnection.new.Grounded id n := by
        have hlive : (u.server.connections (u.connection id)).state ≠ .disconnected := by
          rw [hconnection, show u.server.connections s.opened = .new from hnew]
          decide
        have := hassigned.grounded hlive
        rwa [hforeseen, hconnection, Function.update_self] at this
      have hmessages : ∀ m ∈ (if (NetworkClient.hello (u.client id).clientId).Framable then
          [NetworkClient.hello (u.client id).clientId] else []) ++ q,
          m.Wired id n ∧ m.type ≠ .openDocument := fun m hm => by
        obtain hm | hm := List.mem_append.mp hm
        · split at hm
          · exact List.mem_singleton.mp hm ▸ ⟨hhello, fun ht => by cases ht⟩
          · cases hm
        · have hmem : m ∈ (s.session id).outgoingQueue := hq.subset hm
          refine ⟨(h.posted id).wired m hmem, fun ht => ?_⟩
          obtain ⟨_, htype, -⟩ | ⟨htype | htype, -⟩ := ((h.posted id).sender m hmem).2 <;>
            cases ht.symm.trans htype
      have hnodoc := unopened_foldl (c := .new) rfl fun m hm => (hmessages m hm).2
      exact Server.clears_of_unopened hnodoc
        ((hgrounded.foldl_foresee hid fun m hm => (hmessages m hm).1).unopened hnodoc)

theorem Issued.launch (h : s.Issued w n) : (s.setProcess id (.start id)).Issued w n := by
  have hprocess : (s.setProcess id (.start id)).processes id = .start id := Function.update_self ..
  have hno : ¬ ((s.setProcess id (.start id)).network id).state.Connected := fun hc => by
    rw [network, hprocess] at hc
    exact hc.1 rfl
  refine h.client id le_rfl rfl rfl rfl (fun k hk => Function.update_of_ne hk _ _) (fun _ => rfl)
    (fun k => by rw [ite_self, List.append_nil]; rfl) (fun hne => absurd rfl hne) ?_ ?_
    (fun _ hm => absurd hm List.not_mem_nil) (fun _ _ hm => absurd hm List.not_mem_nil)
    fun hc => absurd hc hno
  · rw [network, hprocess]
    rfl
  · rw [session, hprocess]
    exact (posted_start id).mono (Nat.zero_le n)

end System

end CrdtEditor
