import CrdtEditor.System.Issued

/-!
# System/Unique — no id is recorded twice

No two inserts of a document are recorded under one id, in every run where a client asks for a document
only when nothing of an earlier synchronization waits in its queues (`unique_along`).  The server refuses
an operation before the `SYNC_COMPLETE` of its connection, and that is queued only once the clock has
passed the history of the document (`Server.Clears`).

Left in the queue, a history of another document lets a client go live with a clock that is behind
(`repeated_after_leftover`).
-/

namespace CrdtEditor

open Text EditorSession ClientConnection

namespace System

variable {sha256 : Str → Vector UInt8 32} {s t : System} {id : Str} {n n' : ℕ} {w : ConnId → Str}
  {ms : List Message}

/-! ## A step of the server -/

/-- **A step of the server**: a connection that it does not end is what was foreseen. -/
theorem Issued.serve (h : s.Issued w n) {server : Server} {links : ConnId → Link}
    (hregistry : server.Registry) (hwritten : ∀ k, (links k).written = (s.links k).written)
    (hfresh : ∀ k, s.opened ≤ k → server.connections k = .new)
    (hstands : ∀ k, (links k).Stands (w k) n (server.connections k))
    (hrecorded : ∀ d, ∀ op ∈ server.recorded d, op.Genuine n)
    (hpending : ∀ id, ∀ op ∈ server.pending id, op.Genuine n)
    (hunique : ∀ d, Operation.Consistent {op | op ∈ server.recorded d})
    (hlive : ∀ k, (server.connections k).state ≠ .disconnected →
      (s.server.connections k).state ≠ .disconnected ∧
        ((server.connections k).state = .unregistered → (s.server.connections k).state = .unregistered) ∧
        ({ s with server := server, links := links } : System).foreseen k =
          { s.foreseen k with sent := (server.connections k).sent })
    (hwidens : ∀ k, (server.connections k).state ≠ .disconnected → ∀ q : List Message,
      (∀ m ∈ q, m.type ≠ .openDocument) →
        s.server.Widens (w k) (q.foldl foresee (s.foreseen k)) server)
    (hsent : ∀ k, (server.connections k).state ≠ .disconnected → ∀ q : List Message,
      ∀ m ∈ (server.connections k).sent, m ∈ (s.server.connections k).sent ∨
        (m.type = .syncResponse → ∀ oper, server.Holds (q.foldl foresee (s.foreseen k)) (w k) oper →
          .insert oper ∈ m.payload.operations)) :
    ({ s with server := server, links := links } : System).Issued w n := by
  set t : System := { s with server := server, links := links } with ht
  have hfold : ∀ k, (server.connections k).state ≠ .disconnected → ∀ q : List Message,
      q.foldl foresee (t.foreseen k) =
        { q.foldl foresee (s.foreseen k) with sent := (server.connections k).sent } :=
    fun k hk q => by rw [(hlive k hk).2.2, foldl_foresee_sent]
  have hgrounded : ∀ k, (server.connections k).state ≠ .disconnected → ∀ q : List Message,
      (∀ m ∈ q, m.Wired (w k) n) → (q.foldl foresee (s.foreseen k)).Grounded (w k) n :=
    fun k hk q hq => (h.grounded (hlive k hk).1).foldl_foresee (h.line k) hq
  refine
    { registry := hregistry
      fresh := fun k hk => ⟨hfresh k hk, (hwritten k).trans (h.fresh k hk).2⟩
      named := h.named
      posted := h.posted
      line := h.line
      stands := hstands
      recorded := hrecorded
      pending := hpending
      unique := hunique
      fits := fun k hk => ?_
      engaged := fun id hid => ?_ }
  · rw [show t.foreseen k = _ from hfold k hk []]
    exact (h.fits k (hlive k hk).1).widen (hgrounded k hk [] fun _ hm => absurd hm List.not_mem_nil)
      (hwidens k hk [] fun _ hm => absurd hm List.not_mem_nil)
  · have ho := h.engaged id hid
    refine ⟨ho.opened, ho.owner, fun hr hu => ?_, fun hs q hq => ?_⟩
    · have hne : (server.connections (s.connection id)).state ≠ .disconnected := fun hd => by
        cases hd.symm.trans hu
      exact ho.registered hr ((hlive _ hne).2.1 hu)
    · have hposted := h.posted id
      have hqueued : ∀ m ∈ q, m.type ≠ .openDocument := fun m hm hopen => by
        obtain ⟨_, htype, -⟩ | ⟨htype | htype, -⟩ := (hposted.sender m (hq.subset hm)).2 <;>
          cases hopen.symm.trans htype
      rw [show q.foldl foresee (t.foreseen (t.connection id)) = _ from hfold _ hs q]
      have hclears := (ho.clears (hlive _ hs).1 q hq).widen (t := server) (n := n)
        (by
          have := hgrounded _ hs q fun m hm => ho.owner.symm ▸ hposted.wired m (hq.subset hm)
          rwa [ho.owner] at this)
        (by
          have := hwidens _ hs q hqueued
          rwa [ho.owner] at this)
      have hreceived : server.Clears id (s.session id).gen.lamportClock (t.received id)
          (q.foldl foresee (s.foreseen (s.connection id))) := hclears.receive fun m hm => by
        obtain hm | hm := List.mem_append.mp hm
        · exact Or.inl (List.mem_append_left _ hm)
        · refine (hsent _ hs q m hm).imp (fun hm => List.mem_append_right _ hm) fun hall _ => ?_
          rwa [ho.owner] at hall
      exact ⟨hreceived.fits, hreceived.submitted, hreceived.passed, hreceived.covered⟩

/-- The end of a connection at the server. -/
theorem Issued.close (h : s.Issued w n) {conn : ConnId} (hopen : conn < s.opened) :
    ({ s with server := s.server.disconnect conn } : System).Issued w n := by
  have hdrops := h.registry.disconnect conn
  have hrecorded : ∀ d, (s.server.disconnect conn).recorded d = s.server.recorded d := fun d => by
    rw [Server.recorded, Server.recorded, hdrops.store]
  have hkeeps : ∀ k, ((s.server.disconnect conn).connections k).state ≠ .disconnected →
      (s.server.disconnect conn).connections k = s.server.connections k := fun k hk => by
    rw [hdrops.connections] at hk ⊢
    split at hk
    case isTrue => exact absurd rfl hk
    case isFalse hne => rw [if_neg hne]
  refine h.serve hdrops.registry (fun _ => rfl) (fun k hk => ?_) (fun k => ?_)
    (fun d op hop => h.recorded d op (hrecorded d ▸ hop))
    (fun id op hop => h.pending id op (hdrops.pending id op hop)) (fun d => hrecorded d ▸ h.unique d)
    (fun k hk => ?_) (fun k hk q hq d hd => ⟨hrecorded d ▸ h.unique d, fun oper ho => Or.inl (hrecorded d ▸ ho)⟩)
    fun k hk q m hm => Or.inl (hkeeps k hk ▸ hm)
  · have hne : k ≠ conn := fun he => absurd hopen (not_lt.mpr (he ▸ hk))
    rw [hdrops.connections, if_neg hne]
    exact (h.fresh k hk).1
  · rw [hdrops.connections]
    split
    case isFalse => exact h.stands k
    case isTrue he =>
      subst he
      exact
        { h.stands k with
          grounded := fun hs => absurd rfl hs
          enrolled := fun hr => by cases hr
          greeted := fun hs => by cases hs
          unsynced := fun hs => by cases hs }
  · have hsame := hkeeps k hk
    refine ⟨hsame ▸ hk, fun hu => hsame ▸ hu, ?_⟩
    rw [foreseen, hsame]
    exact (foldl_foresee_sent _ _ _).symm ▸ rfl

/-! ### A message is read -/

section Read

variable {conn : ConnId} {m : Message} {server : Server}

/-- The links once the server has read a message of `conn`. -/
def advance (s : System) (conn : ConnId) : ConnId → Link :=
  Function.update s.links conn { s.links conn with read := (s.links conn).read + 1 }

theorem advance_written (s : System) (conn k : ConnId) :
    (s.advance conn k).written = (s.links k).written := by
  rw [advance, Function.update_apply]
  split
  case isTrue he => rw [he]
  case isFalse => rfl

theorem drop_read (hm : (s.links conn).written[(s.links conn).read]? = some m) :
    (s.links conn).written.drop (s.links conn).read =
      m :: (s.links conn).written.drop ((s.links conn).read + 1) := by
  obtain ⟨hlt, rfl⟩ := List.getElem?_eq_some_iff.mp hm
  exact List.drop_eq_getElem_cons hlt

/-- **What was foreseen is foreseen still.** -/
theorem foreseen_read (hm : (s.links conn).written[(s.links conn).read]? = some m)
    (hs : (s.server.connections conn).state ≠ .disconnected)
    (hout : s.server.Outcome conn m.serialize server) {k : ConnId}
    (hk : (server.connections k).state ≠ .disconnected) :
    (s.server.connections k).state ≠ .disconnected ∧
      ((server.connections k).state = .unregistered → (s.server.connections k).state = .unregistered) ∧
      ({ s with server := server, links := s.advance conn } : System).foreseen k =
        { s.foreseen k with sent := (server.connections k).sent } := by
  obtain ⟨ms, hc⟩ := hout.foresee hk
  rw [foreseen, foreseen]
  change _ ∧ _ ∧ (((s.advance conn k).written.drop (s.advance conn k).read).foldl foresee
    (server.connections k)) = _
  rw [advance_written, hc, foldl_foresee_sent]
  by_cases he : k = conn
  · subst he
    simp only [if_true]
    refine ⟨hs, fun hu => absurd hu ((s.server.connections k).foresees m).state_ne, ?_⟩
    rw [drop_read hm, List.foldl_cons, advance, Function.update_self]
  · simp only [if_neg he]
    refine ⟨fun hd => ?_, fun hu => hu, ?_⟩
    · rw [hc, if_neg he] at hk
      exact hk hd
    · rw [advance, Function.update_of_ne he]

/-- What the server sends names genuine operations. -/
theorem Issued.reply (h : s.Issued w n) {c : ClientConnection} {message : Message}
    (hreply : s.server.Reply c message ms) :
    ∀ r ∈ ms, r.Passable ∧ ∀ op ∈ r.payload.operations, op.Dated [] n := by
  intro r hr
  have hserver : newline ∉ str "server" := by decide
  rw [Server.Reply] at hreply
  cases ht : message.type with
  | hello =>
    rw [ht] at hreply
    rw [hreply] at hr
    rw [List.mem_singleton.mp hr]
    exact ⟨Or.inl ⟨hserver, trivial⟩, fun _ hop => absurd hop List.not_mem_nil⟩
  | openDocument =>
    rw [ht] at hreply
    obtain ⟨d, history, -, rfl, hperm⟩ := hreply
    rw [List.mem_singleton.mp hr]
    have hgenuine : ∀ op ∈ history, op.Genuine n := fun op hop => h.recorded d op (hperm.subset hop)
    exact ⟨Or.inl ⟨hserver, fun op hop => ⟨(hgenuine op hop).dated.line List.not_mem_nil,
      (hgenuine op hop).bar⟩⟩, fun op hop => (hgenuine op hop).dated⟩
  | syncComplete =>
    rw [ht] at hreply
    obtain ⟨op, hop, rfl⟩ | ⟨id, position, -, -, rfl⟩ := hreply r hr
    · have hgenuine := h.pending _ op hop
      exact ⟨Or.inl ⟨hserver, hgenuine.dated.line List.not_mem_nil, hgenuine.bar⟩,
        fun op' hop' => List.mem_singleton.mp hop' ▸ hgenuine.dated⟩
    · exact ⟨Or.inr ⟨rfl, rfl⟩, fun _ hop => absurd hop List.not_mem_nil⟩
  | helloAck | operation | syncRequest | syncResponse | cursorUpdate =>
    rw [ht] at hreply
    rw [hreply] at hr
    cases hr

theorem Issued.sent_read (h : s.Issued w n) (hm : m ∈ (s.links conn).written)
    (hout : s.server.Outcome conn m.serialize server) (k : ConnId) :
    ∀ r ∈ (server.connections k).sent, r.Passable ∧ ∀ op ∈ r.payload.operations, op.Dated [] n := by
  intro r hr
  obtain ⟨ms, hsent, hms⟩ := hout.sent k
  rw [hsent] at hr
  obtain hr | hr := List.mem_append.mp hr
  · exact (h.stands k).sent r hr
  obtain ⟨message, hdec, -, ⟨rfl, htype | htype⟩ | ⟨ms', hreply, hr⟩⟩ := hms r hr
  · have hwired := (h.stands conn).wired m hm
    obtain ⟨op, hp, -⟩ := Message.operation_of_deserialize hdec htype
    obtain ⟨rfl, hgenuine, -⟩ := hwired.read (h.line conn) hdec htype hp
    obtain ⟨type, sender, payload⟩ := r
    subst htype hp
    exact ⟨Or.inl ⟨hwired.sender ▸ h.line conn, hgenuine.dated.line List.not_mem_nil, hgenuine.bar⟩,
      fun op' hop' => List.mem_singleton.mp hop' ▸ hgenuine.dated⟩
  · have hnone : r.payload.operations = [] := List.eq_nil_iff_forall_not_mem.mpr fun op hop => by
      obtain ht | ht := Message.type_of_mem_operations hdec hop <;> cases htype.symm.trans ht
    exact ⟨Or.inr ⟨htype, hnone⟩, by simp [hnone]⟩
  · exact h.reply hreply r hr

/-- A client without a reply was sent nothing. -/
theorem Issued.stands_read (h : s.Issued w n)
    (hm : (s.links conn).written[(s.links conn).read]? = some m)
    (hs : (s.server.connections conn).state ≠ .disconnected)
    (hout : s.server.Outcome conn m.serialize server) (k : ConnId) :
    (s.advance conn k).Stands (w k) n (server.connections k) := by
  have hk := h.stands k
  have hmem := List.mem_of_getElem? hm
  have hwired := (h.stands conn).wired m hmem
  have hforesees := (s.server.connections conn).foresees m
  have hstate : ∀ {state}, (server.connections k).state = state → state ≠ .disconnected →
      k ≠ conn ∧ (s.server.connections k).state = state ∨
        k = conn ∧ ((s.server.connections conn).foresee m).state = state := fun he hne => by
    obtain ⟨ms, hc⟩ := hout.foresee (k := k) (he ▸ hne)
    rw [hc] at he
    by_cases heq : k = conn
    · subst heq
      rw [if_pos rfl] at he
      exact Or.inr ⟨rfl, he⟩
    · rw [if_neg heq] at he
      exact Or.inl ⟨heq, he⟩
  refine
    { read := ?_
      wired := by rw [advance_written]; exact hk.wired
      grounded := fun hne => ?_
      enrolled := fun hr => ?_
      greeted := fun hu => ?_
      unsynced := fun hr r hrmem htype => ?_
      sent := h.sent_read hmem hout k }
  · rw [advance_written, advance, Function.update_apply]
    split
    case isTrue he => exact he ▸ (List.getElem?_eq_some_iff.mp hm).1
    case isFalse => exact hk.read
  · obtain ⟨ms, hc⟩ := hout.foresee hne
    have hgrounded : (if k = conn then (s.server.connections k).foresee m
        else s.server.connections k).Grounded (w k) n := by
      by_cases he : k = conn
      · subst he
        rw [if_pos rfl]
        exact (hk.grounded hs).foresees (h.line k) hwired hforesees
      · rw [if_neg he]
        refine hk.grounded fun hd => hne ?_
        rw [hc, if_neg he]
        exact hd
    rw [hc]
    exact ⟨⟨hgrounded.coherent.unopened, hgrounded.coherent.opened⟩, hgrounded.unopened,
      hgrounded.genuine, hgrounded.own⟩
  · obtain ⟨ms, hc⟩ := hout.foresee fun hd => Server.not_isRegistered_of_disconnected hd hr
    rw [hc] at hr ⊢
    by_cases he : k = conn
    · subst he
      rw [if_pos rfl] at hr ⊢
      have := hforesees.enrolled (hwired.sender ▸ h.line k) (hwired.sender ▸ hk.enrolled) hr
      exact this.trans hwired.sender
    · rw [if_neg he] at hr ⊢
      exact hk.enrolled hr
  · obtain ⟨hne, hu⟩ | ⟨rfl, hu⟩ := hstate hu (by decide)
    · refine ⟨List.eq_nil_iff_forall_not_mem.mpr fun r hr => ?_, ?_⟩
      · obtain hr | ⟨-, hlive, -⟩ | ⟨he, -⟩ := hout.hears hr
        · rw [(hk.greeted hu).1] at hr
          cases hr
        · cases hlive.symm.trans hu
        · exact hne he
      · rw [advance_written]
        exact (hk.greeted hu).2
    · exact absurd hu hforesees.state_ne
  · obtain ⟨hne, hr⟩ | ⟨rfl, hr⟩ := hstate hr (by decide)
    · obtain hrmem | ⟨-, hlive, -⟩ | ⟨he, -⟩ := hout.hears hrmem
      · exact hk.unsynced hr r hrmem htype
      · cases hlive.symm.trans hr
      · exact hne he
    · -- the server has only answered the `HELLO`
      obtain ⟨hu, hhello⟩ := hforesees.registered hr
      obtain hrmem | ⟨-, hlive, -⟩ | ⟨-, message, ms, hdec, -, hreply, hrmem⟩ := hout.hears hrmem
      · rw [(hk.greeted hu).1] at hrmem
        cases hrmem
      · cases hlive.symm.trans hu
      · rw [Server.Reply, Message.type_of_deserialize_serialize hdec, hhello] at hreply
        rw [hreply] at hrmem
        rw [List.mem_singleton.mp hrmem] at htype
        cases htype

/-- What a message adds to the record comes from its connection, which is live. -/
theorem Issued.added (h : s.Issued w n)
    (hm : (s.links conn).written[(s.links conn).read]? = some m)
    (hs : (s.server.connections conn).state ≠ .disconnected)
    (hout : s.server.Outcome conn m.serialize server) {d : DocumentID} {oper : InsertOperation}
    (ho : .insert oper ∈ server.recorded d) : .insert oper ∈ s.server.recorded d ∨
      .insert oper ∈ (s.foreseen conn).submitted ∧ (s.server.connections conn).state = .live ∧
        ∃ d', (s.foreseen conn).currentDocument = some d' ∧
          s.server.recorded d' = s.server.recorded d := by
  refine (hout.recorded_foreseen ho).imp (fun ho => ho) ?_
  rintro ⟨operation, hop, hstored, hlive, d', hd, hsame⟩
  have hconn := h.stands conn
  have hwired := hconn.wired m (List.mem_of_getElem? hm)
  have hnext := (hconn.grounded hs).foresees (h.line conn) hwired (foresees _ m)
  have hforeseen : s.foreseen conn = ((s.links conn).written.drop ((s.links conn).read + 1)).foldl
      foresee ((s.server.connections conn).foresee m) := by
    rw [foreseen, drop_read hm, List.foldl_cons]
  refine ⟨?_, hlive, d', document_foldl (hconn.grounded hs).coherent hd _, hsame⟩
  rw [hforeseen]
  refine submitted_subset_foldl _ _ ?_
  rwa [hstored.insert (hnext.genuine operation hop).bar] at hop

theorem Issued.unique_read (h : s.Issued w n)
    (hm : (s.links conn).written[(s.links conn).read]? = some m)
    (hs : (s.server.connections conn).state ≠ .disconnected)
    (hout : s.server.Outcome conn m.serialize server) (d : DocumentID) :
    Operation.Consistent {op | op ∈ server.recorded d} := by
  by_cases hnew : ∃ d', (s.foreseen conn).currentDocument = some d' ∧
      s.server.recorded d' = s.server.recorded d
  · obtain ⟨d', hd, hsame⟩ := hnew
    have hmem : ∀ oper, .insert oper ∈ server.recorded d →
        .insert oper ∈ ({op | op ∈ s.server.recorded d'} ∪ {op | op ∈ (s.foreseen conn).submitted} :
          Set Operation) := fun oper ho => by
      obtain ho | ⟨ho, -⟩ := h.added hm hs hout ho
      exacts [Or.inl (hsame ▸ ho), Or.inr ho]
    exact fun a b ha hb => h.fits conn hs d' hd a b (hmem a ha) (hmem b hb)
  · have hmem : ∀ oper, .insert oper ∈ server.recorded d → .insert oper ∈ s.server.recorded d :=
      fun oper ho => (h.added hm hs hout ho).resolve_right fun ho => hnew ho.2.2
    exact fun a b ha hb => h.unique d a b (hmem a ha) (hmem b hb)

/-- **Two connections of one client are not both open**: the other one has no document. -/
theorem Issued.widens_read (h : s.Issued w n)
    (hm : (s.links conn).written[(s.links conn).read]? = some m)
    (hs : (s.server.connections conn).state ≠ .disconnected)
    (hout : s.server.Outcome conn m.serialize server) {k : ConnId}
    (hk : (s.server.connections k).state ≠ .disconnected) {q : List Message}
    (hq : ∀ m ∈ q, m.type ≠ .openDocument) :
    s.server.Widens (w k) (q.foldl foresee (s.foreseen k)) server := fun d hd => by
  refine ⟨h.unique_read hm hs hout d, fun oper ho => ?_⟩
  refine (h.added hm hs hout ho).imp (fun ho => ho) ?_
  rintro ⟨hop, hlive, -⟩
  by_cases he : k = conn
  · subst he
    refine Or.inr ⟨submitted_subset_foldl q _ hop, fun hsyncing => ?_⟩
    have hrank := (rank_le_foldl (s.server.connections k) _).trans (rank_le_foldl (s.foreseen k) q)
    rw [hsyncing, hlive] at hrank
    simp [ClientState.rank] at hrank
  · refine Or.inl fun hsite => ?_
    have howner : w k = w conn := hsite.symm.trans ((h.grounded hs).own oper hop)
    have hregistered := Server.isRegistered_of_live hlive
    -- the connection of the same client is not registered, so it asked for nothing
    have hunregistered : (s.server.connections k).state = .unregistered := by
      by_contra hne
      have hr : (s.server.connections k).isRegistered = true := by
        rw [Server.isRegistered_iff]
        cases hc : (s.server.connections k).state <;> simp [hc] at hne hk ⊢
      refine h.registry.toEnrolled.clientId_ne hr hregistered he ?_
      rw [(h.stands k).enrolled hr, (h.stands conn).enrolled hregistered, howner]
    have hnone := (h.registry.coherent k).unopened (Or.inl hunregistered)
    have hforeseen : (s.foreseen k).currentDocument = none := unopened_foldl hnone fun m hm =>
      ((h.stands k).greeted hunregistered).2 m (List.mem_of_mem_drop hm)
    cases hd.symm.trans (unopened_foldl hforeseen hq)

/-- A history that is sent holds what is recorded for the document. -/
theorem history_read (id : Str) (hout : s.server.Outcome conn m.serialize server) {k : ConnId}
    (hk : (server.connections k).state ≠ .disconnected) (q : List Message) {r : Message}
    (hr : r ∈ (server.connections k).sent) : r ∈ (s.server.connections k).sent ∨
      (r.type = .syncResponse → ∀ oper, server.Holds
        (q.foldl foresee (({ s with server := server, links := s.advance conn } : System).foreseen k))
        id oper → .insert oper ∈ r.payload.operations) := by
  refine (hout.hears hr).imp (fun hr => hr) fun hor htype oper ⟨_, d, hd, ho⟩ => ?_
  obtain ⟨-, -, ht | ht⟩ | ⟨rfl, message, ms, hdec, hexpects, hreply, hrmem⟩ := hor
  · cases htype.symm.trans ht
  · cases htype.symm.trans ht
  rw [Server.Reply] at hreply
  cases hmt : message.type with
  | openDocument =>
    rw [hmt] at hreply
    obtain ⟨d', history, hp, rfl, hperm⟩ := hreply
    rw [List.mem_singleton.mp hrmem]
    -- the document of the connection is the one it asked for
    have hdoc : (server.connections k).currentDocument = some d' := by
      obtain ⟨ms, hc⟩ := hout.foresee hk
      rw [hc, if_pos rfl, foresee_of_accepts hdec hexpects, ClientConnection.accept, hmt, hp]
    have hcoherent := hout.registry.coherent k
    have hforeseen := document_foldl (hcoherent.foldl_foresee _) (document_foldl hcoherent hdoc
      (((s.advance k k).written.drop (s.advance k k).read))) q
    obtain rfl := Option.some.inj (hd.symm.trans hforeseen)
    obtain ho | ⟨message', _, hdec', htype', -⟩ := (hout.recorded d).2 _ ho
    · exact hperm.symm.subset ho
    · rw [hdec] at hdec'
      obtain rfl := Except.ok.inj hdec'
      cases hmt.symm.trans htype'
  | hello =>
    rw [hmt] at hreply
    rw [hreply] at hrmem
    rw [List.mem_singleton.mp hrmem] at htype
    cases htype
  | syncComplete =>
    rw [hmt] at hreply
    obtain ht | ht := (hreply r hrmem).type <;> cases htype.symm.trans ht
  | helloAck | operation | syncRequest | syncResponse | cursorUpdate =>
    rw [hmt] at hreply
    rw [hreply] at hrmem
    cases hrmem

variable (sha256) in
/-- **The next message for the server.** -/
theorem Issued.read (h : s.Issued w n) (conn : ConnId) (order : RowOrder Str) :
    (s.read sha256 conn order).Issued w n := by
  rw [System.read]
  split
  case isTrue => exact h
  case isFalse hs =>
    split
    case h_2 => exact h
    case h_1 m hm =>
      have hout := h.registry.outcome sha256 (fun _ => false) hs m.serialize order
      rw [Server.stepWith_none] at hout
      have hmem := List.mem_of_getElem? hm
      have hwired := (h.stands conn).wired m hmem
      have hlive := fun k => foreseen_read hm hs hout (k := k)
      have hgenuine {message : Message} {op : Operation}
          (hdec : Message.deserialize m.serialize = .ok message) (htype : message.type = .operation)
          (hp : message.payload = .operation op) : op.Genuine n :=
        (hwired.read (h.line conn) hdec htype hp).2.1
      refine h.serve hout.registry (advance_written s conn) (fun k hk => ?_) (h.stands_read hm hs hout)
        (fun d op hop => ?_) (fun id op hop => ?_) (h.unique_read hm hs hout) hlive
        (fun k hk q hq => h.widens_read hm hs hout (hlive k hk).1 hq) fun k hk q r hr => ?_
      · obtain ⟨hnew, hnone⟩ := h.fresh k hk
        have hne : k ≠ conn := fun he => by
          rw [← he, hnone] at hmem
          cases hmem
        rw [hout.untouched hne (by rw [hnew]; decide), hnew]
      · obtain hop | ⟨message, operation, hdec, htype, hp, hstored⟩ := (hout.recorded d).2 op hop
        exacts [h.recorded d op hop, hstored.genuine (hgenuine hdec htype hp)]
      · obtain hop | ⟨message, hdec, htype, hp⟩ := hout.held hop
        exacts [h.pending id op hop, hgenuine hdec htype hp]
      · refine (history_read (w k) hout hk q hr).imp (fun hr => hr) fun hall htype oper hholds => ?_
        obtain ⟨hsite, d, hd, ho⟩ := hholds
        refine hall htype oper ⟨hsite, d, ?_, ho⟩
        rw [(hlive k hk).2.2, foldl_foresee_sent]
        exact hd

end Read

/-! ## Runs -/

/-- One event, and how many inserts the clients have made. -/
def tally (sha256 : Str → Vector UInt8 32) (c : System × ℕ) (e : Event) : System × ℕ :=
  (c.1.step sha256 e, c.2 + match e with
    | .act id action => ((c.1.session id).inserts action.input).length
    | _ => 0)

/-- **Every step keeps the ids apart.** -/
theorem Issued.step {c : System × ℕ} (h : c.1.Issued w c.2) {e : Event} (he : c.1.Settles e)
    (hn : (tally sha256 c e).2 < 2 ^ 64 - 1) :
    ∃ w', (tally sha256 c e).1.Issued w' (tally sha256 c e).2 := by
  cases e with
  | act id action => exact ⟨w, h.act sha256 action hn⟩
  | connect id opened => exact ⟨w, h.connectImpl opened⟩
  | connected id => exact h.establish he
  | disconnect id => exact ⟨w, h.disconnectImpl⟩
  | openDocument id documentId => exact ⟨w, h.openDocumentImpl he⟩
  | processOutgoing id => exact ⟨w, h.processOutgoing⟩
  | deliver id => exact ⟨w, h.deliver id⟩
  | read conn order => exact ⟨w, h.read sha256 conn order⟩
  | close conn =>
    change ∃ w', (c.1.step sha256 (.close conn)).Issued w' c.2
    rw [System.step]
    split
    case isTrue hopen => exact ⟨w, h.close hopen⟩
    case isFalse => exact ⟨w, h⟩
  | launch id => exact ⟨w, h.launch⟩

/-- No two inserts of a document are recorded under one id, and none under that of the root. -/
def Unique (s : System) : Prop :=
  ∀ d, Operation.Consistent {op | op ∈ s.server.recorded d} ∧
    ∀ oper, .insert oper ∈ s.server.recorded d → oper.ident ≠ rootId

theorem Issued.isUnique (h : s.Issued w n) : s.Unique := fun d => by
  refine ⟨h.unique d, fun oper ho he => ?_⟩
  have hpos := ((h.recorded d _ ho).dated.lamport oper rfl).1
  rw [he] at hpos
  exact absurd hpos (by decide)

/-- **Insert ids stay unique across restarts**: in every run of the server and its clients, which may be
started again, lose their connections and type at any moment, if a client asks for a document only when
nothing of an earlier synchronization is left in its queues. -/
theorem unique_along {events : List Event}
    (h : Along (tally sha256) (fun c e => c.1.Settles e ∧ (tally sha256 c e).2 < 2 ^ 64 - 1)
      (start, 0) events) :
    Along (tally sha256) (fun c e => (tally sha256 c e).1.Unique) (start, 0) events :=
  @Along.of_invariant _ _ (tally sha256) _ _ (fun c => ∃ w, c.1.Issued w c.2)
    (fun _ _ ⟨_, hs⟩ ⟨he, hn⟩ => by
      obtain ⟨w', hnext⟩ := hs.step he hn
      exact ⟨hnext.isUnique, w', hnext⟩) _ _ ⟨_, issued_start⟩ h

/-- SHA-256 on the three texts of the runs below. -/
def relaunchDigest (data : Str) : Vector UInt8 32 :=
  if data = str "INSERT|0,__ROOT__|2,a|121" then
    #v[65, 64, 125, 21, 113, 14, 248, 103, 78, 16, 106, 123, 136, 162, 101, 86,
      19, 187, 28, 77, 86, 129, 230, 2, 174, 240, 163, 215, 247, 103, 186, 231]
  else if data = str "INSERT|0,__ROOT__|1,a|121" then
    #v[66, 177, 74, 174, 248, 93, 165, 113, 205, 116, 192, 143, 3, 52, 27, 173,
      29, 91, 201, 58, 78, 20, 171, 196, 163, 251, 135, 232, 193, 164, 121, 135]
  else pairDigest data

/-- A client that opens `d` and types, is started again and types again. -/
def relaunched : List Event :=
  visit (str "a") 0 'x' ++ [.launch (str "a"), .close 0] ++ visit (str "a") 1 'y'

theorem unique_along_relaunched :
    Along (tally relaunchDigest) (fun c e => (tally relaunchDigest c e).1.Unique) (start, 0)
      relaunched :=
  unique_along (by decide +kernel)

/-- A client that opens `d` and types, is started again, opens `e`, loses its connection before it takes
the history, and opens `d`. -/
def leftover : List Event :=
  visit (str "a") 0 'x' ++ [.launch (str "a"), .close 0] ++ joined (str "a") 1 (str "e") ++
    [.disconnect (str "a"), .close 1, .connect (str "a") true, .connected (str "a"),
      .read 2 (.inserted Str), .deliver (str "a"), .openDocument (str "a") (str "d"),
      .act (str "a") .flush] ++
    typed (str "a") 'y' ++ List.replicate 5 (.read 2 (.inserted Str))

/-- **A history left in the queue lets a client go live behind the record**: two characters are recorded
under one id. -/
theorem repeated_after_leftover :
    ¬ ∀ events, Along (tally relaunchDigest) (fun c e => (tally relaunchDigest c e).1.Unique)
      (start, 0) events := fun h => by
  have hlast := Along.last (R := fun c : System × ℕ => c.1.Unique)
    (show leftover ≠ [] from List.cons_ne_nil _ _) (h leftover)
  exact absurd (hlast (str "d")).1 (by decide +kernel)

end System

end CrdtEditor
