import CrdtEditor.Persistence.Growth
import CrdtEditor.Server.Relay

/-!
# Server/Registry — who is registered, and in which phase

`clients`, `presence` and `pendingSyncOperations` name the registered connections, and the phase of a
connection tells whether it has a document and whether operations wait for it (`Registry`).  None of
this depends on what the messages say, on sizes or on the database.

Most of a handler only sends: `Passes` is what a loop of sends leaves.
-/

open scoped List

namespace CrdtEditor

open Text

/-- A connection has a document from its `OPEN_DOCUMENT` on. -/
structure ClientConnection.Coherent (c : ClientConnection) : Prop where
  unopened : c.state = .unregistered ∨ c.state = .registered → c.currentDocument = none
  opened : c.state = .syncing ∨ c.state = .live → ∃ d, c.currentDocument = some d

theorem ClientConnection.coherent_disconnected {c : ClientConnection} (h : c.state = .disconnected) :
    c.Coherent :=
  ⟨by simp [h], by simp [h]⟩

namespace Server

/-- **The registry invariant.** -/
structure Registry (s : Server) : Prop extends s.Enrolled where
  presence : ∀ id, id ∈ s.presence ↔ id ∈ s.clients
  pendingClient : ∀ id ∈ s.pendingSyncOperations, id ∈ s.clients
  pending : ∀ id conn, AList.lookup id s.clients = some conn →
    (id ∈ s.pendingSyncOperations ↔ (s.connections conn).state ≠ .live)
  coherent : ∀ conn, (s.connections conn).Coherent
  stored : ∀ conn d, (s.connections conn).currentDocument = some d → d ∈ s.store.documents
  filed : s.store.Filed

theorem registry_start {store : DocumentStore} (h : store.Filed) : (start store).Registry where
  __ := Enrolled.start store
  presence id := Iff.rfl
  pendingClient id hid := absurd hid (AList.notMem_empty _)
  pending id conn hc := by simp [start] at hc
  coherent conn := ⟨fun _ => rfl, by simp [start, ClientConnection.new]⟩
  stored conn d hd := by simp [start, ClientConnection.new] at hd
  filed := h

/-- **Keeping every client under its id keeps the registry**, where who becomes live leaves
`pendingSyncOperations`. -/
theorem Registry.rebase {s t : Server} (h : s.Registry) (hclients : t.clients = s.clients)
    (hpresence : ∀ id, id ∈ t.presence ↔ id ∈ s.presence) (hfiled : t.store.Filed)
    (hconn : ∀ conn, (t.connections conn).clientId = (s.connections conn).clientId ∧
      (t.connections conn).isRegistered = (s.connections conn).isRegistered ∧
      (t.connections conn).Coherent ∧
      ∀ d, (t.connections conn).currentDocument = some d → d ∈ t.store.documents)
    (hkeys : ∀ id ∈ t.pendingSyncOperations, id ∈ s.pendingSyncOperations)
    (hpending : ∀ id conn, AList.lookup id s.clients = some conn →
      (id ∈ t.pendingSyncOperations ↔ (t.connections conn).state ≠ .live)) : t.Registry where
  __ := h.toEnrolled.rebase hclients fun conn => ⟨(hconn conn).1, (hconn conn).2.1⟩
  presence id := by rw [hpresence, hclients, h.presence]
  pendingClient id hid := hclients ▸ h.pendingClient id (hkeys id hid)
  pending id conn hl := hpending id conn (hclients ▸ hl)
  coherent conn := (hconn conn).2.2.1
  stored conn := (hconn conn).2.2.2
  filed := hfiled

/-! ## Disconnecting -/

/-- `t` is `s` without the connection `conn`. -/
structure Drops (s : Server) (conn : ConnId) (t : Server) : Prop where
  registry : t.Registry
  connections : ∀ conn', t.connections conn' =
    if conn' = conn then { s.connections conn with state := .disconnected } else s.connections conn'
  store : t.store = s.store
  violations : t.violations = s.violations
  pending : ∀ id, ∀ op ∈ t.pending id, op ∈ s.pending id

/-- **Disconnecting keeps the registry** and touches no other connection. -/
theorem Registry.disconnect {s : Server} (h : s.Registry) (conn : ConnId) :
    Drops s conn (s.disconnect conn) := by
  have hconn := connections_disconnect s conn
  have hstore := store_disconnect s conn
  have hkeys := h.toEnrolled.mem_disconnect conn
  refine ⟨?_, hconn, hstore, violations_disconnect s conn, fun id op hop => ?_⟩
  · refine
      { h.toEnrolled.disconnect conn with
        presence := fun id => by rw [(hkeys id).2.2, (hkeys id).1, h.presence]
        pendingClient := fun id hid => ?_
        pending := fun id k hl => ?_
        coherent := fun k => ?_
        stored := fun k d hd => ?_
        filed := hstore ▸ h.filed }
    · obtain ⟨hne, hid⟩ := (hkeys id).2.1.mp hid
      exact (hkeys id).1.mpr ⟨hne, h.pendingClient id hid⟩
    · have hstays := (hkeys id).1.mp (UMap.mem_of_lookup hl)
      obtain ⟨hl, hne⟩ := (h.toEnrolled.clients_disconnect conn).mp hl
      rw [hconn, if_neg hne, (hkeys id).2.1, and_iff_right hstays.1]
      exact h.pending id k hl
    · rw [hconn]
      split
      exacts [ClientConnection.coherent_disconnected rfl, h.coherent k]
    · rw [hstore]
      rw [hconn] at hd
      split at hd
      exacts [h.stored conn d hd, h.stored k d hd]
  · rw [Server.pending, h.toEnrolled.disconnect_eq] at hop
    dsimp only at hop
    split at hop
    case isTrue =>
      change op ∈ UMap.bucket (AList.erase _ s.pendingSyncOperations) id at hop
      rw [UMap.bucket_erase] at hop
      split at hop
      case isTrue => cases hop
      case isFalse => exact hop
    case isFalse => exact hop

/-! ## Sending -/

/-- **What sending leaves**: `t` is `s` after messages that are `allowed` on their connections, and
operations `held` back for clients that synchronize. -/
structure Passes (allowed : ConnId → Message → Prop) (held : Operation → Prop) (s t : Server) :
    Prop where
  clients : t.clients = s.clients
  presence : t.presence = s.presence
  store : t.store = s.store
  violations : t.violations = s.violations
  keys : ∀ id, id ∈ t.pendingSyncOperations ↔ id ∈ s.pendingSyncOperations
  pending : ∀ id, ∀ op ∈ t.pending id, op ∈ s.pending id ∨ held op
  connections : ∀ conn, ∃ ms, t.connections conn =
      { s.connections conn with sent := (s.connections conn).sent ++ ms } ∧
    ∀ m ∈ ms, allowed conn m

variable {allowed : ConnId → Message → Prop} {held : Operation → Prop} {s t u : Server}

theorem passes_refl (s : Server) : Passes allowed held s s :=
  ⟨rfl, rfl, rfl, rfl, fun _ => Iff.rfl, fun _ _ => Or.inl,
    fun _ => ⟨[], by rw [List.append_nil], by simp⟩⟩

theorem Passes.trans (h : Passes allowed held s t) (h' : Passes allowed held t u) :
    Passes allowed held s u where
  clients := h'.clients.trans h.clients
  presence := h'.presence.trans h.presence
  store := h'.store.trans h.store
  violations := h'.violations.trans h.violations
  keys id := (h'.keys id).trans (h.keys id)
  pending id op hop := (h'.pending id op hop).elim (h.pending id op) Or.inr
  connections conn := by
    obtain ⟨ms, hms, hallowed⟩ := h.connections conn
    obtain ⟨ms', hms', hallowed'⟩ := h'.connections conn
    refine ⟨ms ++ ms', by rw [hms', hms, List.append_assoc], fun m hm => ?_⟩
    exact (List.mem_append.mp hm).elim (hallowed m) (hallowed' m)

theorem Passes.mono {allowed' : ConnId → Message → Prop} (h : Passes allowed held s t)
    (hallowed : ∀ k m, allowed k m → allowed' k m) : Passes allowed' held s t := by
  refine { h with connections := fun k => ?_ }
  obtain ⟨ms, hms, hall⟩ := h.connections k
  exact ⟨ms, hms, fun m hm => hallowed k m (hall m hm)⟩

theorem Passes.state (h : Passes allowed held s t) (conn : ConnId) :
    (t.connections conn).state = (s.connections conn).state ∧
      (t.connections conn).clientId = (s.connections conn).clientId ∧
      (t.connections conn).currentDocument = (s.connections conn).currentDocument := by
  obtain ⟨ms, hms, -⟩ := h.connections conn
  rw [hms]
  exact ⟨rfl, rfl, rfl⟩

theorem Passes.recorded (h : Passes allowed held s t) (d : DocumentID) :
    t.recorded d = s.recorded d := by
  rw [Server.recorded, Server.recorded, h.store]

/-- Sending keeps the registry. -/
theorem Passes.registry (h : Passes allowed held s t) (hs : s.Registry) : t.Registry := by
  refine hs.rebase h.clients (fun _ => by rw [h.presence]) (h.store ▸ hs.filed) (fun conn => ?_)
    (fun id => (h.keys id).mp) fun id conn hl => ?_
  · obtain ⟨ms, hms, -⟩ := h.connections conn
    rw [hms, h.store]
    exact ⟨rfl, rfl, ⟨(hs.coherent conn).unopened, (hs.coherent conn).opened⟩, hs.stored conn⟩
  · rw [h.keys, (h.state conn).1]
    exact hs.pending id conn hl

/-- One message. -/
theorem Passes.send (h : Passes allowed held s t) {conn : ConnId} {m : Message}
    (hm : allowed conn m) :
    (t.send conn m).Ends (Passes allowed held s) (Passes allowed held s) := by
  refine ends_send (fun _ => h.trans ?_) (fun _ => h) fun _ => h
  refine ⟨rfl, rfl, rfl, rfl, fun _ => Iff.rfl, fun _ _ => Or.inl, fun conn' => ?_⟩
  rw [connections_setConnection]
  split
  case isTrue he =>
    subst he
    exact ⟨[m], rfl, fun m' hm' => List.mem_singleton.mp hm' ▸ hm⟩
  case isFalse => exact ⟨[], by rw [List.append_nil], by simp⟩

/-- One operation held back. -/
theorem Passes.push (h : Passes allowed held s t) {id : Str} (hid : id ∈ t.pendingSyncOperations)
    {op : Operation} (hop : held op) :
    Passes allowed held s
      { t with pendingSyncOperations := UMap.push t.pendingSyncOperations id op } := by
  refine h.trans ⟨rfl, rfl, rfl, rfl, fun id' => ?_, fun id' op' hop' => ?_, fun conn =>
    ⟨[], by rw [List.append_nil], by simp⟩⟩
  · change id' ∈ AList.insert id _ t.pendingSyncOperations ↔ _
    rw [AList.mem_insert]
    exact ⟨fun hor => hor.elim (fun he => he ▸ hid) fun hm => hm, Or.inr⟩
  · change op' ∈ UMap.bucket (UMap.push t.pendingSyncOperations id op) id' at hop'
    rw [UMap.bucket_push] at hop'
    split at hop'
    case isTrue he =>
      subst he
      rw [List.mem_append, List.mem_singleton] at hop'
      rcases hop' with hop' | rfl
      exacts [Or.inl hop', Or.inr hop]
    case isFalse => exact Or.inl hop'

/-- A loop that only sends. -/
theorem Passes.foldlM {β : Type} {f : Server → β → Except (Exn × Server) Server} {l : List β}
    (hf : ∀ b ∈ l, ∀ t, Passes allowed held s t →
      (f t b).Ends (Passes allowed held s) (Passes allowed held s))
    (h : Passes allowed held s t) :
    (l.foldlM f t).Ends (Passes allowed held s) (Passes allowed held s) :=
  (Except.ends_foldlM (I := fun l' t => l' ⊆ l ∧ Passes allowed held s t)
    (fun b _ t ht => (hf b (ht.1 List.mem_cons_self) t ht.2).imp
      (fun _ hu => ⟨fun _ hx => ht.1 (List.mem_cons_of_mem _ hx), hu⟩) fun _ hu => hu)
    ⟨fun _ hx => hx, h⟩).imp (fun _ hu => hu.2) fun _ hu => hu

end Server

end CrdtEditor
