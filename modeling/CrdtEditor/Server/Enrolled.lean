import CrdtEditor.Foundations.Run
import CrdtEditor.Server.State

/-!
# Server/Enrolled — the entries of the registered connections

A registered connection has the entry of its id in `clients`, and nobody else has one (`Enrolled`).
Every invariant of the server contains this; registering and disconnecting keep it.
-/

namespace CrdtEditor

open Text

namespace Server

variable {s t : Server} {conn : ConnId}

/-! ## Connections -/

/-- `is_registered`: neither new nor disconnected. -/
theorem isRegistered_iff {c : ClientConnection} :
    c.isRegistered ↔ c.state = .syncing ∨ c.state = .live ∨ c.state = .registered := by
  simp [ClientConnection.isRegistered, or_assoc]

theorem isRegistered_of_syncing {c : ClientConnection} (h : c.state = .syncing) : c.isRegistered :=
  isRegistered_iff.mpr (Or.inl h)

theorem isRegistered_of_live {c : ClientConnection} (h : c.state = .live) : c.isRegistered :=
  isRegistered_iff.mpr (Or.inr (Or.inl h))

theorem isRegistered_of_registered {c : ClientConnection} (h : c.state = .registered) :
    c.isRegistered := isRegistered_iff.mpr (Or.inr (Or.inr h))

theorem not_isRegistered_of_disconnected {c : ClientConnection} (h : c.state = .disconnected) :
    ¬ c.isRegistered := by simp [isRegistered_iff, h]

/-- Writing one connection leaves the others. -/
theorem connections_setConnection (s : Server) (conn conn' : ConnId) (c : ClientConnection) :
    (s.setConnection conn c).connections conn' = if conn' = conn then c else s.connections conn' :=
  Function.update_apply _ _ _ _

@[simp] theorem connections_setConnection_self (s : Server) (conn : ConnId)
    (c : ClientConnection) : (s.setConnection conn c).connections conn = c := by
  rw [connections_setConnection, if_pos rfl]

theorem setConnection_self (s : Server) (conn : ConnId) :
    s.setConnection conn (s.connections conn) = s := by
  rw [setConnection, Function.update_eq_self]

/-- Writing a connection twice. -/
theorem setConnection_setConnection (s : Server) (conn : ConnId) (c c' : ClientConnection) :
    (s.setConnection conn c).setConnection conn c' = s.setConnection conn c' := by
  rw [Server.setConnection, Server.setConnection, Server.setConnection, Function.update_idem]

/-! ## The entries -/

/-- **The connections that have an entry are the registered ones**, each under its id. -/
structure Enrolled (s : Server) : Prop where
  nonempty : [] ∉ s.clients
  registered : ∀ id conn, AList.lookup id s.clients = some conn →
    (s.connections conn).clientId = id ∧ (s.connections conn).isRegistered
  client : ∀ conn, (s.connections conn).isRegistered →
    AList.lookup (s.connections conn).clientId s.clients = some conn

namespace Enrolled

/-- At the start nobody is connected. -/
theorem start (store : DocumentStore) : (start store).Enrolled where
  nonempty := AList.notMem_empty _
  registered id conn hc := by simp [Server.start] at hc
  client conn hc := by simp [Server.start, ClientConnection.new, ClientConnection.isRegistered] at hc

/-- Clients that stay where they are registered. -/
theorem rebase (h : s.Enrolled) (hclients : t.clients = s.clients)
    (hconn : ∀ k, (t.connections k).clientId = (s.connections k).clientId ∧
      (t.connections k).isRegistered = (s.connections k).isRegistered) : t.Enrolled where
  nonempty := hclients ▸ h.nonempty
  registered id k hl := by
    rw [(hconn k).1, (hconn k).2]
    exact h.registered id k (hclients ▸ hl)
  client k hr := by
    rw [(hconn k).1, hclients]
    exact h.client k ((hconn k).2 ▸ hr)

/-- A connection is found under its id only if it is registered. -/
theorem lookup_iff (h : s.Enrolled) (conn : ConnId) :
    AList.lookup (s.connections conn).clientId s.clients = some conn ↔
      (s.connections conn).isRegistered :=
  ⟨fun hl => (h.registered _ conn hl).2, h.client conn⟩

/-- Two registered connections have two ids. -/
theorem clientId_ne (h : s.Enrolled) {k : ConnId} (hk : (s.connections k).isRegistered)
    (hconn : (s.connections conn).isRegistered) (hne : k ≠ conn) :
    (s.connections k).clientId ≠ (s.connections conn).clientId := fun he => by
  have := h.client k hk
  rw [he, h.client conn hconn] at this
  exact hne (Option.some.inj this).symm

/-- An id without an entry is nobody's. -/
theorem clientId_ne_of_notMem (h : s.Enrolled) {id : Str} (hid : id ∉ s.clients) {k : ConnId}
    (hk : (s.connections k).isRegistered) : (s.connections k).clientId ≠ id := fun he =>
  hid (he ▸ UMap.mem_of_lookup (h.client k hk))

/-- **A client that registers** has its entry. -/
theorem register (h : s.Enrolled) (hr : ¬ (s.connections conn).isRegistered) {c : ClientConnection}
    (hc : c.isRegistered) (hne : c.clientId ≠ []) (hfree : c.clientId ∉ s.clients)
    (hclients : t.clients = AList.insert c.clientId conn s.clients)
    (hconn : ∀ k, t.connections k = if k = conn then c else s.connections k) : t.Enrolled where
  nonempty hm := by
    rw [hclients] at hm
    exact ((AList.mem_insert _).mp hm).elim (fun he => hne he.symm) h.nonempty
  registered id k hl := by
    rw [hclients, UMap.lookup_insert] at hl
    rw [hconn]
    split at hl
    case isTrue he =>
      rw [if_pos (Option.some.inj hl).symm]
      exact ⟨he.symm, hc⟩
    case isFalse =>
      have hreg := h.registered id k hl
      rw [if_neg fun he : k = conn => hr (he ▸ hreg.2)]
      exact hreg
  client k hk := by
    rw [hclients, UMap.lookup_insert]
    rw [hconn] at hk ⊢
    split at hk
    case isTrue he => rw [if_pos he, if_pos rfl, he]
    case isFalse he =>
      rw [if_neg he, if_neg (h.clientId_ne_of_notMem hfree hk)]
      exact h.client k hk

end Enrolled

/-! ## Disconnecting -/

/-- **Disconnecting twice** is disconnecting once. -/
theorem disconnect_of_disconnected (hs : (s.connections conn).state = .disconnected) :
    s.disconnect conn = s := by
  rw [disconnect, if_pos hs]

/-- Unregistering forgets an id; it does not touch the connection. -/
theorem connections_unregisterClient (s : Server) (conn : ConnId) :
    (s.unregisterClient conn).connections = s.connections := by
  rw [unregisterClient]
  split <;> rfl

/-- Nor the documents. -/
theorem store_unregisterClient (s : Server) (conn : ConnId) :
    (s.unregisterClient conn).store = s.store := by
  rw [unregisterClient]
  split <;> rfl

/-- **A disconnect marks the connection** and touches no other. -/
theorem connections_disconnect (s : Server) (conn k : ConnId) :
    (s.disconnect conn).connections k =
      if k = conn then { s.connections conn with state := .disconnected } else s.connections k := by
  rw [Server.disconnect]
  split
  case isTrue hs =>
    split
    case isTrue he => rw [he, ← hs]
    case isFalse => rfl
  case isFalse =>
    dsimp only
    split
    · rw [connections_unregisterClient, connections_setConnection]
    · exact connections_setConnection s conn k _

/-- Only a refusal reports. -/
theorem violations_disconnect (s : Server) (conn : ConnId) :
    (s.disconnect conn).violations = s.violations := by
  rw [Server.disconnect]
  split
  · rfl
  · dsimp only
    split
    · rw [unregisterClient]
      split <;> rfl
    · rfl

/-- A disconnect leaves the documents. -/
theorem store_disconnect (s : Server) (conn : ConnId) : (s.disconnect conn).store = s.store := by
  rw [Server.disconnect]
  split
  · rfl
  · dsimp only
    split
    · exact store_unregisterClient _ conn
    · rfl

namespace Enrolled

/-- **What a disconnect removes**: the entries of a registered connection. -/
theorem disconnect_eq (h : s.Enrolled) (conn : ConnId) :
    s.disconnect conn =
      let t := s.setConnection conn { s.connections conn with state := .disconnected }
      let id := (s.connections conn).clientId
      if (s.connections conn).isRegistered then
        { t with
          clients := AList.erase id t.clients
          pendingSyncOperations := AList.erase id t.pendingSyncOperations
          presence := AList.erase id t.presence }
      else t := by
  dsimp only
  by_cases hs : (s.connections conn).state = .disconnected
  · have hsame : ({ s.connections conn with state := .disconnected } : ClientConnection) =
        s.connections conn := by rw [← hs]
    rw [disconnect_of_disconnected hs, if_neg (not_isRegistered_of_disconnected hs), hsame,
      setConnection_self]
  rw [Server.disconnect, if_neg hs]
  dsimp only
  by_cases hr : (s.connections conn).isRegistered
  · have hne : (s.connections conn).clientId ≠ [] := fun he =>
      h.nonempty (he ▸ UMap.mem_of_lookup (h.client conn hr))
    rw [if_pos hne, if_pos hr, unregisterClient, connections_setConnection_self]
    exact if_pos (h.client conn hr)
  · rw [if_neg hr]
    split
    · rw [unregisterClient, connections_setConnection_self]
      exact if_neg fun hl => hr ((h.lookup_iff conn).mp hl)
    · rfl

/-- The keys that stay. -/
theorem mem_disconnect (h : s.Enrolled) (conn : ConnId) (id : Str) :
    let left := (s.connections conn).isRegistered ∧ id = (s.connections conn).clientId
    (id ∈ (s.disconnect conn).clients ↔ ¬ left ∧ id ∈ s.clients) ∧
      (id ∈ (s.disconnect conn).pendingSyncOperations ↔ ¬ left ∧ id ∈ s.pendingSyncOperations) ∧
      (id ∈ (s.disconnect conn).presence ↔ ¬ left ∧ id ∈ s.presence) := by
  rw [h.disconnect_eq]
  dsimp only
  by_cases hr : (s.connections conn).isRegistered
  · simp only [hr, if_true, true_and]
    exact ⟨AList.mem_erase, AList.mem_erase, AList.mem_erase⟩
  · simp only [hr, Bool.false_eq_true, if_false, false_and, not_false_eq_true, true_and]
    exact ⟨Iff.rfl, Iff.rfl, Iff.rfl⟩

/-- The entries of the others stay. -/
theorem clients_disconnect (h : s.Enrolled) (conn : ConnId) {id : Str} {k : ConnId} :
    AList.lookup id (s.disconnect conn).clients = some k ↔
      AList.lookup id s.clients = some k ∧ k ≠ conn := by
  rw [h.disconnect_eq]
  dsimp only
  by_cases hr : (s.connections conn).isRegistered
  · rw [if_pos hr]
    change AList.lookup id (AList.erase _ s.clients) = _ ↔ _
    rw [UMap.lookup_erase]
    split
    case isTrue he =>
      refine iff_of_false (fun hno => by cases hno) ?_
      rintro ⟨hl, hne⟩
      rw [he, h.client conn hr] at hl
      exact hne (Option.some.inj hl).symm
    case isFalse hid =>
      refine ⟨fun hl => ⟨hl, fun he => hid ?_⟩, fun hl => hl.1⟩
      rw [← (h.registered id k hl).1, he]
  · rw [if_neg hr]
    exact ⟨fun hl => ⟨hl, fun he => hr (he ▸ (h.registered id k hl).2)⟩, fun hl => hl.1⟩

/-- **A disconnect leaves the others enrolled.** -/
theorem disconnect (h : s.Enrolled) (conn : ConnId) : (s.disconnect conn).Enrolled where
  nonempty hm := by
    obtain ⟨k, hl⟩ := UMap.mem_iff_lookup.mp hm
    exact h.nonempty (UMap.mem_of_lookup ((h.clients_disconnect conn).mp hl).1)
  registered id k hl := by
    obtain ⟨hl, hne⟩ := (h.clients_disconnect conn).mp hl
    rw [connections_disconnect, if_neg hne]
    exact h.registered id k hl
  client k hk := by
    have hne : k ≠ conn := fun he => by
      rw [connections_disconnect, if_pos he] at hk
      exact not_isRegistered_of_disconnected rfl hk
    rw [connections_disconnect, if_neg hne] at hk ⊢
    exact (h.clients_disconnect conn).mpr ⟨h.client k hk, hne⟩

/-- **What a registered client has in the maps** it keeps when another one leaves. -/
theorem lookup_disconnect (h : s.Enrolled) (conn : ConnId) {k : ConnId} (hne : k ≠ conn)
    (hk : (s.connections k).isRegistered) :
    AList.lookup (s.connections k).clientId (s.disconnect conn).pendingSyncOperations =
        AList.lookup (s.connections k).clientId s.pendingSyncOperations ∧
      AList.lookup (s.connections k).clientId (s.disconnect conn).presence =
        AList.lookup (s.connections k).clientId s.presence := by
  rw [h.disconnect_eq]
  dsimp only
  by_cases hr : (s.connections conn).isRegistered
  · rw [if_pos hr]
    have hids := h.clientId_ne hk hr hne
    exact ⟨(UMap.lookup_erase _ _ _).trans (if_neg hids), (UMap.lookup_erase _ _ _).trans (if_neg hids)⟩
  · rw [if_neg hr]
    exact ⟨rfl, rfl⟩

end Enrolled

end Server

end CrdtEditor
