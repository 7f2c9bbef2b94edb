import CrdtEditor.Server.State
import CrdtEditor.Session.State

/-!
# Server/Admission — which client ids are registered, and which of them the codecs can carry

`register_client` refuses the empty id and an id that is in use.  A `HELLO` may bring any id without a
newline (`admitted_iff`), and the texts of operations are cut at `'|'`: the operations built from a set
of registered ids read back, and are told apart by their texts, exactly when no id of the set holds
one (`safe_iff`).
-/

namespace CrdtEditor

open Text

/-- **An operation reads back** exactly when its sites avoid the delimiter. -/
theorem Operation.deserialize_serialize_iff (op : Operation) :
    deserialize op.serialize = .ok op ↔ op.Avoids bar :=
  ⟨fun h => (avoids_of_deserialize h).1, deserialize_serialize⟩

/-- The log that recorded operations one after the other. -/
def OperationLog.recordAll (ops : List Operation) : OperationLog :=
  ops.foldl OperationLog.record .empty

/-- A log has the texts of its history recorded, and drops what has a text it recorded. -/
theorem OperationLog.mem_recordAll {S : Set Operation} (hS : Set.InjOn Operation.serialize S) :
    ∀ (ops : List Operation) (l : OperationLog), (∀ op ∈ ops, op ∈ S) →
      (∀ t ∈ l.recordedOperations, ∃ op ∈ l.operationHistory, op ∈ S ∧ op.serialize = t) →
      ∀ op, op ∈ (ops.foldl OperationLog.record l).operationHistory ↔
        op ∈ l.operationHistory ∨ op ∈ ops
  | [], l, _, _, op => by simp
  | o :: ops, l, hops, hl, op => by
      have ho := hops o List.mem_cons_self
      have hmem : ∀ op, op ∈ (l.record o).operationHistory ↔ op ∈ l.operationHistory ∨ op = o := by
        intro op
        rw [OperationLog.record]
        split
        case isTrue hr =>
          obtain ⟨o', ho', hS', he⟩ := hl _ hr
          have : o' = o := hS hS' ho he
          rw [this] at ho'
          exact ⟨Or.inl, fun h => h.elim id fun he => he ▸ ho'⟩
        case isFalse => simp
      have hrecorded : ∀ t ∈ (l.record o).recordedOperations,
          ∃ op ∈ (l.record o).operationHistory, op ∈ S ∧ op.serialize = t := by
        intro t ht
        have ht : t ∈ l.recordedOperations ∨ t = o.serialize := by
          rw [OperationLog.record] at ht
          split at ht
          · exact Or.inl ht
          · exact (Finset.mem_insert.mp ht).symm
        obtain ht | rfl := ht
        · obtain ⟨o', ho', hS', he⟩ := hl t ht
          exact ⟨o', (hmem o').mpr (Or.inl ho'), hS', he⟩
        · exact ⟨o, (hmem o).mpr (Or.inr rfl), ho, rfl⟩
      rw [List.foldl_cons, mem_recordAll hS ops _ (fun o' ho' => hops o' (List.mem_cons_of_mem _ ho'))
        hrecorded, hmem, List.mem_cons, or_assoc]

namespace Server

/-- An id the server registers: the sender of a `HELLO` that `register_client` takes. -/
def Admitted (clientId : Str) : Prop :=
  ∃ (s t : Server) (conn : ConnId) (serializedMessage : Str) (message : Message),
    Message.deserialize serializedMessage = .ok message ∧ message.type = .hello ∧
      message.sender = clientId ∧ s.registerClient conn message.sender = .ok t

/-- Registering an id that is free acknowledges it. -/
theorem exists_registerClient (s : Server) (conn : ConnId) {clientId : Str} (hne : clientId ≠ [])
    (hfree : clientId ∉ s.clients) : ∃ t, s.registerClient conn clientId = .ok t := by
  have hsize : ¬ 2 ^ 32 ≤ (Message.serialize ⟨.helloAck, str "server", .monostate⟩).length := by
    decide
  have hsend : ∀ u : Server, (u.connections conn).state = .registered →
      ∃ t, u.send conn ⟨.helloAck, str "server", .monostate⟩ = .ok t := by
    intro u hu
    rw [send, ClientConnection.send, if_neg (by simp [hu]), if_neg hsize]
    exact ⟨_, rfl⟩
  rw [registerClient, if_neg hne, if_neg hfree]
  exact hsend _ (by simp [setConnection])

/-- **Admission looks for nothing but an empty id**; a newline ends the line of the sender. -/
theorem admitted_iff {clientId : Str} : Admitted clientId ↔ clientId ≠ [] ∧ newline ∉ clientId := by
  constructor
  · rintro ⟨s, t, conn, text, m, hm, -, rfl, hr⟩
    refine ⟨fun he => ?_, (of_mem_split (Message.of_deserialize hm).1).1⟩
    rw [he, registerClient, if_pos rfl] at hr
    cases hr
  · rintro ⟨hne, hnl⟩
    have hread : Message.deserialize (Message.serialize ⟨.hello, clientId, .monostate⟩) =
        .ok ⟨.hello, clientId, .monostate⟩ :=
      Message.deserialize_serialize ⟨hnl, trivial⟩
    obtain ⟨t, ht⟩ := exists_registerClient (start .empty) 0 hne (by simp [start])
    exact ⟨_, t, 0, _, _, hread, rfl, rfl, ht⟩

/-- The sites of an operation are among the ids, or the site of the root. -/
def BuiltFrom (ids : Set Str) (op : Operation) : Prop :=
  ∀ site ∈ op.sites, site ∈ ids ∨ site = rootId.siteId

/-- **What the codecs owe a set of client ids.** -/
structure SafeOnWire (ids : Set Str) : Prop where
  ident : ∀ x : ElementID, x.siteId ∈ ids → ElementID.deserialize x.serialize = .ok x
  operation : ∀ op, BuiltFrom ids op → Operation.deserialize op.serialize = .ok op
  injective : Set.InjOn Operation.serialize {op | BuiltFrom ids op}
  recorded : ∀ ops, (∀ op ∈ ops, BuiltFrom ids op) →
    ∀ op ∈ ops, op ∈ (OperationLog.recordAll ops).operationHistory
  applied : ∀ (s : EditorSession) (op : Operation), BuiltFrom ids op →
    (∀ t ∈ s.appliedOperations, ∃ o ∈ s.log.operationHistory, BuiltFrom ids o ∧ o.serialize = t) →
    op.serialize ∈ s.appliedOperations → op ∈ s.log.operationHistory

theorem BuiltFrom.avoids {ids : Set Str} {op : Operation} (h : BuiltFrom ids op)
    (hids : ∀ w ∈ ids, bar ∉ w) : op.Avoids bar := fun site hs =>
  (h site hs).elim (hids site) fun he => by rw [he]; decide

theorem safeOnWire_iff (ids : Set Str) : SafeOnWire ids ↔ ∀ w ∈ ids, bar ∉ w := by
  constructor
  · intro h w hw
    have hread := h.operation (.remove ⟨⟨0, w⟩⟩) fun site hs => by
      rw [List.mem_singleton.mp hs]
      exact Or.inl hw
    exact (Operation.deserialize_serialize_iff _).mp hread w List.mem_cons_self
  · intro hids
    have hinj : Set.InjOn Operation.serialize {op | BuiltFrom ids op} :=
      Operation.serialize_injOn.mono fun op hop => hop.avoids hids
    exact
      { ident := fun x _ => x.deserialize_serialize
        operation := fun op hop => (op.deserialize_serialize_iff).mpr (hop.avoids hids)
        injective := hinj
        recorded := fun ops hops op hop =>
          (OperationLog.mem_recordAll hinj ops .empty hops (by simp [OperationLog.empty]) op).mpr
            (Or.inr hop)
        applied := fun s op hop hs hm => by
          obtain ⟨o, ho, hbuilt, he⟩ := hs _ hm
          exact hinj hbuilt hop he ▸ ho }

/-- **Registered client ids are safe on the wire** exactly when none of them holds a `'|'`. -/
theorem safe_iff (ids : Set {clientId : Str // Admitted clientId}) :
    SafeOnWire (Subtype.val '' ids) ↔ ∀ clientId ∈ ids, bar ∉ clientId.val := by
  rw [safeOnWire_iff, Set.forall_mem_image]

/-- **An id with a `'|'` is registered**, and what it removes does not read back; two inserts of two
registered ids have one text. -/
theorem not_safe_admitted :
    Admitted (str "a|b") ∧
      (Operation.deserialize (Operation.remove ⟨⟨1, str "a|b"⟩⟩).serialize).toOption = none ∧
      Admitted (str "a") ∧ Admitted (str "a|1,a") ∧
      (Operation.insert ⟨⟨1, str "a"⟩, ⟨1, str "a|1,a"⟩, 65⟩).serialize =
        (Operation.insert ⟨⟨1, str "a|1,a"⟩, ⟨1, str "a"⟩, 65⟩).serialize ∧
      ¬ SafeOnWire (Subtype.val '' (Set.univ : Set {clientId : Str // Admitted clientId})) := by
  have hbar : Admitted (str "a|b") := admitted_iff.mpr (by decide)
  refine ⟨hbar, by decide +kernel, admitted_iff.mpr (by decide), admitted_iff.mpr (by decide),
    by decide +kernel, fun h => ?_⟩
  exact (safe_iff _).mp h ⟨_, hbar⟩ (Set.mem_univ _) (show bar ∈ str "a|b" by decide)

end Server

end CrdtEditor
