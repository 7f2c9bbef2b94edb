import CrdtEditor.Persistence.DocumentStore

/-!
# Persistence/Growth — what recording adds, whatever the texts are

`Sound` needs operations without NUL bytes and digests without collisions.  This module asks for
nothing: a record only grows, by what its new row decodes to, and a history that loads is the record.
-/

namespace CrdtEditor

open Text

/-- What the stored text of an operation decodes to. -/
def Operation.StoredAs (operation op : Operation) : Prop :=
  Operation.deserialize (CText.ofStr operation.serialize).val = .ok op

/-- **An insert is stored as itself**, or as no insert. -/
theorem Operation.StoredAs.insert {operation : Operation} {oper : InsertOperation}
    (h : operation.StoredAs (.insert oper)) (hbar : operation.Avoids bar) :
    operation = .insert oper :=
  insert_of_deserialize_takeWhile (by decide) hbar h

/-- Without a NUL byte an operation is stored as itself. -/
theorem Operation.StoredAs.eq_of_avoids {operation op : Operation} (h : operation.StoredAs op)
    (hnul : operation.Avoids nul) (hbar : operation.Avoids bar) : op = operation := by
  rw [StoredAs, CText.val_ofStr (notMem_serialize (by decide) hnul), deserialize_serialize hbar] at h
  exact (Except.ok.inj h).symm

/-- What is stored has no byte that the operation had not. -/
theorem Operation.StoredAs.avoids {operation op : Operation} (h : operation.StoredAs op) :
    op.Avoids bar ∧ ∀ c < 32, operation.Avoids c → op.Avoids c := by
  obtain ⟨hbar, havoid⟩ := avoids_of_deserialize h
  exact ⟨hbar, fun c hc ha => havoid c fun hm =>
    notMem_serialize hc ha ((List.takeWhile_sublist _).subset hm)⟩

/-- **A history that loads is the record**, in some order. -/
theorem PersistentOperationLog.perm_load {db : SQLiteDatabase} {order : RowOrder Str}
    {documentId : DocumentID} {history : List Operation}
    (h : PersistentOperationLog.load db order documentId = .ok history) :
    history.Perm (db.recorded documentId) := by
  have hdecode : ∀ data ∈ db.getOperations order documentId,
      ∃ op, Operation.deserialize data = .ok op := fun data hdata => by
    by_contra hno
    cases hdec : Operation.deserialize data with
    | ok op => exact hno ⟨op, hdec⟩
    | error e => exact Except.mapM_ne_ok hdata hdec history h
  obtain rfl := Except.ok.inj (h.symm.trans (Except.mapM_eq_ok_filterMap hdecode))
  exact (order.perm _).filterMap _

/-- A record that grew by an operation for a document, if at all. -/
structure SQLiteDatabase.Grown (db db' : SQLiteDatabase) (documentId : DocumentID)
    (operation : Operation) : Prop where
  kept : ∀ id, ∀ op ∈ db.recorded id, op ∈ db'.recorded id
  added : ∀ id, ∀ op ∈ db'.recorded id, op ∈ db.recorded id ∨
    CText.ofStr id = CText.ofStr documentId ∧ operation.StoredAs op

theorem SQLiteDatabase.grown_refl (db : SQLiteDatabase) (documentId : DocumentID)
    (operation : Operation) : db.Grown db documentId operation :=
  ⟨fun _ _ h => h, fun _ _ h => Or.inl h⟩

theorem PersistentOperationLog.grown_record {sha256 : Str → Vector UInt8 32}
    {db db' : SQLiteDatabase} {documentId : DocumentID} {operation : Operation}
    (h : PersistentOperationLog.record sha256 db documentId operation = .ok db') :
    db.Grown db' documentId operation := by
  rw [record, SQLiteDatabase.insertOperation] at h
  dsimp only at h
  split at h
  case isTrue =>
    obtain rfl := Except.ok.inj h
    exact db.grown_refl documentId operation
  case isFalse =>
    split at h
    case isFalse => cases h
    case isTrue =>
      obtain rfl := Except.ok.inj h
      refine ⟨fun id op hop => ?_, fun id op hop => ?_⟩
      · obtain ⟨row, hrow, hdoc, hdec⟩ := SQLiteDatabase.mem_recorded.mp hop
        exact SQLiteDatabase.mem_recorded.mpr ⟨row, List.mem_append_left _ hrow, hdoc, hdec⟩
      · obtain ⟨row, hrow, hdoc, hdec⟩ := SQLiteDatabase.mem_recorded.mp hop
        rcases List.mem_append.mp hrow with hrow | hrow
        · exact Or.inl (SQLiteDatabase.mem_recorded.mpr ⟨row, hrow, hdoc, hdec⟩)
        · rw [List.mem_singleton.mp hrow] at hdoc hdec
          exact Or.inr ⟨hdoc.symm, hdec⟩

namespace DocumentStore

/-- Every document is filed under its own id. -/
def Filed (s : DocumentStore) : Prop :=
  ∀ id p, AList.lookup id s.documents = some p → p.documentId = id

theorem filed_empty : Filed .empty := fun id p h => by simp [empty] at h

theorem Filed.insert {s : DocumentStore} (h : s.Filed) {database : SQLiteDatabase}
    {id : DocumentID} {p : PersistentDocument} (hp : p.documentId = id) :
    Filed ⟨database, AList.insert id p s.documents⟩ := fun id' p' hl => by
  rw [UMap.lookup_insert] at hl
  split at hl
  case isTrue he => rw [← Option.some.inj hl, hp, he]
  case isFalse => exact h id' p' hl

/-- **What a call of the store keeps**: its documents stay, filed under their own ids, and the record
grows by an operation for a document, if at all. -/
structure Extended (s t : DocumentStore) (documentId : DocumentID) (operation : Operation) : Prop where
  filed : t.Filed
  documents : ∀ id ∈ s.documents, id ∈ t.documents
  grown : s.database.Grown t.database documentId operation

/-- Creating a document records nothing. -/
theorem Filed.createDocument {s s' : DocumentStore} (h : s.Filed) {id : DocumentID}
    (hs : s.createDocument id = .ok s') :
    s'.Filed ∧ (∀ id', id' ∈ s'.documents ↔ id' = id ∨ id' ∈ s.documents) ∧
      ∀ id', s'.database.recorded id' = s.database.recorded id' := by
  simp only [DocumentStore.createDocument, SQLiteDatabase.insertDocument, bind, Except.bind,
    pure, Except.pure, throw, throwThe, MonadExceptOf.throw] at hs
  split at hs
  · cases hs
  split at hs
  · cases hs
  case _ db hdb =>
    obtain rfl := Except.ok.inj hs
    split at hdb
    · cases hdb
    case isFalse =>
      obtain rfl := Except.ok.inj hdb
      exact ⟨h.insert rfl, fun id' => AList.mem_insert _, fun _ => rfl⟩

/-- What applying an operation leaves, also when it throws. -/
theorem Filed.applyOperation {s : DocumentStore} (h : s.Filed) (sha256 : Str → Vector UInt8 32)
    (id : DocumentID) (operation : Operation) :
    (s.applyOperation sha256 id operation).Ends (s.Extended · id operation)
      (s.Extended · id operation) := by
  have hsame := s.database.grown_refl id operation
  have hinsert : ∀ (p : PersistentDocument) (id' : DocumentID), id' ∈ s.documents →
      id' ∈ AList.insert id p s.documents := fun p id' hid' =>
    (AList.mem_insert _).mpr (Or.inr hid')
  rw [DocumentStore.applyOperation, getDocument]
  cases hl : AList.lookup id s.documents with
  | none => exact ⟨h, fun _ hid => hid, hsame⟩
  | some p =>
    have hid := h id p hl
    dsimp only
    rw [PersistentDocument.applyOperation]
    cases hrec : PersistentOperationLog.record sha256 s.database p.documentId operation with
    | error e => exact ⟨h.insert hid, hinsert _, hsame⟩
    | ok db =>
      have hgrown := hid ▸ PersistentOperationLog.grown_record hrec
      cases p.document.apply operation with
      | ok d => exact ⟨h.insert hid, hinsert _, hgrown⟩
      | error e => exact ⟨h.insert hid, hinsert _, hgrown⟩

/-- A store that was loaded is filed. -/
theorem filed_load {database : SQLiteDatabase} {rowOrder : DocumentID → RowOrder Str} :
    ∀ {ids : List DocumentID} {documents documents' : UMap DocumentID PersistentDocument},
      (∀ id p, AList.lookup id documents = some p → p.documentId = id) →
      load database rowOrder ids documents = .ok documents' →
      ∀ id p, AList.lookup id documents' = some p → p.documentId = id
  | [], documents, documents', h, hload => by
      obtain rfl : documents = documents' := Except.ok.inj hload
      exact h
  | id :: ids, documents, documents', h, hload => by
      rw [load] at hload
      by_cases hid : id ∈ documents
      · simp [hid, bind, Except.bind, throw, throwThe, MonadExceptOf.throw] at hload
      · simp only [hid, if_false] at hload
        cases hp : (PersistentDocument.new id).load database (rowOrder id) with
        | error e => simp only [hp, bind, Except.bind] at hload; cases hload
        | ok p =>
          simp only [hp, bind, Except.bind] at hload
          have hpid : p.documentId = id := by
            rw [PersistentDocument.load] at hp
            cases hlog : PersistentOperationLog.load database (rowOrder id)
                (PersistentDocument.new id).documentId with
            | error e => simp only [hlog, bind, Except.bind] at hp; cases hp
            | ok history =>
              simp only [hlog, bind, Except.bind] at hp
              cases hrun : history.foldlM Document.apply (PersistentDocument.new id).document with
              | error e => simp only [hrun] at hp; cases hp
              | ok d =>
                simp only [hrun] at hp
                obtain rfl := Except.ok.inj hp
                rfl
          have hfiled : Filed ⟨database, documents⟩ := h
          have hinsert : Filed ⟨database, AList.insert id p documents⟩ := hfiled.insert hpid
          exact filed_load hinsert hload

theorem filed_reopen {database : SQLiteDatabase} {documentOrder : RowOrder CText}
    {rowOrder : DocumentID → RowOrder Str} {s : DocumentStore}
    (h : reopen database documentOrder rowOrder = .ok s) : s.Filed := by
  rw [reopen] at h
  cases hload : load database rowOrder (database.getDocumentIds documentOrder) ∅ with
  | error e => simp only [hload, bind, Except.bind] at h; cases h
  | ok documents =>
    simp only [hload, bind, Except.bind, pure, Except.pure] at h
    obtain rfl := Except.ok.inj h
    exact filed_load (fun id p hp => by simp at hp) hload

end DocumentStore

end CrdtEditor
