import CrdtEditor.Foundations.Run
import CrdtEditor.Persistence.Restart

/-!
# Persistence/Failures — memory and database under failing calls

The functions of `sqlite_database.cpp` and `document_store.cpp` where any call to SQLite may fail.  A
failed statement changes nothing, and `ROLLBACK` of an open transaction restores the state at its
`BEGIN` (`Connection`).  A call of the store that throws leaves memory and database as they were, and
every run keeps the two equal: `mirrors_along`.
-/

namespace CrdtEditor

open Text

/-! ## Calls that fail -/

inductive Statement
  | insertDocument
  | insertOperation
  | selectOperations
  | deleteOperations
  | deleteDocument
  deriving DecidableEq, Repr

/-- The calls to SQLite whose result code is checked. -/
inductive SqlCall
  | prepare (statement : Statement)
  | bind (statement : Statement) (column : ℕ)
  | step (statement : Statement)
  | beginTransaction
  | commit
  deriving DecidableEq, Repr

/-- Which of the calls of one function fail. -/
abbrev Faults := SqlCall → Bool

/-- The check behind a call: `throw` unless it went through. -/
def Faults.check (faults : Faults) (call : SqlCall) (what : Str) : Except Exn Unit :=
  if faults call then .error (.runtimeError what) else .ok ()

namespace SQLiteDatabase

variable (faults : Faults)

/-- `insert_document`. -/
def insertDocumentWith (db : SQLiteDatabase) (documentId : DocumentID) :
    Except Exn SQLiteDatabase := do
  faults.check (.prepare .insertDocument) (str "Failed to prepare document insert: ")
  faults.check (.bind .insertDocument 1) (str "Failed to bind document ID")
  faults.check (.step .insertDocument) (str "Failed to insert document: ")
  db.insertDocument documentId

/-- The checks of `insert_operation`, all made before its row is there. -/
def checkInsertOperation : Except Exn Unit := do
  faults.check (.prepare .insertOperation) (str "Failed to prepare operation insert: ")
  faults.check (.bind .insertOperation 1) (str "Failed to bind document ID")
  faults.check (.bind .insertOperation 2) (str "Failed to bind operation ID")
  faults.check (.bind .insertOperation 3) (str "Failed to bind operation data")
  faults.check (.step .insertOperation) (str "Failed to insert operation: ")

/-- The checks of `get_operations`. -/
def checkGetOperations : Except Exn Unit := do
  faults.check (.prepare .selectOperations) (str "Failed to prepare operation query: ")
  faults.check (.bind .selectOperations 1) (str "Failed to bind document ID")
  faults.check (.step .selectOperations) (str "Failed to read operations: ")

/-- `DELETE FROM operations WHERE document_id = ?`. -/
def deleteOperations (db : SQLiteDatabase) (documentId : DocumentID) : SQLiteDatabase :=
  { db with
    operations := db.operations.filter (·.documentId ≠ CText.ofStr documentId)
    keys_nodup := db.keys_nodup.sublist (List.filter_sublist.map _)
    foreign_key := fun row hrow => db.foreign_key row (List.mem_of_mem_filter hrow) }

/-- `DELETE FROM documents WHERE document_id = ?`, refused while an operation refers to the row. -/
def deleteDocumentRow (db : SQLiteDatabase) (documentId : DocumentID) : Except Exn SQLiteDatabase :=
  if h : ∃ row ∈ db.operations, row.documentId = CText.ofStr documentId then
    .error (.runtimeError (str "Failed to delete document: FOREIGN KEY constraint failed"))
  else .ok
    { db with
      documents := db.documents.filter (· ≠ CText.ofStr documentId)
      documents_nodup := db.documents_nodup.filter _
      foreign_key := fun row hrow => List.mem_filter.mpr ⟨db.foreign_key row hrow,
        decide_eq_true fun he => h ⟨row, hrow, he⟩⟩ }

end SQLiteDatabase

/-! ## Transactions -/

/-- The database of a connection, and what `ROLLBACK` would restore. -/
structure Connection where
  database : SQLiteDatabase
  begun : Option SQLiteDatabase

namespace Connection

open Except (leaving)

variable (faults : Faults)

def beginTransaction (c : Connection) : Except (Exn × Connection) Connection := do
  leaving c (faults.check .beginTransaction (str "SQLite error: "))
  return { c with begun := some c.database }

def commit (c : Connection) : Except (Exn × Connection) Connection := do
  leaving c (faults.check .commit (str "SQLite error: "))
  return { c with begun := none }

def rollback (c : Connection) : Except (Exn × Connection) Connection :=
  match c.begun with
  | some db => .ok ⟨db, none⟩
  | none =>
    .error (.runtimeError (str "SQLite error: cannot rollback - no transaction is active"), c)

/-- The `try` block of `delete_document`. -/
def deleteStatements (c : Connection) (documentId : DocumentID) :
    Except (Exn × Connection) Connection := do
  let c ← c.beginTransaction faults
  leaving c (faults.check (.prepare .deleteOperations) (str "Failed to prepare operation deletion: "))
  leaving c (faults.check (.bind .deleteOperations 1) (str "Failed to bind document ID"))
  leaving c (faults.check (.step .deleteOperations) (str "Failed to delete operations: "))
  let c := { c with database := c.database.deleteOperations documentId }
  leaving c (faults.check (.prepare .deleteDocument) (str "Failed to prepare document deletion: "))
  leaving c (faults.check (.bind .deleteDocument 1) (str "Failed to bind document ID"))
  leaving c (faults.check (.step .deleteDocument) (str "Failed to delete document: "))
  let database ← leaving c (c.database.deleteDocumentRow documentId)
  { c with database := database }.commit faults

/-- `delete_document`: whatever was thrown, roll back and throw on. -/
def deleteDocument (c : Connection) (documentId : DocumentID) :
    Except (Exn × Connection) Connection :=
  match c.deleteStatements faults documentId with
  | .ok c => .ok c
  | .error (e, c) =>
    match c.rollback with
    | .ok c => .error (e, c)
    | .error (e, c) => .error (e, c)

end Connection

namespace DocumentStore

variable (sha256 : Str → Vector UInt8 32) (faults : Faults)

def createDocumentWith (s : DocumentStore) (id : DocumentID) : Except Exn DocumentStore := do
  if s.contains id then throw (.runtimeError (str "Document already exists: " ++ id))
  let database ← s.database.insertDocumentWith faults id
  pure ⟨database, AList.insert id (.new id) s.documents⟩

def removeDocument (s : DocumentStore) (id : DocumentID) :
    Except (Exn × DocumentStore) DocumentStore :=
  if id ∉ s.documents then .error (.runtimeError (str "Document does not exist: " ++ id), s)
  else
    match Connection.deleteDocument faults ⟨s.database, none⟩ id with
    | .ok c => .ok ⟨c.database, AList.erase id s.documents⟩
    | .error (e, c) => .error (e, { s with database := c.database })

/-- `get_document(id).apply_operation(operation)`: the log is written before the document. -/
def applyOperationWith (s : DocumentStore) (id : DocumentID) (operation : Operation) :
    Except (Exn × DocumentStore) DocumentStore := do
  let _ ← Except.leaving s (s.getDocument id)
  Except.leaving s (SQLiteDatabase.checkInsertOperation faults)
  s.applyOperation sha256 id operation

/-- The calls that change a store. -/
inductive Call
  | create (id : DocumentID)
  | remove (id : DocumentID)
  | apply (id : DocumentID) (operation : Operation)

def call (s : DocumentStore) : Call → Except (Exn × DocumentStore) DocumentStore
  | .create id => Except.leaving s (s.createDocumentWith faults id)
  | .remove id => s.removeDocument faults id
  | .apply id operation => s.applyOperationWith sha256 faults id operation

end DocumentStore

/-! ## A failed call is as good as none -/

/-- A check lets the rest run, or throws before it. -/
theorem Faults.check_bind {α : Type} (faults : Faults) (call : SqlCall) (what : Str)
    {f : Unit → Except Exn α} {r : Except Exn α} (h : f () = r ∨ ∃ e, f () = .error e) :
    (faults.check call what >>= f) = r ∨ ∃ e, (faults.check call what >>= f) = .error e := by
  rw [check]
  split
  exacts [Or.inr ⟨_, rfl⟩, h]

namespace SQLiteDatabase

variable (faults : Faults) (db : SQLiteDatabase) (documentId : DocumentID)

theorem insertDocumentWith_eq : db.insertDocumentWith faults documentId =
    db.insertDocument documentId ∨ ∃ e, db.insertDocumentWith faults documentId = .error e :=
  faults.check_bind _ _ <| faults.check_bind _ _ <| faults.check_bind _ _ <| Or.inl rfl

/-- The database without a document and its operations. -/
structure Without (db' : SQLiteDatabase) : Prop where
  documents : ∀ t, t ∈ db'.documents ↔ t ∈ db.documents ∧ t ≠ CText.ofStr documentId
  operations : ∀ row, row ∈ db'.operations ↔
    row ∈ db.operations ∧ row.documentId ≠ CText.ofStr documentId
  rows : ∀ id, CText.ofStr id ≠ CText.ofStr documentId → db'.rows id = db.rows id

variable {db documentId}

/-- No row refers to a document whose operations are gone. -/
theorem deleteDocumentRow_deleteOperations (db : SQLiteDatabase) (documentId : DocumentID) :
    ∃ db', (db.deleteOperations documentId).deleteDocumentRow documentId = .ok db' ∧
      db.Without documentId db' := by
  have hnone : ¬ ∃ row ∈ (db.deleteOperations documentId).operations,
      row.documentId = CText.ofStr documentId := by
    rintro ⟨row, hrow, he⟩
    exact of_decide_eq_true (List.mem_filter.mp hrow).2 he
  rw [deleteDocumentRow, dif_neg hnone]
  refine ⟨_, rfl, ⟨fun t => ?_, fun row => ?_, fun id hid => ?_⟩⟩
  · simp [deleteOperations]
  · simp [deleteOperations]
  · simp only [SQLiteDatabase.rows, deleteOperations, List.filter_filter]
    congr 1
    refine List.filter_congr fun row _ => ?_
    by_cases he : row.documentId = CText.ofStr id
    · simp [he, hid]
    · simp [he]

end SQLiteDatabase

namespace Connection

open Except (leaving)

/-- **A deletion is done, or can be rolled back**: the transaction is not begun yet, or open since
the database it started from. -/
theorem ends_deleteStatements (faults : Faults) (db : SQLiteDatabase) (documentId : DocumentID) :
    (deleteStatements faults ⟨db, none⟩ documentId).Ends
      (fun c => db.Without documentId c.database)
      (fun c => c = ⟨db, none⟩ ∨ c.begun = some db) := by
  have hbegin : (beginTransaction faults ⟨db, none⟩).Ends (fun c => c = ⟨db, some db⟩)
      (fun c => c = ⟨db, none⟩ ∨ c.begun = some db) :=
    Except.ends_leaving_bind (fun _ _ => rfl) (Or.inl rfl)
  refine hbegin.bind ?_
  rintro _ rfl
  have hopen : ∀ db', (⟨db', some db⟩ : Connection) = ⟨db, none⟩ ∨
      (⟨db', some db⟩ : Connection).begun = some db := fun _ => Or.inr rfl
  refine Except.ends_leaving_bind (fun _ _ => ?_) (hopen _)
  refine Except.ends_leaving_bind (fun _ _ => ?_) (hopen _)
  refine Except.ends_leaving_bind (fun _ _ => ?_) (hopen _)
  refine Except.ends_leaving_bind (fun _ _ => ?_) (hopen _)
  refine Except.ends_leaving_bind (fun _ _ => ?_) (hopen _)
  refine Except.ends_leaving_bind (fun _ _ => ?_) (hopen _)
  obtain ⟨db', hdb', hwithout⟩ := SQLiteDatabase.deleteDocumentRow_deleteOperations
    db documentId
  refine Except.ends_leaving_bind (fun database hdatabase => ?_) (hopen _)
  obtain rfl : db' = database := Except.ok.inj (hdb'.symm.trans hdatabase)
  exact Except.ends_leaving_bind (fun _ _ => hwithout) (hopen _)

/-- **The catch-all of `delete_document` restores the database.** -/
theorem ends_deleteDocument (faults : Faults) (db : SQLiteDatabase) (documentId : DocumentID) :
    (deleteDocument faults ⟨db, none⟩ documentId).Ends
      (fun c => db.Without documentId c.database) (fun c => c.database = db) := by
  have hends := ends_deleteStatements faults db documentId
  rw [deleteDocument]
  revert hends
  match deleteStatements faults ⟨db, none⟩ documentId with
  | .ok c => exact fun hends => hends
  | .error (e, c) =>
    rintro (rfl | hbegun)
    · rfl
    · dsimp only
      rw [rollback, hbegun]
      rfl

end Connection

/-! ## Memory and database -/

namespace DocumentStore

/-- The rows of `documents` are the ids of the documents in memory. -/
def Keyed (s : DocumentStore) : Prop :=
  ∀ id, id ∈ s.documents ↔ ∃ t ∈ s.database.documents, t.val = id

/-- **Memory mirrors the database**: the documents are the rows of the table, and each is what its
stored operations replay to. -/
structure Mirrors (s : DocumentStore) : Prop where
  keys : s.Keyed
  replay : ∀ id p, AList.lookup id s.documents = some p → p.documentId = id ∧ ∀ order,
    ∃ history d, p.getHistory s.database order = .ok history ∧
      history.foldlM Document.apply .empty = .ok d ∧ Document.Same p.document d

variable {sha256 : Str → Vector UInt8 32} {s : DocumentStore}

/-- A sound store whose documents are all in memory mirrors its database. -/
theorem Sound.mirrors (h : s.Sound sha256)
    (hkeys : s.Keyed) : s.Mirrors where
  keys := hkeys
  replay id p hp := by
    have hid := h.documentId id p hp
    refine ⟨hid, fun order => ?_⟩
    obtain ⟨history, hhistory, -, hrun, -, hreflects⟩ :=
      PersistentDocument.reflects_load h.database order id
    refine ⟨history, _, ?_, hrun, (h.reflects id p hp).same hreflects h.database hid⟩
    rw [PersistentDocument.getHistory, hid]
    exact hhistory

/-- What is assumed of a call: no id it names has a byte that delimits texts, inserts of the document
with one id are identical, and digests tell the stored texts apart. -/
def Admits (sha256 : Str → Vector UInt8 32) (s : DocumentStore) : Call → Prop
  | .create id => nul ∉ id
  | .remove id => nul ∉ id
  | .apply id operation => nul ∉ id ∧
    (operation.Avoids nul ∧ operation.Avoids bar ∧ operation.Avoids newline) ∧
    Operation.Consistent {op | op ∈ operation :: s.database.recorded id} ∧
    s.database.NoCollision sha256 id operation

instance Admits.decidable (s : DocumentStore) : ∀ c : Call, Decidable (s.Admits sha256 c)
  | .create id => inferInstanceAs (Decidable (nul ∉ id))
  | .remove id => inferInstanceAs (Decidable (nul ∉ id))
  | .apply _ _ => inferInstanceAs (Decidable (_ ∧ _ ∧ _ ∧ _))

/-! ### One call -/

/-- A new document is a new row. -/
theorem documents_createDocument {s' : DocumentStore} {id : DocumentID}
    (hs : s.createDocument id = .ok s') (t : CText) :
    t ∈ s'.database.documents ↔ t ∈ s.database.documents ∨ t = CText.ofStr id := by
  simp only [createDocument, SQLiteDatabase.insertDocument, bind, Except.bind, pure, Except.pure,
    throw, throwThe, MonadExceptOf.throw] at hs
  split at hs
  · cases hs
  split at hs
  · cases hs
  case _ db hdb =>
    obtain rfl := Except.ok.inj hs
    split at hdb
    · cases hdb
    case isFalse =>
      obtain rfl := Except.ok.inj hdb
      simp

theorem documents_insertOperation {db db' : SQLiteDatabase} {a b c : Str}
    (h : db.insertOperation a b c = .ok db') : db'.documents = db.documents := by
  rw [SQLiteDatabase.insertOperation] at h
  dsimp only at h
  split at h
  · exact Except.ok.inj h ▸ rfl
  split at h
  · exact Except.ok.inj h ▸ rfl
  · cases h

/-- **Creating under failures**: the document is created, or nothing happened. -/
theorem createDocumentWith_eq (faults : Faults) (s : DocumentStore) (id : DocumentID) :
    s.createDocumentWith faults id = s.createDocument id ∨
      ∃ e, s.createDocumentWith faults id = .error e := by
  rw [createDocumentWith, createDocument]
  by_cases hc : s.contains id
  · simp only [hc, if_true]
    exact Or.inl rfl
  · simp only [hc, Bool.false_eq_true, if_false]
    refine (s.database.insertDocumentWith_eq faults id).imp (fun h => by rw [h]) ?_
    rintro ⟨e, h⟩
    exact ⟨e, by rw [h]; rfl⟩

/-- **Applying under failures**: the operation is recorded and applied, or nothing happened. -/
theorem applyOperationWith_eq (faults : Faults) (s : DocumentStore) (id : DocumentID)
    (operation : Operation) :
    s.applyOperationWith sha256 faults id operation = s.applyOperation sha256 id operation ∨
      ∃ e, s.applyOperationWith sha256 faults id operation = .error (e, s) := by
  rw [applyOperationWith]
  cases s.getDocument id with
  | error e => exact Or.inr ⟨e, rfl⟩
  | ok p =>
    cases SQLiteDatabase.checkInsertOperation faults with
    | error e => exact Or.inr ⟨e, rfl⟩
    | ok => exact Or.inl rfl

/-- Applying an operation adds no document. -/
theorem documents_applyOperation {t : DocumentStore} {id : DocumentID} {operation : Operation}
    (ht : s.applyOperation sha256 id operation = .ok t) :
    t.database.documents = s.database.documents := by
  rw [applyOperation] at ht
  cases hp : s.getDocument id with
  | error e => simp [hp] at ht
  | ok p =>
    simp only [hp, PersistentDocument.applyOperation, PersistentOperationLog.record] at ht
    cases hdb : s.database.insertOperation p.documentId (hash sha256 operation.serialize)
        operation.serialize with
    | error e => simp [hdb] at ht
    | ok db =>
      simp only [hdb] at ht
      cases hd : p.document.apply operation with
      | error e => simp [hd] at ht
      | ok d =>
        simp only [hd] at ht
        obtain rfl := Except.ok.inj ht
        exact documents_insertOperation hdb

/-- **A removed document leaves a sound store.** -/
theorem Sound.remove (h : s.Sound sha256) {id : DocumentID} (hid : id ∈ s.documents)
    {db : SQLiteDatabase} (hdb : s.database.Without id db) :
    Sound sha256 ⟨db, AList.erase id s.documents⟩ := by
  have hother : ∀ id', id' ∈ AList.erase id s.documents →
      id' ∈ s.documents ∧ CText.ofStr id' ≠ CText.ofStr id := fun id' hid' => by
    obtain ⟨hne, hid'⟩ := AList.mem_erase.mp hid'
    exact ⟨hid', fun he => hne (h.injective id' hid' id hid he)⟩
  have hlookup : ∀ id' p, AList.lookup id' (AList.erase id s.documents) = some p →
      AList.lookup id' s.documents = some p ∧ CText.ofStr id' ≠ CText.ofStr id :=
    fun id' p hp => by
      refine ⟨?_, (hother id' (UMap.mem_of_lookup hp)).2⟩
      rw [UMap.lookup_erase] at hp
      split at hp
      · cases hp
      · exact hp
  have hrecorded : ∀ id', CText.ofStr id' ≠ CText.ofStr id →
      db.recorded id' = s.database.recorded id' := fun id' hne => by
    rw [SQLiteDatabase.recorded, SQLiteDatabase.recorded, hdb.rows id' hne]
  exact
    { database :=
        { key := fun row hrow => h.database.key row ((hdb.operations row).mp hrow).1
          decodes := fun row hrow => h.database.decodes row ((hdb.operations row).mp hrow).1
          consistent := fun id' => (h.database.consistent id').mono fun op hop => by
            obtain ⟨row, hrow, hrest⟩ := SQLiteDatabase.mem_recorded.mp hop
            exact SQLiteDatabase.mem_recorded.mpr ⟨row, ((hdb.operations row).mp hrow).1, hrest⟩ }
      documentId := fun id' p hp => h.documentId id' p (hlookup id' p hp).1
      reflects := fun id' p hp => by
        obtain ⟨hp, hne⟩ := hlookup id' p hp
        have hreflects := h.reflects id' p hp
        refine ⟨hreflects.sound, ?_⟩
        rw [h.documentId id' p hp, hrecorded id' hne, ← h.documentId id' p hp]
        exact hreflects.settling
      stored := fun id' hid' => by
        obtain ⟨hid', hne⟩ := hother id' hid'
        exact (hdb.documents _).mpr ⟨h.stored id' hid', hne⟩
      injective := fun a ha b hb =>
        h.injective a (hother a ha).1 b (hother b hb).1 }

/-- **A call keeps memory and database together**, and one that throws does nothing. -/
theorem Sound.call (h : s.Sound sha256) (hkeys : s.Keyed) (faults : Faults) {c : Call}
    (hc : s.Admits sha256 c) :
    (s.call sha256 faults c).Ends (fun t => t.Sound sha256 ∧ t.Keyed) (· = s) := by
  match c, hc with
  | .create id, hid =>
    rw [DocumentStore.call]
    obtain hcreate | ⟨e, hcreate⟩ := createDocumentWith_eq faults s id <;> rw [hcreate]
    · cases ht : s.createDocument id with
      | error e => rfl
      | ok t =>
        obtain ⟨hsound, -, hdocs, -⟩ := h.createDocument ht
        refine ⟨hsound, fun id' => ?_⟩
        simp only [hdocs, AList.mem_insert, documents_createDocument ht, or_and_right, exists_or,
          exists_eq_left, CText.val_ofStr hid]
        rw [or_comm, hkeys id', eq_comm]
    · rfl
  | .remove id, hnul =>
    rw [DocumentStore.call, removeDocument]
    split
    case isTrue => rfl
    case isFalse hid =>
      have hid := not_not.mp hid
      have hends := Connection.ends_deleteDocument faults s.database id
      revert hends
      match Connection.deleteDocument faults ⟨s.database, none⟩ id with
      | .error (e, c) =>
        intro hc
        change (⟨c.database, s.documents⟩ : DocumentStore) = s
        rw [show c.database = s.database from hc]
      | .ok c =>
        intro hc
        replace hc : s.database.Without id c.database := hc
        refine ⟨h.remove hid hc, fun id' => ?_⟩
        simp only [AList.mem_erase, hc.documents, hkeys id']
        constructor
        · rintro ⟨hne, t, ht, rfl⟩
          exact ⟨t, ⟨ht, fun he => hne (by rw [he, CText.val_ofStr hnul])⟩, rfl⟩
        · rintro ⟨t, ⟨ht, hne⟩, rfl⟩
          exact ⟨fun he => hne (by rw [← he, CText.ofStr_val]), t, ht, rfl⟩
  | .apply id operation, ⟨hnul, ⟨hopnul, hbar, _⟩, hconsistent, hcollision⟩ =>
    rw [DocumentStore.call]
    by_cases hid : id ∈ s.documents
    · obtain ⟨t, ht, hsound, hdocs, -⟩ := h.applyOperation hid hbar hopnul hcollision
        (hconsistent.mono fun op hop => List.mem_cons.mpr hop)
      obtain hwith | ⟨e, hwith⟩ := applyOperationWith_eq faults s id operation <;> rw [hwith]
      · rw [ht]
        exact ⟨hsound, fun id' => by rw [hdocs, documents_applyOperation ht]; exact hkeys id'⟩
      · rfl
    · rw [applyOperationWith, getDocument, AList.lookup_eq_none.mpr hid]
      rfl

/-! ### Runs -/

/-- **Under any failures memory mirrors the database after every call**, and a call that throws
leaves both as they were. -/
theorem mirrors_along {calls : List (Faults × Call)}
    (h : Along (fun s c => (call sha256 c.1 s c.2).state) (fun s c => s.Admits sha256 c.2) .empty
      calls) :
    Along (fun s c => (call sha256 c.1 s c.2).state)
      (fun s c => (call sha256 c.1 s c.2).state.Mirrors ∧
        ((call sha256 c.1 s c.2).toBool = false → (call sha256 c.1 s c.2).state = s)) .empty
      calls := by
  have hstart : (empty : DocumentStore).Sound sha256 ∧ (empty : DocumentStore).Keyed :=
    ⟨sound_empty, fun id => by simp [empty, SQLiteDatabase.empty]⟩
  suffices hstep : ∀ (s : DocumentStore) (c : Faults × Call), s.Sound sha256 ∧ s.Keyed →
      s.Admits sha256 c.2 →
      ((call sha256 c.1 s c.2).state.Mirrors ∧
        ((call sha256 c.1 s c.2).toBool = false → (call sha256 c.1 s c.2).state = s)) ∧
      ((call sha256 c.1 s c.2).state.Sound sha256 ∧ (call sha256 c.1 s c.2).state.Keyed) from
    Along.of_invariant hstep hstart h
  intro s c hs hc
  have hends := hs.1.call hs.2 c.1 hc
  revert hends
  cases call sha256 c.1 s c.2 with
  | ok t => exact fun ht => ⟨⟨ht.1.mirrors ht.2, fun hno => absurd hno (by simp [Except.toBool])⟩, ht⟩
  | error e =>
    intro he
    replace he : e.2 = s := he
    simp only [Except.state, he]
    exact ⟨⟨hs.1.mirrors hs.2, fun _ => trivial⟩, hs⟩

/-- A document created, written to and removed, with failures on the way. -/
def sampleCalls : List (Faults × Call) :=
  [(fun _ => false, .create (str "d")),
   (fun c => c = .bind .insertOperation 3, .apply (str "d") (.remove ⟨⟨1, str "a"⟩⟩)),
   (fun _ => false, .apply (str "d") (.insert ⟨rootId, ⟨1, str "a"⟩, 65⟩)),
   (fun c => c = .step .insertDocument, .create (str "e")),
   (fun c => c = .beginTransaction, .remove (str "d")),
   (fun c => c = .commit, .remove (str "d")),
   (fun _ => false, .remove (str "d")),
   (fun _ => false, .create (str "d"))]

theorem mirrors_along_sample :
    Along (fun s c => (call sampleDigest c.1 s c.2).state)
      (fun s c => (call sampleDigest c.1 s c.2).state.Mirrors ∧
        ((call sampleDigest c.1 s c.2).toBool = false →
          (call sampleDigest c.1 s c.2).state = s)) .empty sampleCalls :=
  mirrors_along (by decide +kernel)

end DocumentStore

end CrdtEditor
