import CrdtEditor.Document.Convergence
import CrdtEditor.Persistence.Database

/-!
# Persistence/DocumentStore — documents that survive a restart

`persistent_document.cpp` and `document_store.cpp`.  An operation is recorded before it is applied;
loading replays the stored operations in whatever order the database returns them.  `Reflects` ties
the document in memory to the recorded *set*, which is all that replaying preserves and, by
convergence, all that matters: `restart_equivalent`.
-/

namespace CrdtEditor

open Text

/-- A document in memory and the id its log is filed under. -/
structure PersistentDocument where
  document : Document
  documentId : DocumentID

namespace PersistentDocument

/-- `PersistentDocument::PersistentDocument`. -/
def new (documentId : DocumentID) : PersistentDocument := ⟨.empty, documentId⟩

/-- `apply_operation`: persistence happens before the document in memory is modified. -/
def applyOperation (sha256 : Str → Vector UInt8 32) (db : SQLiteDatabase) (p : PersistentDocument)
    (operation : Operation) :
    Except (Exn × SQLiteDatabase × PersistentDocument) (SQLiteDatabase × PersistentDocument) :=
  match PersistentOperationLog.record sha256 db p.documentId operation with
  | .error e => .error (e, db, p)
  | .ok db' =>
    match p.document.apply operation with
    | .ok d => .ok (db', { p with document := d })
    | .error (e, d) => .error (e, db', { p with document := d })

def getHistory (db : SQLiteDatabase) (order : RowOrder Str) (p : PersistentDocument) :
    Except Exn (List Operation) :=
  PersistentOperationLog.load db order p.documentId

/-- `load`: replay the persisted history. -/
def load (db : SQLiteDatabase) (order : RowOrder Str) (p : PersistentDocument) :
    Except Exn PersistentDocument := do
  let history ← PersistentOperationLog.load db order p.documentId
  match history.foldlM Document.apply p.document with
  | .ok d => pure { p with document := d }
  | .error (e, _) => throw e

/-- The document in memory is the one its recorded operations amount to. -/
structure Reflects (db : SQLiteDatabase) (p : PersistentDocument) : Prop where
  sound : p.document.BufferSound
  settling : Document.Settling {op | op ∈ db.recorded p.documentId} p.document []

section

variable {sha256 : Str → Vector UInt8 32} {db : SQLiteDatabase} {p : PersistentDocument}

/-- **An operation goes through to the database and the document alike.** -/
theorem Reflects.applyOperation (hp : p.Reflects db) (hdb : db.Sound sha256)
    (hdoc : CText.ofStr p.documentId ∈ db.documents) {operation : Operation}
    (hbar : operation.Avoids bar) (hnul : operation.Avoids nul)
    (hcollision : db.NoCollision sha256 p.documentId operation)
    (hconsistent : Operation.Consistent (insert operation {op | op ∈ db.recorded p.documentId})) :
    ∃ db' d, p.applyOperation sha256 db operation = .ok (db', { p with document := d }) ∧
      db'.Sound sha256 ∧ ({ p with document := d } : PersistentDocument).Reflects db' ∧
      db'.documents = db.documents ∧
      (∀ row ∈ db'.operations, row ∈ db.operations ∨ row.documentId = .ofStr p.documentId ∧
        row.operationData.val = operation.serialize) ∧
      ∀ id op, op ∈ db'.recorded id ↔ op ∈ db.recorded id ∨
        CText.ofStr id = CText.ofStr p.documentId ∧ op = operation := by
  obtain ⟨db', hrec, hsound, hdocs, hrows, hrecorded⟩ :=
    hdb.record hdoc hbar hnul hcollision hconsistent
  obtain ⟨d, hd, hb, hs⟩ := hp.settling.apply hp.sound hconsistent
  have hset : insert operation {op | op ∈ db.recorded p.documentId} =
      {op | op ∈ db'.recorded p.documentId} := by
    ext op
    change op = operation ∨ op ∈ db.recorded p.documentId ↔ op ∈ db'.recorded p.documentId
    rw [hrecorded, or_comm]
    simp
  refine ⟨db', d, ?_, hsound, ⟨hb, hset ▸ hs⟩, hdocs, hrows, hrecorded⟩
  simp only [PersistentDocument.applyOperation, hrec, hd]

/-- A document that replayed what is recorded reflects it. -/
theorem reflects_load (hdb : db.Sound sha256) (order : RowOrder Str) (documentId : DocumentID) :
    ∃ history, (new documentId).getHistory db order = .ok history ∧
      (∀ op, op ∈ history ↔ op ∈ db.recorded documentId) ∧
      history.foldlM Document.apply .empty = .ok (Document.after history) ∧
      (new documentId).load db order = .ok ⟨Document.after history, documentId⟩ ∧
      (⟨Document.after history, documentId⟩ : PersistentDocument).Reflects db := by
  obtain ⟨history, hload, hmem⟩ := hdb.load order documentId
  have hset : {op | op ∈ history} = {op | op ∈ db.recorded documentId} := Set.ext hmem
  obtain ⟨hrun, hb, hs⟩ :=
    Document.settling_after history (hset ▸ hdb.consistent documentId)
  refine ⟨history, hload, hmem, hrun, ?_, hb, hset ▸ hs⟩
  simp only [load, new, hload, bind, Except.bind, hrun]
  rfl

/-- Two documents that reflect one record are the same. -/
theorem Reflects.same {q : PersistentDocument} (hp : p.Reflects db) (hq : q.Reflects db)
    (hdb : db.Sound sha256) (hid : p.documentId = q.documentId) :
    Document.Same p.document q.document := by
  have hc := hdb.consistent q.documentId
  exact (hid ▸ hp.settling.settled hp.sound (hid.symm ▸ hc) :
    Document.Settled _ p.document).same (hq.settling.settled hq.sound hc)

end

end PersistentDocument

/-! ## The store -/

structure DocumentStore where
  database : SQLiteDatabase
  documents : UMap DocumentID PersistentDocument

namespace DocumentStore

/-- A store on a new database file. -/
def empty : DocumentStore := ⟨.empty, ∅⟩

/-- `exists`. -/
def contains (s : DocumentStore) (id : DocumentID) : Bool := id ∈ s.documents

def getDocument (s : DocumentStore) (id : DocumentID) : Except Exn PersistentDocument :=
  match AList.lookup id s.documents with
  | some p => .ok p
  | none => .error (.runtimeError (str "Document does not exist: " ++ id))

def createDocument (s : DocumentStore) (id : DocumentID) : Except Exn DocumentStore := do
  if s.contains id then throw (.runtimeError (str "Document already exists: " ++ id))
  let database ← s.database.insertDocument id
  pure ⟨database, AList.insert id (.new id) s.documents⟩

/-- `get_document(id).apply_operation(operation)`. -/
def applyOperation (sha256 : Str → Vector UInt8 32) (s : DocumentStore) (id : DocumentID)
    (operation : Operation) : Except (Exn × DocumentStore) DocumentStore :=
  match s.getDocument id with
  | .error e => .error (e, s)
  | .ok p =>
    match p.applyOperation sha256 s.database operation with
    | .ok (db, p') => .ok ⟨db, AList.insert id p' s.documents⟩
    | .error (e, db, p') => .error (e, ⟨db, AList.insert id p' s.documents⟩)

/-- `DocumentStore::load`: every document the database lists. -/
def load (database : SQLiteDatabase) (rowOrder : DocumentID → RowOrder Str) :
    List DocumentID → UMap DocumentID PersistentDocument →
      Except Exn (UMap DocumentID PersistentDocument)
  | [], documents => .ok documents
  | id :: ids, documents => do
    if id ∈ documents then throw (.runtimeError (str "Document already loaded: " ++ id))
    let p ← (PersistentDocument.new id).load database (rowOrder id)
    load database rowOrder ids (AList.insert id p documents)

/-- `DocumentStore::DocumentStore` on an existing file. -/
def reopen (database : SQLiteDatabase) (documentOrder : RowOrder CText)
    (rowOrder : DocumentID → RowOrder Str) : Except Exn DocumentStore := do
  let documents ← load database rowOrder (database.getDocumentIds documentOrder) ∅
  pure ⟨database, documents⟩

section

variable {sha256 : Str → Vector UInt8 32}

/-- **The store invariant**: every document in memory is in the database, under a C string of its
own, and reflects its record. -/
structure Sound (sha256 : Str → Vector UInt8 32) (s : DocumentStore) : Prop where
  database : s.database.Sound sha256
  documentId : ∀ id p, AList.lookup id s.documents = some p → p.documentId = id
  reflects : ∀ id p, AList.lookup id s.documents = some p → p.Reflects s.database
  stored : ∀ id ∈ s.documents, CText.ofStr id ∈ s.database.documents
  injective : ∀ id ∈ s.documents, ∀ id' ∈ s.documents, CText.ofStr id = CText.ofStr id' → id = id'

theorem sound_empty : empty.Sound sha256 where
  database := SQLiteDatabase.sound_empty sha256
  documentId id p h := by simp [empty] at h
  reflects id p h := by simp [empty] at h
  stored id h := by simp [empty] at h
  injective id h := by simp [empty] at h

theorem getDocument_of_lookup {s : DocumentStore} {id : DocumentID} {p : PersistentDocument}
    (h : AList.lookup id s.documents = some p) : s.getDocument id = .ok p := by
  rw [getDocument, h]

/-- **Creating a document adds an empty one** and leaves every record alone. -/
theorem Sound.createDocument {s s' : DocumentStore} (h : s.Sound sha256) {id : DocumentID}
    (hs : s.createDocument id = .ok s') :
    s'.Sound sha256 ∧ s'.database.operations = s.database.operations ∧
      s'.documents = AList.insert id (.new id) s.documents ∧ s'.database.recorded id = [] := by
  simp only [DocumentStore.createDocument, SQLiteDatabase.insertDocument, bind, Except.bind,
    pure, Except.pure, throw, throwThe, MonadExceptOf.throw] at hs
  split at hs
  · cases hs
  split at hs
  · cases hs
  case _ db hdb =>
    obtain rfl := Except.ok.inj hs
    split at hdb
    · cases hdb
    case isFalse hno =>
      obtain rfl := Except.ok.inj hdb
      have hrecorded : ∀ id', CText.ofStr id' = CText.ofStr id →
          s.database.recorded id' = [] := fun id' he => by
        refine List.eq_nil_iff_forall_not_mem.mpr fun op hop => hno ?_
        obtain ⟨row, hrow, hdoc, -⟩ := SQLiteDatabase.mem_recorded.mp hop
        exact he ▸ hdoc ▸ s.database.foreign_key row hrow
      have hlookup : ∀ id' p, AList.lookup id' (AList.insert id (PersistentDocument.new id)
          s.documents) = some p → id' = id ∧ p = .new id ∨ AList.lookup id' s.documents = some p :=
        fun id' p hp => by
          rw [UMap.lookup_insert] at hp
          split at hp
          case isTrue he => exact Or.inl ⟨he, (Option.some.inj hp).symm⟩
          case isFalse => exact Or.inr hp
      refine ⟨⟨⟨h.database.key, h.database.decodes, h.database.consistent⟩, ?_, ?_, ?_, ?_⟩, rfl,
        rfl, hrecorded id rfl⟩
      · intro id' p hp
        obtain ⟨rfl, rfl⟩ | hp := hlookup id' p hp
        exacts [rfl, h.documentId id' p hp]
      · intro id' p hp
        obtain ⟨rfl, rfl⟩ | hp := hlookup id' p hp
        · refine ⟨Document.bufferSound_empty, ?_⟩
          have hset : {op | op ∈ s.database.recorded id'} = ∅ := by simp [hrecorded id' rfl]
          exact (hset ▸ Document.settling_empty :
            Document.Settling {op | op ∈ s.database.recorded id'} Document.empty [])
        · exact ⟨(h.reflects id' p hp).sound, (h.reflects id' p hp).settling⟩
      · intro id' hid'
        rcases (AList.mem_insert _).mp hid' with rfl | hid'
        · exact List.mem_append_right _ (List.mem_singleton_self _)
        · exact List.mem_append_left _ (h.stored id' hid')
      · intro a ha b hb hab
        obtain rfl | ha' := (AList.mem_insert _).mp ha <;>
          obtain rfl | hb' := (AList.mem_insert _).mp hb
        · rfl
        · exact absurd (hab ▸ h.stored b hb') hno
        · exact absurd (hab ▸ h.stored a ha') hno
        · exact h.injective a ha' b hb' hab

/-- **Applying an operation records it for one document**, and the store stays sound. -/
theorem Sound.applyOperation {s : DocumentStore} (h : s.Sound sha256) {id : DocumentID}
    (hid : id ∈ s.documents) {operation : Operation} (hbar : operation.Avoids bar)
    (hnul : operation.Avoids nul) (hcollision : s.database.NoCollision sha256 id operation)
    (hconsistent : Operation.Consistent (insert operation {op | op ∈ s.database.recorded id})) :
    ∃ s', s.applyOperation sha256 id operation = .ok s' ∧ s'.Sound sha256 ∧
      (∀ id', id' ∈ s'.documents ↔ id' ∈ s.documents) ∧
      (∀ row ∈ s'.database.operations, row ∈ s.database.operations ∨
        row.documentId = .ofStr id ∧ row.operationData.val = operation.serialize) ∧
      ∀ id' op, op ∈ s'.database.recorded id' ↔ op ∈ s.database.recorded id' ∨
        CText.ofStr id' = CText.ofStr id ∧ op = operation := by
  obtain ⟨p, hp⟩ := UMap.mem_iff_lookup.mp hid
  have hpid := h.documentId id p hp
  obtain ⟨db', d, happ, hsound, hreflects, hdocs, hrows, hrecorded⟩ :=
    (h.reflects id p hp).applyOperation h.database (hpid.symm ▸ h.stored id hid) hbar hnul
      (hpid.symm ▸ hcollision) (hpid.symm ▸ hconsistent)
  rw [hpid] at hrows hrecorded
  have hmem : ∀ id', id' ∈ AList.insert id { p with document := d } s.documents ↔
      id' ∈ s.documents := fun id' =>
    (AList.mem_insert _).trans ⟨fun hm => hm.elim (fun he => he ▸ hid) fun hm => hm, Or.inr⟩
  refine ⟨⟨db', AList.insert id { p with document := d } s.documents⟩, ?_,
    ⟨hsound, ?_, ?_, ?_, ?_⟩, hmem, hrows, hrecorded⟩
  · simp only [DocumentStore.applyOperation, getDocument_of_lookup hp, happ]
  · intro id' q hq
    simp only [UMap.lookup_insert] at hq
    split at hq
    case isTrue he =>
      obtain rfl := Option.some.inj hq
      exact hpid.trans he.symm
    case isFalse => exact h.documentId id' q hq
  · intro id' q hq
    simp only [UMap.lookup_insert] at hq
    split at hq
    case isTrue he =>
      obtain rfl := Option.some.inj hq
      exact hreflects
    case isFalse he =>
      have hq' := h.reflects id' q hq
      have hne : CText.ofStr id' ≠ CText.ofStr id := fun hc =>
        he (h.injective id' (UMap.mem_of_lookup hq) id hid hc)
      have hset : {op | op ∈ db'.recorded q.documentId} =
          {op | op ∈ s.database.recorded q.documentId} := by
        ext op
        change op ∈ db'.recorded q.documentId ↔ op ∈ s.database.recorded q.documentId
        rw [h.documentId id' q hq, hrecorded]
        simp [hne]
      exact ⟨hq'.sound, hset ▸ hq'.settling⟩
  · intro id' hid'
    rw [hdocs]
    exact h.stored id' ((hmem id').mp hid')
  · intro a ha b hb
    exact h.injective a ((hmem a).mp ha) b ((hmem b).mp hb)

/-- **A sound database loads**, in any order of its documents and rows. -/
theorem sound_reopen {database : SQLiteDatabase} (h : database.Sound sha256)
    (documentOrder : RowOrder CText) (rowOrder : DocumentID → RowOrder Str) :
    ∃ s, reopen database documentOrder rowOrder = .ok s ∧ s.Sound sha256 ∧
      s.database = database := by
  -- the loop over the ids still to load, all different and not loaded yet
  have hloop : ∀ (ids : List CText) (documents : UMap DocumentID PersistentDocument),
      ids.Nodup → (∀ t ∈ ids, t ∈ database.documents ∧ t.val ∉ documents) →
      (∀ id ∈ documents, ∃ t ∈ database.documents, t.val = id) →
      (∀ id p, AList.lookup id documents = some p → p.documentId = id ∧ p.Reflects database) →
      ∃ documents', load database rowOrder (ids.map CText.val) documents = .ok documents' ∧
        (∀ id ∈ documents', ∃ t ∈ database.documents, t.val = id) ∧
        ∀ id p, AList.lookup id documents' = some p → p.documentId = id ∧ p.Reflects database := by
    intro ids
    induction ids with
    | nil => exact fun documents _ _ hmem hdocs => ⟨documents, rfl, hmem, hdocs⟩
    | cons t ids ih =>
      intro documents hnodup hids hmem hdocs
      obtain ⟨htnot, hnodup⟩ := List.nodup_cons.mp hnodup
      obtain ⟨htdb, htdoc⟩ := hids t List.mem_cons_self
      obtain ⟨history, -, -, -, hload, hreflects⟩ :=
        PersistentDocument.reflects_load h (rowOrder t.val) t.val
      rw [List.map_cons, load]
      simp only [htdoc, hload, bind, Except.bind, if_false]
      refine ih _ hnodup (fun u hu => ⟨(hids u (List.mem_cons_of_mem _ hu)).1, fun hm => ?_⟩)
        (fun id hid => ?_) (fun id p hp => ?_)
      · rcases (AList.mem_insert _).mp hm with he | hm
        · exact htnot (CText.ext he ▸ hu)
        · exact (hids u (List.mem_cons_of_mem _ hu)).2 hm
      · rcases (AList.mem_insert _).mp hid with rfl | hid
        exacts [⟨t, htdb, rfl⟩, hmem id hid]
      · rw [UMap.lookup_insert] at hp
        split at hp
        case isTrue he =>
          obtain rfl := Option.some.inj hp
          exact ⟨he.symm, hreflects⟩
        case isFalse => exact hdocs id p hp
  obtain ⟨documents, hload, hmem, hdocs⟩ := hloop (documentOrder.permute database.documents) ∅
    ((documentOrder.perm _).nodup_iff.mpr database.documents_nodup)
    (fun t ht => ⟨(documentOrder.perm _).mem_iff.mp ht, AList.notMem_empty _⟩)
    (fun id hid => absurd hid (AList.notMem_empty _)) (fun id p hp => by simp at hp)
  refine ⟨⟨database, documents⟩, ?_, ⟨h, fun id p hp => (hdocs id p hp).1,
    fun id p hp => (hdocs id p hp).2, fun id hid => ?_, fun a ha b hb hab => ?_⟩, rfl⟩
  · simp only [reopen, SQLiteDatabase.getDocumentIds, hload, bind, Except.bind]
    rfl
  · obtain ⟨t, ht, rfl⟩ := hmem id hid
    rwa [CText.ofStr_val]
  · obtain ⟨t, -, rfl⟩ := hmem a ha
    obtain ⟨u, -, rfl⟩ := hmem b hb
    rw [CText.ofStr_val, CText.ofStr_val] at hab
    rw [hab]

end

end DocumentStore

end CrdtEditor
