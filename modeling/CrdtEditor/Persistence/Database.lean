import CrdtEditor.Document.Operation
import CrdtEditor.Wire.OperationCodec

/-!
# Persistence/Database — the two tables and the operation log

`sqlite_database.cpp`, `hash.cpp` and `persistance_log.cpp`.  Texts enter and leave the database as C
strings (`CText`), so a text with a NUL byte is stored cut short; the key of an operation is the hash
of the whole text.  The constraints of the schema are fields of `SQLiteDatabase`: a statement that
would break one fails, or is ignored where the source says `INSERT OR IGNORE`.

SHA-256 is a parameter; a `SELECT` without `ORDER BY` may return its rows in any order (`RowOrder`).
-/

namespace CrdtEditor

open Text

abbrev DocumentID := Str

/-! ## Texts, rows and their order -/

/-- A text as SQLite is handed it with length `-1` and as `const char*` returns it. -/
@[ext] structure CText where
  val : Str
  nul_notMem : nul ∉ val
  deriving DecidableEq

/-- The text up to its first NUL byte. -/
def CText.ofStr (s : Str) : CText where
  val := s.takeWhile (· ≠ nul)
  nul_notMem h := by simpa using List.mem_takeWhile_imp h

theorem CText.val_ofStr {s : Str} (h : nul ∉ s) : (CText.ofStr s).val = s :=
  List.takeWhile_eq_self_iff.mpr fun _ hb => decide_eq_true fun he => h (he ▸ hb)

@[simp] theorem CText.ofStr_val (t : CText) : CText.ofStr t.val = t :=
  CText.ext (CText.val_ofStr t.nul_notMem)

structure Row where
  documentId : CText
  operationId : CText
  operationData : CText
  deriving DecidableEq

/-- The primary key of an operation. -/
def Row.key (row : Row) : CText × CText := (row.documentId, row.operationId)

/-- An order in which the database may return the rows of a query. -/
structure RowOrder (α : Type) where
  permute : List α → List α
  perm : ∀ l, (permute l).Perm l

/-- The order of insertion. -/
def RowOrder.inserted (α : Type) : RowOrder α := ⟨id, fun l => List.Perm.refl l⟩

/-! ## The tables -/

/-- The `documents` and `operations` tables, with their primary and foreign keys. -/
structure SQLiteDatabase where
  documents : List CText
  operations : List Row
  documents_nodup : documents.Nodup
  keys_nodup : (operations.map Row.key).Nodup
  foreign_key : ∀ row ∈ operations, row.documentId ∈ documents

namespace SQLiteDatabase

/-- `initialize_schema` on a new file. -/
def empty : SQLiteDatabase where
  documents := []
  operations := []
  documents_nodup := List.nodup_nil
  keys_nodup := List.nodup_nil
  foreign_key _ h := absurd h List.not_mem_nil

/-- `INSERT INTO documents`. -/
def insertDocument (db : SQLiteDatabase) (documentId : DocumentID) : Except Exn SQLiteDatabase :=
  if h : CText.ofStr documentId ∈ db.documents then
    .error (.runtimeError (str "Failed to insert document: UNIQUE constraint failed"))
  else .ok
    { db with
      documents := db.documents ++ [CText.ofStr documentId]
      documents_nodup := List.nodup_append.mpr ⟨db.documents_nodup, List.nodup_singleton _,
        fun _ ha _ hb hab => h (List.mem_singleton.mp hb ▸ hab ▸ ha)⟩
      foreign_key := fun row hrow => List.mem_append_left _ (db.foreign_key row hrow) }

/-- `INSERT OR IGNORE INTO operations`: a row whose key exists is left alone, one whose document
does not is refused. -/
def insertOperation (db : SQLiteDatabase) (documentId operationId operationData : Str) :
    Except Exn SQLiteDatabase :=
  let row : Row := ⟨.ofStr documentId, .ofStr operationId, .ofStr operationData⟩
  if hkey : row.key ∈ db.operations.map Row.key then .ok db
  else if hdoc : row.documentId ∈ db.documents then .ok
    { db with
      operations := db.operations ++ [row]
      keys_nodup := by
        rw [List.map_append, List.map_singleton]
        exact List.nodup_append.mpr ⟨db.keys_nodup, List.nodup_singleton _,
          fun _ ha _ hb hab => hkey (List.mem_singleton.mp hb ▸ hab ▸ ha)⟩
      foreign_key := fun r hr => (List.mem_append.mp hr).elim (db.foreign_key r) fun h =>
        List.mem_singleton.mp h ▸ hdoc }
  else .error (.runtimeError (str "Failed to insert operation: FOREIGN KEY constraint failed"))

/-- `SELECT document_id FROM documents`. -/
def getDocumentIds (db : SQLiteDatabase) (order : RowOrder CText) : List DocumentID :=
  (order.permute db.documents).map CText.val

/-- The texts stored for a document, in the order of insertion. -/
def rows (db : SQLiteDatabase) (documentId : DocumentID) : List Str :=
  (db.operations.filter (·.documentId = CText.ofStr documentId)).map (·.operationData.val)

/-- `SELECT operation_data FROM operations WHERE document_id = ?`. -/
def getOperations (db : SQLiteDatabase) (order : RowOrder Str) (documentId : DocumentID) :
    List Str :=
  order.permute (db.rows documentId)

/-- The operations recorded for a document: what its rows decode to. -/
def recorded (db : SQLiteDatabase) (documentId : DocumentID) : List Operation :=
  (db.rows documentId).filterMap fun data => (Operation.deserialize data).toOption

theorem mem_rows {db : SQLiteDatabase} {documentId : DocumentID} {data : Str} :
    data ∈ db.rows documentId ↔
      ∃ row ∈ db.operations, row.documentId = CText.ofStr documentId ∧
        row.operationData.val = data := by
  simp only [rows, List.mem_map, List.mem_filter, decide_eq_true_eq, and_assoc]

theorem mem_recorded {db : SQLiteDatabase} {documentId : DocumentID} {op : Operation} :
    op ∈ db.recorded documentId ↔
      ∃ row ∈ db.operations, row.documentId = CText.ofStr documentId ∧
        Operation.deserialize row.operationData.val = .ok op := by
  simp only [recorded, List.mem_filterMap, mem_rows, Except.toOption_eq_some]
  constructor
  · rintro ⟨_, ⟨row, hrow, hdoc, rfl⟩, hdec⟩
    exact ⟨row, hrow, hdoc, hdec⟩
  · rintro ⟨row, hrow, hdoc, hdec⟩
    exact ⟨_, ⟨row, hrow, hdoc, rfl⟩, hdec⟩

/-- Two ids with one C string name one set of rows. -/
theorem recorded_congr (db : SQLiteDatabase) {id id' : DocumentID}
    (h : CText.ofStr id = CText.ofStr id') : db.recorded id = db.recorded id' := by
  rw [recorded, recorded, rows, rows, h]

end SQLiteDatabase

/-! ## Hashing -/

def hexDigit (n : ℕ) : UInt8 := if n < 10 then UInt8.ofNat (48 + n) else UInt8.ofNat (87 + n)

/-- `to_hex`: two lower-case digits a byte. -/
def toHex (digest : Vector UInt8 32) : Str :=
  digest.toList.flatMap fun byte => [hexDigit (byte.toNat / 16), hexDigit (byte.toNat % 16)]

theorem hexDigit_injOn : ∀ a < 16, ∀ b < 16, hexDigit a = hexDigit b → a = b := by decide

theorem hexDigit_ne_nul : ∀ a < 16, hexDigit a ≠ nul := by decide

/-- A digest is read back from its digits. -/
theorem toHex_injective : Function.Injective toHex := by
  have hbyte : ∀ a : UInt8, a.toNat / 16 < 16 ∧ a.toNat % 16 < 16 := fun a => by
    have := a.toNat_lt
    omega
  have hlist : ∀ l l' : List UInt8,
      (l.flatMap fun byte => [hexDigit (byte.toNat / 16), hexDigit (byte.toNat % 16)]) =
        (l'.flatMap fun byte => [hexDigit (byte.toNat / 16), hexDigit (byte.toNat % 16)]) →
      l = l' := by
    intro l
    induction l with
    | nil =>
      intro l' h
      cases l' with
      | nil => rfl
      | cons b l' => simp at h
    | cons a l ih =>
      intro l' h
      cases l' with
      | nil => simp at h
      | cons b l' =>
        simp only [List.flatMap_cons, List.cons_append, List.nil_append, List.cons.injEq] at h
        obtain ⟨hhi, hlo, hrest⟩ := h
        have hdiv := hexDigit_injOn _ (hbyte a).1 _ (hbyte b).1 hhi
        have hmod := hexDigit_injOn _ (hbyte a).2 _ (hbyte b).2 hlo
        have hab : a = b := UInt8.toNat_inj.mp (by omega)
        rw [hab, ih l' hrest]
  intro a b hab
  exact Vector.toList_inj.mp (hlist _ _ hab)

section Log

variable (sha256 : Str → Vector UInt8 32)

/-- `hash`: the digest of the data in hexadecimal. -/
def hash (data : Str) : Str := toHex (sha256 data)

theorem nul_notMem_hash (data : Str) : nul ∉ hash sha256 data := by
  rw [hash, toHex, List.mem_flatMap]
  rintro ⟨a, -, ha⟩
  have := a.toNat_lt
  rcases List.mem_cons.mp ha with h | h
  · exact hexDigit_ne_nul (a.toNat / 16) (by omega) h.symm
  · exact hexDigit_ne_nul (a.toNat % 16) (by omega) (List.mem_singleton.mp h).symm

/-! ## The log of a document -/

namespace PersistentOperationLog

/-- `record`: the serialized operation, keyed by its hash. -/
def record (db : SQLiteDatabase) (documentId : DocumentID) (operation : Operation) :
    Except Exn SQLiteDatabase :=
  let operationData := operation.serialize
  db.insertOperation documentId (hash sha256 operationData) operationData

/-- `load`: every stored text, decoded. -/
def load (db : SQLiteDatabase) (order : RowOrder Str) (documentId : DocumentID) :
    Except Exn (List Operation) :=
  (db.getOperations order documentId).mapM Operation.deserialize

end PersistentOperationLog

namespace SQLiteDatabase

/-- **What the log keeps true of the tables**: keys are hashes of the stored texts, every text
decodes, and the inserts of a document agree on their ids. -/
structure Sound (db : SQLiteDatabase) : Prop where
  key : ∀ row ∈ db.operations, row.operationId = .ofStr (hash sha256 row.operationData.val)
  decodes : ∀ row ∈ db.operations, ∃ op, Operation.deserialize row.operationData.val = .ok op
  consistent : ∀ documentId, Operation.Consistent {op | op ∈ db.recorded documentId}

/-- No stored text of the document has the digest of the new one, unless it is the new one. -/
def NoCollision (db : SQLiteDatabase) (documentId : DocumentID) (operation : Operation) : Prop :=
  ∀ data ∈ db.rows documentId, sha256 data = sha256 operation.serialize →
    data = operation.serialize

instance (db : SQLiteDatabase) (documentId : DocumentID) (operation : Operation) :
    Decidable (db.NoCollision sha256 documentId operation) :=
  inferInstanceAs (Decidable (∀ data ∈ db.rows documentId, _ → _))

theorem sound_empty : empty.Sound sha256 where
  key _ h := absurd h List.not_mem_nil
  decodes _ h := absurd h List.not_mem_nil
  consistent _ _ _ h := absurd h List.not_mem_nil

variable {sha256} {db : SQLiteDatabase} {documentId : DocumentID} {operation : Operation}

/-- **Recording an operation adds exactly that operation**, to one document: a row with its key
holds its text already. -/
theorem Sound.record (h : db.Sound sha256) (hdoc : CText.ofStr documentId ∈ db.documents)
    (hbar : operation.Avoids bar) (hnul : operation.Avoids nul)
    (hcollision : db.NoCollision sha256 documentId operation)
    (hconsistent : Operation.Consistent (insert operation {op | op ∈ db.recorded documentId})) :
    ∃ db', PersistentOperationLog.record sha256 db documentId operation = .ok db' ∧
      db'.Sound sha256 ∧ db'.documents = db.documents ∧
      (∀ row ∈ db'.operations, row ∈ db.operations ∨ row.documentId = .ofStr documentId ∧
        row.operationData.val = operation.serialize) ∧
      ∀ id op, op ∈ db'.recorded id ↔ op ∈ db.recorded id ∨
        CText.ofStr id = CText.ofStr documentId ∧ op = operation := by
  have hdata : (CText.ofStr operation.serialize).val = operation.serialize :=
    CText.val_ofStr (Operation.notMem_serialize (by decide) hnul)
  have hdecode : Operation.deserialize operation.serialize = .ok operation :=
    Operation.deserialize_serialize hbar
  rw [PersistentOperationLog.record, insertOperation]
  simp only
  split
  case isTrue hkey =>
    obtain ⟨row, hrow, hkey⟩ := List.mem_map.mp hkey
    obtain ⟨hid, hop⟩ := Prod.mk.inj hkey
    rw [h.key row hrow] at hop
    have hhash := congrArg CText.val hop
    rw [CText.val_ofStr (nul_notMem_hash _ _), CText.val_ofStr (nul_notMem_hash _ _)] at hhash
    have htext := hcollision _ (mem_rows.mpr ⟨row, hrow, hid, rfl⟩) (toHex_injective hhash)
    have hmem : operation ∈ db.recorded documentId :=
      mem_recorded.mpr ⟨row, hrow, hid, htext ▸ hdecode⟩
    refine ⟨db, rfl, h, rfl, fun row hrow => Or.inl hrow, fun id op => ⟨Or.inl, ?_⟩⟩
    rintro (hop | ⟨he, rfl⟩)
    exacts [hop, db.recorded_congr he ▸ hmem]
  case isFalse hkey =>
    have hrecorded : ∀ (db' : SQLiteDatabase), db'.operations = db.operations ++
        [⟨.ofStr documentId, .ofStr (hash sha256 operation.serialize),
          .ofStr operation.serialize⟩] →
        ∀ id op, op ∈ db'.recorded id ↔ op ∈ db.recorded id ∨
          CText.ofStr id = CText.ofStr documentId ∧ op = operation := by
      intro db' hdb' id op
      rw [mem_recorded, mem_recorded, hdb']
      simp only [List.mem_append, List.mem_singleton, or_and_right, exists_or, exists_eq_left,
        hdata, hdecode, Except.ok.injEq]
      rw [eq_comm (a := CText.ofStr documentId), eq_comm (a := operation)]
    refine ⟨_, rfl, ⟨fun row hrow => ?_, fun row hrow => ?_, fun id => ?_⟩, rfl,
      fun row hrow => ?_, hrecorded _ rfl⟩
    · rcases List.mem_append.mp hrow with hrow | hrow
      · exact h.key row hrow
      · rw [List.mem_singleton.mp hrow, hdata]
    · rcases List.mem_append.mp hrow with hrow | hrow
      · exact h.decodes row hrow
      · rw [List.mem_singleton.mp hrow, hdata]
        exact ⟨operation, hdecode⟩
    · by_cases hid : CText.ofStr id = CText.ofStr documentId
      · refine hconsistent.mono fun op hop => ?_
        rcases (hrecorded _ rfl id op).mp hop with hop | ⟨-, rfl⟩
        · exact Set.mem_insert_of_mem _ (db.recorded_congr hid ▸ hop)
        · exact Set.mem_insert _ _
      · refine (h.consistent id).mono fun op hop => ?_
        exact ((hrecorded _ rfl id op).mp hop).resolve_right fun hr => hid hr.1
    · rcases List.mem_append.mp hrow with hrow | hrow
      · exact Or.inl hrow
      · rw [List.mem_singleton.mp hrow]
        exact Or.inr ⟨rfl, hdata⟩

/-- **The log returns the recorded operations**, in the order of the rows. -/
theorem Sound.load (h : db.Sound sha256) (order : RowOrder Str) (documentId : DocumentID) :
    ∃ history, PersistentOperationLog.load db order documentId = .ok history ∧
      ∀ op, op ∈ history ↔ op ∈ db.recorded documentId := by
  have hdecode : ∀ data ∈ db.getOperations order documentId,
      ∃ op, Operation.deserialize data = .ok op := fun data hd => by
    obtain ⟨row, hrow, -, rfl⟩ := mem_rows.mp ((order.perm _).mem_iff.mp hd)
    exact h.decodes row hrow
  exact ⟨_, Except.mapM_eq_ok_filterMap hdecode, fun op => ((order.perm _).filterMap _).mem_iff⟩

end SQLiteDatabase

end Log

end CrdtEditor
