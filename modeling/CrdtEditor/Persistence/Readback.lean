import CrdtEditor.Persistence.Growth
import CrdtEditor.Persistence.Restart
import CrdtEditor.Wire.Message

/-!
# Persistence/Readback — the log gives back what was recorded

Operations that were decoded from a message are recorded under the documents that `OPEN_DOCUMENT`
admitted.  The log of every document loads and gives back each of its operations once, exactly if no
operation names a site id with a NUL byte: `readback_iff`.
-/

namespace CrdtEditor

open Text

/-- The database while documents are opened and operations recorded, with what was opened and
recorded so far. -/
structure Ledger where
  database : SQLiteDatabase
  opened : List DocumentID
  recorded : List (DocumentID × Operation)

namespace Ledger

inductive Event
  | openDocument (documentId : DocumentID)
  | record (documentId : DocumentID) (operation : Operation)

/-- A ledger on a new database file. -/
def empty : Ledger := ⟨.empty, [], []⟩

variable (sha256 : Str → Vector UInt8 32)

/-- A document that is not in memory is inserted; an id that is empty or that the table refuses is
not admitted. -/
def step (l : Ledger) : Event → Ledger
  | .openDocument documentId =>
    if documentId = [] ∨ documentId ∈ l.opened then l
    else
      match l.database.insertDocument documentId with
      | .ok database => { l with database := database, opened := l.opened ++ [documentId] }
      | .error _ => l
  | .record documentId operation =>
    if documentId ∈ l.opened then
      match PersistentOperationLog.record sha256 l.database documentId operation with
      | .ok database =>
        { l with database := database, recorded := l.recorded ++ [(documentId, operation)] }
      | .error _ => l
    else l

def run (events : List Event) : Ledger := events.foldl (step sha256) empty

/-- The row of a recorded operation. -/
def rowOf (a : DocumentID × Operation) : Row :=
  ⟨.ofStr a.1, .ofStr (hash sha256 a.2.serialize), .ofStr a.2.serialize⟩

/-- What recording for a document of the table does: nothing if the key of the row exists, else it
adds the row. -/
theorem record_cases {db : SQLiteDatabase} {d : DocumentID} (op : Operation)
    (hd : CText.ofStr d ∈ db.documents) :
    ∃ db', PersistentOperationLog.record sha256 db d op = .ok db' ∧ db'.documents = db.documents ∧
      (db' = db ∧ (rowOf sha256 (d, op)).key ∈ db.operations.map Row.key ∨
        db'.operations = db.operations ++ [rowOf sha256 (d, op)]) := by
  rw [PersistentOperationLog.record, SQLiteDatabase.insertOperation]
  dsimp only
  split
  case isTrue hkey => exact ⟨db, rfl, rfl, Or.inl ⟨rfl, hkey⟩⟩
  case isFalse => exact ⟨_, rfl, rfl, Or.inr rfl⟩

/-- **The invariant of the ledger**: opened documents are rows of their own, recorded operations are
recorded for them, and every row is the row of a recorded operation. -/
structure Kept (l : Ledger) : Prop where
  table : ∀ d ∈ l.opened, CText.ofStr d ∈ l.database.documents
  distinct : ∀ d ∈ l.opened, ∀ d' ∈ l.opened, CText.ofStr d = CText.ofStr d' → d = d'
  listed : ∀ t ∈ l.database.documents, ∃ d ∈ l.opened, CText.ofStr d = t
  opened : ∀ a ∈ l.recorded, a.1 ∈ l.opened
  rows : ∀ row ∈ l.database.operations, ∃ a ∈ l.recorded, row = rowOf sha256 a

theorem kept_empty : Kept sha256 empty :=
  ⟨by simp [empty], by simp [empty], by simp [empty, SQLiteDatabase.empty], by simp [empty],
    by simp [empty, SQLiteDatabase.empty]⟩

variable {sha256} {l : Ledger}

theorem Kept.step (h : Kept sha256 l) (e : Event) : Kept sha256 (l.step sha256 e) := by
  cases e with
  | openDocument d =>
    rw [Ledger.step]
    split
    case isTrue => exact h
    case isFalse hd =>
      rw [SQLiteDatabase.insertDocument]
      by_cases hm : CText.ofStr d ∈ l.database.documents
      · rw [dif_pos hm]
        exact h
      · rw [dif_neg hm]
        have hfresh : ∀ d' ∈ l.opened, CText.ofStr d' ≠ CText.ofStr d := fun d' hd' he =>
          hm (he ▸ h.table d' hd')
        refine ⟨fun d' hd' => ?_, fun a ha b hb hab => ?_, fun t ht => ?_,
          fun a ha => List.mem_append_left _ (h.opened a ha), h.rows⟩
        · rcases List.mem_append.mp hd' with hd' | hd'
          · exact List.mem_append_left _ (h.table d' hd')
          · exact List.mem_append_right _ (by rw [List.mem_singleton.mp hd']; simp)
        · simp only [List.mem_append, List.mem_singleton] at ha hb
          obtain ha | rfl := ha <;> obtain hb | rfl := hb
          exacts [h.distinct a ha b hb hab, absurd hab (hfresh a ha), absurd hab.symm (hfresh b hb),
            rfl]
        · rcases List.mem_append.mp ht with ht | ht
          · obtain ⟨d', hd', rfl⟩ := h.listed t ht
            exact ⟨d', List.mem_append_left _ hd', rfl⟩
          · exact ⟨d, by simp, (List.mem_singleton.mp ht).symm⟩
  | record d op =>
    rw [Ledger.step]
    split
    case isFalse => exact h
    case isTrue hd =>
      obtain ⟨db, hdb, hdocs, hcases⟩ := record_cases sha256 op (h.table d hd)
      rw [hdb]
      dsimp only
      refine ⟨hdocs ▸ h.table, h.distinct, hdocs ▸ h.listed, fun a ha => ?_, fun row hrow => ?_⟩
      · rcases List.mem_append.mp ha with ha | ha
        · exact h.opened a ha
        · rw [List.mem_singleton.mp ha]
          exact hd
      · have hrow : row ∈ l.database.operations ∨ row = rowOf sha256 (d, op) := by
          obtain ⟨rfl, -⟩ | hops := hcases
          · exact Or.inl hrow
          · change row ∈ db.operations at hrow
            rw [hops] at hrow
            exact (List.mem_append.mp hrow).imp id List.mem_singleton.mp
        rcases hrow with hrow | rfl
        · obtain ⟨a, ha, he⟩ := h.rows row hrow
          exact ⟨a, List.mem_append_left _ ha, he⟩
        · exact ⟨(d, op), by simp, rfl⟩

/-- **No recorded operation is missing**, as long as digests tell the texts apart. -/
theorem Kept.stored_step (h : Kept sha256 l) {texts : Set Str} (hsha : Set.InjOn sha256 texts)
    (hl : ∀ a ∈ l.recorded, a.2.serialize ∈ texts ∧ rowOf sha256 a ∈ l.database.operations)
    {e : Event} (he : ∀ d op, e = .record d op → op.serialize ∈ texts) :
    ∀ a ∈ (l.step sha256 e).recorded,
      a.2.serialize ∈ texts ∧ rowOf sha256 a ∈ (l.step sha256 e).database.operations := by
  cases e with
  | openDocument d =>
    rw [Ledger.step]
    split
    case isTrue => exact hl
    case isFalse =>
      rw [SQLiteDatabase.insertDocument]
      by_cases hm : CText.ofStr d ∈ l.database.documents
      · rw [dif_pos hm]
        exact hl
      · rw [dif_neg hm]
        exact hl
  | record d op =>
    rw [Ledger.step]
    split
    case isFalse => exact hl
    case isTrue hd =>
      obtain ⟨db, hdb, -, hcases⟩ := record_cases sha256 op (h.table d hd)
      rw [hdb]
      dsimp only
      intro a ha
      rcases List.mem_append.mp ha with ha | ha
      · refine ⟨(hl a ha).1, ?_⟩
        obtain ⟨rfl, -⟩ | hops := hcases
        · exact (hl a ha).2
        · rw [hops]
          exact List.mem_append_left _ (hl a ha).2
      · obtain rfl := List.mem_singleton.mp ha
        refine ⟨he d op rfl, ?_⟩
        obtain ⟨rfl, hkey⟩ | hops := hcases
        · -- the row with this key is the row of this operation
          obtain ⟨row, hrow, hkey⟩ := List.mem_map.mp hkey
          obtain ⟨b, hb, rfl⟩ := h.rows row hrow
          obtain ⟨hdoc, hop⟩ := Prod.mk.inj hkey
          have hhash := congrArg CText.val hop
          dsimp only [rowOf] at hdoc hhash
          rw [CText.val_ofStr (nul_notMem_hash _ _), CText.val_ofStr (nul_notMem_hash _ _)] at hhash
          have htext := hsha (hl b hb).1 (he d op rfl) (toHex_injective hhash)
          have : rowOf sha256 b = rowOf sha256 (d, op) := by
            simp only [rowOf, hdoc, htext]
          exact this ▸ hrow
        · rw [hops]
          exact List.mem_append_right _ (List.mem_singleton_self _)

/-- The texts an event asks to record. -/
def texts (events : List Event) : Set Str :=
  {t | ∃ d op, .record d op ∈ events ∧ op.serialize = t}

/-- **The invariant of a run.** -/
theorem kept_run {events : List Event} (hsha : Set.InjOn sha256 (texts events)) :
    Kept sha256 (run sha256 events) ∧ ∀ a ∈ (run sha256 events).recorded,
      .record a.1 a.2 ∈ events ∧ rowOf sha256 a ∈ (run sha256 events).database.operations := by
  have hrun : ∀ (es : List Event) (l : Ledger), es ⊆ events → Kept sha256 l →
      (∀ a ∈ l.recorded, .record a.1 a.2 ∈ events) →
      (∀ a ∈ l.recorded, a.2.serialize ∈ texts events ∧ rowOf sha256 a ∈ l.database.operations) →
      Kept sha256 (es.foldl (step sha256) l) ∧ ∀ a ∈ (es.foldl (step sha256) l).recorded,
        .record a.1 a.2 ∈ events ∧
          rowOf sha256 a ∈ (es.foldl (step sha256) l).database.operations := by
    intro es
    induction es with
    | nil => exact fun l _ h hl hs => ⟨h, fun a ha => ⟨hl a ha, (hs a ha).2⟩⟩
    | cons e es ih =>
      intro l hsub h hl hs
      have he := hsub List.mem_cons_self
      refine ih _ (fun x hx => hsub (List.mem_cons_of_mem _ hx)) (h.step e) (fun a ha => ?_)
        (h.stored_step hsha hs fun d op heq => ⟨d, op, heq ▸ he, rfl⟩)
      cases e with
      | openDocument d =>
        rw [step] at ha
        split at ha
        · exact hl a ha
        · cases hdb : l.database.insertDocument d <;> simp only [hdb] at ha <;> exact hl a ha
      | record d op =>
        rw [step] at ha
        split at ha
        · cases hdb : PersistentOperationLog.record sha256 l.database d op with
          | error e => simp only [hdb] at ha; exact hl a ha
          | ok db =>
            simp only [hdb] at ha
            rcases List.mem_append.mp ha with ha | ha
            · exact hl a ha
            · rw [List.mem_singleton.mp ha]
              exact he
        · exact hl a ha
  exact hrun events empty (fun _ hx => hx) (kept_empty sha256) (by simp [empty]) (by simp [empty])

/-- What the claim of a log is: it loads, without repetition, what was recorded for its document. -/
def ReadsBack (l : Ledger) (d : DocumentID) (order : RowOrder Str) : Prop :=
  ∃ history, PersistentOperationLog.load l.database order d = .ok history ∧ history.Nodup ∧
    ∀ op, op ∈ history ↔ (d, op) ∈ l.recorded

/-- The texts of a document tell its rows apart. -/
theorem Kept.nodup_rows (h : Kept sha256 l) (hnul : ∀ a ∈ l.recorded, a.2.Avoids nul)
    (d : DocumentID) : (l.database.rows d).Nodup := by
  have hkey : ∀ row ∈ l.database.operations.filter (·.documentId = CText.ofStr d),
      (CText.ofStr d, CText.ofStr (hash sha256 row.operationData.val)) = row.key := by
    intro row hrow
    obtain ⟨hrow, hdoc⟩ := List.mem_filter.mp hrow
    obtain ⟨a, ha, rfl⟩ := h.rows row hrow
    have hdata := CText.val_ofStr (Operation.notMem_serialize (by decide) (hnul a ha))
    rw [← of_decide_eq_true hdoc, Row.key]
    simp only [rowOf, hdata]
  have hkeys := l.database.keys_nodup.sublist (List.filter_sublist
    (p := (·.documentId = CText.ofStr d)) (l := l.database.operations) |>.map Row.key)
  refine List.Nodup.of_map (fun data => (CText.ofStr d, CText.ofStr (hash sha256 data))) ?_
  rw [SQLiteDatabase.rows, List.map_map]
  exact List.map_congr_left hkey ▸ hkeys

/-- **The log of every document gives back what was recorded for it, each operation once, exactly if
no operation names a site id with a NUL byte.** -/
theorem readback_iff {events : List Event}
    (hdecoded : ∀ d op, .record d op ∈ events →
      ∃ body message, Message.deserialize body = .ok message ∧ op ∈ message.payload.operations)
    (hsha : Set.InjOn sha256 (texts events)) :
    (∀ d ∈ (run sha256 events).opened, ∀ order, (run sha256 events).ReadsBack d order) ↔
      ∀ a ∈ (run sha256 events).recorded, a.2.Avoids nul := by
  obtain ⟨hkept, hrecorded⟩ := kept_run hsha
  set l := run sha256 events
  constructor
  · -- what a stored text decodes to has no NUL byte
    intro hreads a ha
    obtain ⟨history, hload, -, hmem⟩ := hreads a.1 (hkept.opened a ha) (.inserted Str)
    have hop := (PersistentOperationLog.perm_load hload).mem_iff.mp ((hmem a.2).mpr ha)
    obtain ⟨row, -, -, hdec⟩ := SQLiteDatabase.mem_recorded.mp hop
    exact (Operation.avoids_of_deserialize hdec).2 nul row.operationData.nul_notMem
  · intro hnul d hd order
    have hdata : ∀ a ∈ l.recorded, (CText.ofStr a.2.serialize).val = a.2.serialize ∧
        Operation.deserialize a.2.serialize = .ok a.2 := fun a ha => by
      obtain ⟨body, message, hmessage, hop⟩ := hdecoded a.1 a.2 (hrecorded a ha).1
      obtain ⟨line, -, hline⟩ := Message.operations_of_deserialize hmessage a.2 hop
      exact ⟨CText.val_ofStr (Operation.notMem_serialize (by decide) (hnul a ha)),
        Operation.deserialize_serialize (Operation.avoids_of_deserialize hline).1⟩
    -- the rows of the document are the texts of its operations
    have hrows : ∀ data, data ∈ l.database.rows d ↔
        ∃ op, (d, op) ∈ l.recorded ∧ op.serialize = data := fun data => by
      rw [SQLiteDatabase.mem_rows]
      constructor
      · rintro ⟨row, hrow, hdoc, rfl⟩
        obtain ⟨a, ha, rfl⟩ := hkept.rows row hrow
        have had : a.1 = d := hkept.distinct a.1 (hkept.opened a ha) d hd hdoc
        exact ⟨a.2, had ▸ ha, (hdata a ha).1.symm⟩
      · rintro ⟨op, hop, rfl⟩
        exact ⟨_, (hrecorded _ hop).2, rfl, (hdata _ hop).1⟩
    have hdecode : ∀ data ∈ l.database.getOperations order d, ∃ op, (d, op) ∈ l.recorded ∧
        op.serialize = data ∧ Operation.deserialize data = .ok op := fun data hm => by
      obtain ⟨op, hop, rfl⟩ := (hrows data).mp ((order.perm _).mem_iff.mp hm)
      exact ⟨op, hop, rfl, (hdata _ hop).2⟩
    have hload := Except.mapM_eq_ok_filterMap
      fun data hm => (hdecode data hm).imp fun op hop => hop.2.2
    refine ⟨_, hload, ?_, fun op => ?_⟩
    · refine List.Nodup.of_map Operation.serialize ?_
      rw [Except.map_of_mapM_eq_ok hload fun data hm op hop => ?_]
      · exact (order.perm _).nodup_iff.mpr (hkept.nodup_rows hnul d)
      · obtain ⟨op', -, he, hdec⟩ := hdecode data hm
        rw [← Except.ok.inj (hdec.symm.trans hop), he]
    · rw [Except.mem_of_mapM_eq_ok hload]
      constructor
      · rintro ⟨data, hm, hdec⟩
        obtain ⟨op', hop', -, hdec'⟩ := hdecode data hm
        exact Except.ok.inj (hdec'.symm.trans hdec) ▸ hop'
      · intro hop
        exact ⟨_, (order.perm _).mem_iff.mpr ((hrows _).mpr ⟨op, hop, rfl⟩), (hdata _ hop).2⟩

/-- A removal and its insert, the removal twice. -/
def sampleEvents : List Event :=
  [.openDocument (str "d"), .record (str "d") (.remove ⟨⟨1, str "a"⟩⟩),
   .record (str "d") (.insert ⟨rootId, ⟨1, str "a"⟩, 65⟩),
   .record (str "d") (.remove ⟨⟨1, str "a"⟩⟩)]

theorem readback_iff_sample :
    (∀ d ∈ (run DocumentStore.sampleDigest sampleEvents).opened, ∀ order,
      (run DocumentStore.sampleDigest sampleEvents).ReadsBack d order) ↔
    ∀ a ∈ (run DocumentStore.sampleDigest sampleEvents).recorded, a.2.Avoids nul := by
  refine readback_iff (fun d op hop => ?_) fun a ha b hb hab => ?_
  · refine ⟨(⟨.operation, str "a", .operation op⟩ : Message).serialize, _,
      Message.deserialize_serialize ?_, List.mem_singleton_self op⟩
    simp only [sampleEvents, List.mem_cons, reduceCtorEq, Event.record.injEq, List.not_mem_nil,
      or_false, false_or] at hop
    obtain ⟨-, rfl⟩ | ⟨-, rfl⟩ | ⟨-, rfl⟩ := hop <;> exact ⟨by decide, by decide, by decide⟩
  · obtain ⟨d, op, hop, rfl⟩ := ha
    obtain ⟨d', op', hop', rfl⟩ := hb
    simp only [sampleEvents, List.mem_cons, reduceCtorEq, Event.record.injEq, List.not_mem_nil,
      or_false, false_or] at hop hop'
    revert hab
    obtain ⟨-, rfl⟩ | ⟨-, rfl⟩ | ⟨-, rfl⟩ := hop <;>
      obtain ⟨-, rfl⟩ | ⟨-, rfl⟩ | ⟨-, rfl⟩ := hop' <;> decide

/-- An insert whose site id has a NUL byte, as a client may send it. -/
def nulInsert : Operation := .insert ⟨rootId, ⟨1, str "a" ++ [nul] ++ str "b"⟩, 65⟩

def nulEvents : List Event := [.openDocument (str "d"), .record (str "d") nulInsert]

/-- SHA-256 on the one text of the run. -/
def nulDigest : Str → Vector UInt8 32 := fun _ =>
  #v[125, 147, 160, 230, 86, 173, 162, 21, 112, 109, 97, 170, 168, 154, 76, 121,
    122, 172, 183, 233, 107, 139, 191, 71, 201, 240, 164, 219, 24, 248, 124, 148]

/-- **With a NUL byte the log does not load.** -/
theorem load_throws_after_nul :
    (∃ message, Message.deserialize (str "OPERATION\na\nINSERT|0,__ROOT__|1,a" ++ [nul] ++
        str "b|65") = .ok message ∧ nulInsert ∈ message.payload.operations) ∧
      str "d" ∈ (run nulDigest nulEvents).opened ∧
      (str "d", nulInsert) ∈ (run nulDigest nulEvents).recorded ∧
      ¬ (run nulDigest nulEvents).ReadsBack (str "d") (.inserted Str) := by
  refine ⟨⟨⟨.operation, str "a", .operation nulInsert⟩, by decide +kernel, by decide⟩,
    by decide +kernel, by decide +kernel, ?_⟩
  rintro ⟨history, hload, -⟩
  have hfails : (PersistentOperationLog.load (run nulDigest nulEvents).database (.inserted Str)
      (str "d")).toBool = false := by decide +kernel
  rw [hload] at hfails
  cases hfails

end Ledger

end CrdtEditor
