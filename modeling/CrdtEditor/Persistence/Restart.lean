import CrdtEditor.Persistence.DocumentStore

/-!
# Persistence/Restart — a restart changes nothing

`Reachable applied s` collects what a program may do with a document store: create documents, apply
operations, and come back from the database file.  The rows of such a store are exactly the applied
operations, so what a fresh document replays from them is the document before the restart.
-/

namespace CrdtEditor.DocumentStore

open Text

variable (sha256 : Str → Vector UInt8 32)

/-- The stores reached by applying the listed operations, in order, to the documents named with
them, with documents created and the program restarted in between. -/
inductive Reachable : List (DocumentID × Operation) → DocumentStore → Prop
  | fresh : Reachable [] empty
  | create {applied : List (DocumentID × Operation)} {s s' : DocumentStore} (id : DocumentID)
      (h : Reachable applied s) (hs : s.createDocument id = .ok s') : Reachable applied s'
  | apply {applied : List (DocumentID × Operation)} {s s' : DocumentStore} {id : DocumentID}
      {operation : Operation} (h : Reachable applied s) (hid : id ∈ s.documents)
      (hs : (s.applyOperation sha256 id operation).state = s') :
      Reachable (applied ++ [(id, operation)]) s'
  | restart {applied : List (DocumentID × Operation)} {s s' : DocumentStore}
      {documentOrder : RowOrder CText} {rowOrder : DocumentID → RowOrder Str}
      (h : Reachable applied s) (hs : reopen s.database documentOrder rowOrder = .ok s') :
      Reachable applied s'

/-- What the operations of a run are assumed to be: decoded from a line, without NUL bytes in site
or document ids, consistent within a document, and told apart by their digests. -/
structure Admissible (applied : List (DocumentID × Operation)) : Prop where
  decoded : ∀ a ∈ applied, ∃ line, Operation.deserialize line = .ok a.2
  nul_site : ∀ a ∈ applied, a.2.Avoids nul
  nul_document : ∀ a ∈ applied, nul ∉ a.1
  consistent : ∀ id, Operation.Consistent {op | (id, op) ∈ applied}
  collisionFree : ∀ a ∈ applied, ∀ b ∈ applied, sha256 a.2.serialize = sha256 b.2.serialize →
    a.2.serialize = b.2.serialize

variable {sha256}

theorem Admissible.of_append {applied later : List (DocumentID × Operation)}
    (h : Admissible sha256 (applied ++ later)) : Admissible sha256 applied where
  decoded a ha := h.decoded a (List.mem_append_left _ ha)
  nul_site a ha := h.nul_site a (List.mem_append_left _ ha)
  nul_document a ha := h.nul_document a (List.mem_append_left _ ha)
  consistent id := (h.consistent id).mono fun _ hop => List.mem_append_left _ hop
  collisionFree a ha b hb :=
    h.collisionFree a (List.mem_append_left _ ha) b (List.mem_append_left _ hb)

/-- Every row was written for an applied operation. -/
def Sourced (applied : List (DocumentID × Operation)) (db : SQLiteDatabase) : Prop :=
  ∀ row ∈ db.operations, ∃ a ∈ applied, row.documentId.val = a.1 ∧
    row.operationData.val = a.2.serialize

/-- A recorded operation was applied to the document, whose id is the stored text. -/
theorem Sourced.of_mem_recorded {applied : List (DocumentID × Operation)} {db : SQLiteDatabase}
    (h : Sourced applied db) (hadm : Admissible sha256 applied) {id : DocumentID} {op : Operation}
    (hop : op ∈ db.recorded id) : ((CText.ofStr id).val, op) ∈ applied := by
  obtain ⟨row, hrow, hdoc, hdec⟩ := SQLiteDatabase.mem_recorded.mp hop
  obtain ⟨⟨id', op'⟩, ha, hid, hdata⟩ := h row hrow
  obtain ⟨line, hline⟩ := hadm.decoded _ ha
  rw [hdata, Operation.deserialize_serialize (Operation.avoids_of_deserialize hline).1] at hdec
  obtain rfl := Except.ok.inj hdec
  rw [← hdoc, hid]
  exact ha

/-- **Along an admissible run the store is sound** and holds nothing but what was applied. -/
theorem Reachable.sound {applied : List (DocumentID × Operation)} {s : DocumentStore}
    (h : Reachable sha256 applied s) (hadm : Admissible sha256 applied) :
    s.Sound sha256 ∧ Sourced applied s.database := by
  induction h with
  | fresh => exact ⟨sound_empty, fun row hrow => absurd hrow List.not_mem_nil⟩
  | create _ _ hs ih =>
    obtain ⟨hsound, hsrc⟩ := ih hadm
    obtain ⟨hsound', hops, -, -⟩ := hsound.createDocument hs
    exact ⟨hsound', fun row hrow => hsrc row (hops ▸ hrow)⟩
  | restart _ hs ih =>
    obtain ⟨hsound, hsrc⟩ := ih hadm
    obtain ⟨s', hs', hsound', hdb⟩ := sound_reopen hsound.database _ _
    obtain rfl := Except.ok.inj (hs.symm.trans hs')
    exact ⟨hsound', hdb ▸ hsrc⟩
  | @apply applied s s' id operation _ hid hs ih =>
    obtain ⟨hsound, hsrc⟩ := ih hadm.of_append
    have hlast : (id, operation) ∈ applied ++ [(id, operation)] := by simp
    have hdocid : (CText.ofStr id).val = id := CText.val_ofStr (hadm.nul_document _ hlast)
    obtain ⟨line, hline⟩ := hadm.decoded _ hlast
    have hcollision : s.database.NoCollision sha256 id operation := fun data hdata he => by
      obtain ⟨row, hrow, -, rfl⟩ := SQLiteDatabase.mem_rows.mp hdata
      obtain ⟨a, ha, -, hd⟩ := hsrc row hrow
      rw [hd] at he ⊢
      exact hadm.collisionFree a (List.mem_append_left _ ha) _ hlast he
    have hconsistent :
        Operation.Consistent (insert operation {op | op ∈ s.database.recorded id}) := by
      refine (hadm.consistent id).mono fun op hop => ?_
      rcases hop with rfl | hop
      · exact hlast
      · have := hsrc.of_mem_recorded hadm.of_append hop
        exact List.mem_append_left _ (hdocid ▸ this)
    obtain ⟨t, ht, hsound', -, hrows, -⟩ :=
      hsound.applyOperation hid (Operation.avoids_of_deserialize hline).1
        (hadm.nul_site _ hlast) hcollision hconsistent
    rw [ht] at hs
    obtain rfl : t = s' := hs
    refine ⟨hsound', fun row hrow => ?_⟩
    rcases hrows row hrow with hrow | ⟨hdoc, hdata⟩
    · obtain ⟨a, ha, hrest⟩ := hsrc row hrow
      exact ⟨a, List.mem_append_left _ ha, hrest⟩
    · exact ⟨_, hlast, by rw [hdoc, hdocid], hdata⟩

/-- **Restart equivalence.**  Whatever order the rows come back in, a fresh document with the id of
one in memory loads to the same document, and a client that applies the returned history to an empty
document shows the same text. -/
theorem restart_equivalent {applied : List (DocumentID × Operation)} {s : DocumentStore}
    (h : Reachable sha256 applied s) (hadm : Admissible sha256 applied) {id : DocumentID}
    {p : PersistentDocument} (hp : AList.lookup id s.documents = some p) (order : RowOrder Str) :
    (∃ q, (PersistentDocument.new id).load s.database order = .ok q ∧
      Document.Same q.document p.document) ∧
    ∃ history d text, p.getHistory s.database order = .ok history ∧
      history.foldlM Document.apply .empty = .ok d ∧
      d.render = .ok text ∧ p.document.render = .ok text := by
  obtain ⟨hsound, -⟩ := h.sound hadm
  obtain ⟨history, hhistory, -, hrun, hload, hreflects⟩ :=
    PersistentDocument.reflects_load hsound.database order id
  have hpid := hsound.documentId id p hp
  have hsame := hreflects.same (hsound.reflects id p hp) hsound.database hpid.symm
  have htree := (hsound.reflects id p hp).settling.tree
  refine ⟨⟨_, hload, hsame⟩, history, _, _, ?_, hrun, (Document.isTree_after history).render_eq, ?_⟩
  · rw [PersistentDocument.getHistory, hpid]
    exact hhistory
  · rw [← hsame.render_eq (Document.isTree_after history) htree]
    exact (Document.isTree_after history).render_eq

/-! ## A run with its digests -/

/-- A removal recorded before its insert. -/
def sampleApplied : List (DocumentID × Operation) :=
  [(str "d", .remove ⟨⟨1, str "a"⟩⟩), (str "d", .insert ⟨rootId, ⟨1, str "a"⟩, 65⟩)]

/-- SHA-256 on the two texts of the run. -/
def sampleDigest (data : Str) : Vector UInt8 32 :=
  if data = str "REMOVE|1,a" then
    #v[18, 180, 166, 217, 232, 122, 251, 245, 213, 86, 251, 234, 82, 29, 116, 161,
      92, 35, 252, 199, 114, 98, 180, 16, 142, 219, 15, 83, 239, 238, 81, 227]
  else
    #v[131, 203, 20, 204, 175, 47, 18, 228, 37, 162, 191, 38, 117, 115, 29, 48,
      111, 174, 198, 94, 220, 148, 127, 22, 231, 49, 222, 125, 202, 24, 226, 254]

theorem reachable_sample : ∃ s, Reachable sampleDigest sampleApplied s ∧
    ∃ p, AList.lookup (str "d") s.documents = some p :=
  ⟨_, .apply (.apply (.create (str "d") .fresh rfl) (by decide) rfl) (by decide) rfl, _, rfl⟩

theorem admissible_sample : Admissible sampleDigest sampleApplied where
  decoded a ha := ⟨a.2.serialize, Operation.deserialize_serialize (by revert a; decide)⟩
  nul_site := by decide
  nul_document := by decide
  consistent id :=
    (by decide : Operation.Consistent {op | op ∈ sampleApplied.map Prod.snd}).mono
      fun op hop => List.mem_map.mpr ⟨(id, op), hop, rfl⟩
  collisionFree := by decide

theorem restart_equivalent_sample : ∃ (s : DocumentStore) (p : PersistentDocument),
    Reachable sampleDigest sampleApplied s ∧
    (∃ q, (PersistentDocument.new (str "d")).load s.database (.inserted Str) = .ok q ∧
      Document.Same q.document p.document) ∧
    ∃ history d text, p.getHistory s.database (.inserted Str) = .ok history ∧
      history.foldlM Document.apply .empty = .ok d ∧
      d.render = .ok text ∧ p.document.render = .ok text := by
  obtain ⟨s, hs, p, hp⟩ := reachable_sample
  exact ⟨s, p, hs, restart_equivalent hs admissible_sample hp (.inserted Str)⟩

end CrdtEditor.DocumentStore
