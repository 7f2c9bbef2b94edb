import CrdtEditor.Document.Buffer
import CrdtEditor.Document.Traversal

/-!
# Document/Convergence — a document is the set of its operations

Where inserts with one id are one insert, the document reached does not depend on the order or the
number of arrivals.  `Settled S d` spells out the document a *set* `S` of operations amounts to:
present are the ids whose parents lead to the root within `S` (`Rooted`), everything else waits.
`settled_after` proves it of every stream, through the state in the middle of a drain (`Settling`),
and two documents settled by one set are the `Same`.

The depth-first order is shared even by documents that have seen different operations:
`before_iff`.
-/

open scoped List

namespace CrdtEditor.Document

/-- The ids whose chain of insert parents within `S` reaches the root. -/
inductive Rooted (S : Set Operation) : ElementID → Prop
  | root : Rooted S rootId
  | insert {oper : InsertOperation} (h : .insert oper ∈ S) (hp : Rooted S oper.parent) :
      Rooted S oper.ident

/-- **The document a set of operations amounts to.** -/
structure Settled (S : Set Operation) (d : Document) : Prop where
  mem_elements : ∀ x, x ∈ d.elements ↔ Rooted S x
  root_char : d.charOf rootId = 0
  char : ∀ oper, .insert oper ∈ S → oper.ident ≠ rootId → oper.ident ∈ d.elements →
    d.charOf oper.ident = oper.ch
  deleted : ∀ x c, AList.lookup x d.elements = some c → (c.deleted = true ↔ .remove ⟨x⟩ ∈ S)
  mem_children : ∀ x, x ∈ d.children ↔ Rooted S x
  mem_childrenOf : ∀ x p, x ∈ d.childrenOf p ↔
    x ≠ rootId ∧ Rooted S x ∧ ∃ oper, .insert oper ∈ S ∧ oper.ident = x ∧ oper.parent = p
  descending : ∀ p, (d.childrenOf p).Pairwise (· > ·)
  parentOf : ∀ x p, AList.lookup x d.parentOf = some p ↔ x = rootId ∧ p = rootId ∨
    x ≠ rootId ∧ Rooted S x ∧ ∃ oper, .insert oper ∈ S ∧ oper.ident = x ∧ oper.parent = p
  nodup_buffered : (UMap.contents d.bufferedInserts).Nodup
  mem_buffered : ∀ oper, oper ∈ UMap.contents d.bufferedInserts ↔
    .insert oper ∈ S ∧ ¬ Rooted S oper.ident
  filed : ∀ p ops, AList.lookup p d.bufferedInserts = some ops → ∀ op ∈ ops, op.parent = p
  mem_bufferedInsertIds : ∀ x, x ∈ d.bufferedInsertIds ↔
    ∃ oper, .insert oper ∈ S ∧ oper.ident = x ∧ ¬ Rooted S x
  mem_bufferedDeletes : ∀ x, x ∈ d.bufferedDeletes ↔ .remove ⟨x⟩ ∈ S ∧ ¬ Rooted S x

/-- Equal states, up to the order of hash map entries and of the operations in one bucket. -/
structure Same (d d' : Document) : Prop where
  elements : ∀ x, AList.lookup x d.elements = AList.lookup x d'.elements
  children : ∀ x, AList.lookup x d.children = AList.lookup x d'.children
  parentOf : ∀ x, AList.lookup x d.parentOf = AList.lookup x d'.parentOf
  buffered : UMap.contents d.bufferedInserts = UMap.contents d'.bufferedInserts
  bufferedInsertIds : d.bufferedInsertIds = d'.bufferedInsertIds
  bufferedDeletes : d.bufferedDeletes = d'.bufferedDeletes

/-! ## The middle of a drain -/

/-- Where every operation of `S` is while `W` is in hand: an element comes from an insert of `S`,
and an insert of `S` is an element, buffered or in hand. -/
structure Settling (S : Set Operation) (d : Document) (W : List InsertOperation) : Prop where
  tree : d.IsTree
  root_char : d.charOf rootId = 0
  source : ∀ x ∈ d.elements, x ≠ rootId → ∃ oper, .insert oper ∈ S ∧ oper.ident = x ∧
    AList.lookup x d.parentOf = some oper.parent ∧ d.charOf x = oper.ch
  deleted : ∀ x c, AList.lookup x d.elements = some c → (c.deleted = true ↔ .remove ⟨x⟩ ∈ S)
  mem_bufferedDeletes : ∀ x, x ∈ d.bufferedDeletes ↔ .remove ⟨x⟩ ∈ S ∧ x ∉ d.elements
  mem_of_waiting : ∀ oper ∈ UMap.contents d.bufferedInserts + W, .insert oper ∈ S
  accounted : ∀ oper, .insert oper ∈ S →
    oper.ident ∈ d.elements ∨ oper ∈ UMap.contents d.bufferedInserts + W

theorem lookup_attach_elements (d : Document) (oper : InsertOperation) (x : ElementID) :
    AList.lookup x (d.attach oper).elements =
      if x = oper.ident then some ⟨oper.ch, decide (oper.ident ∈ d.bufferedDeletes)⟩
      else AList.lookup x d.elements :=
  UMap.lookup_insert _ _ _ _

theorem charOf_attach (d : Document) (oper : InsertOperation) (x : ElementID) :
    (d.attach oper).charOf x = if x = oper.ident then oper.ch else d.charOf x := by
  rw [charOf, lookup_attach_elements]
  split
  · rfl
  · rw [charOf]

/-- **One step of a drain moves one operation into the tree.** -/
theorem Settling.attach {S : Set Operation} {d : Document} {op : InsertOperation}
    {W : List InsertOperation} (hh : d.Holding (op :: W)) (h : Settling S d (op :: W)) :
    Settling S ((d.attach op).release op.ident) (d.waiting op.ident ++ W) := by
  have hid : op.ident ∉ d.elements := hh.ident_absent op (by simp)
  have hpar : op.parent ∈ d.elements := hh.parent_present op (by simp)
  have hop : .insert op ∈ S := h.mem_of_waiting op (by simp)
  have hroot : op.ident ≠ rootId := fun he => hid (he ▸ h.tree.root_mem)
  have hsplit := contents_add_cons d op W
  have htree := h.tree.attach hid hpar
  refine
    { tree := htree.congr (fun x => by simp) rfl rfl
      root_char := ?_
      source := fun x hx hr => ?_
      deleted := fun x c hx => ?_
      mem_bufferedDeletes := fun x => ?_
      mem_of_waiting := fun oper ho => h.mem_of_waiting oper ?_
      accounted := fun oper ho => ?_ }
  · change (d.attach op).charOf rootId = 0
    rw [charOf_attach, if_neg hroot.symm, h.root_char]
  · change ∃ oper, _ ∧ _ ∧ AList.lookup x (d.attach op).parentOf = _ ∧ (d.attach op).charOf x = _
    rw [lookup_attach_parentOf h.tree hid, charOf_attach]
    by_cases he : x = op.ident
    · rw [if_pos he, if_pos he]
      exact ⟨op, hop, he.symm, rfl, rfl⟩
    · rw [if_neg he, if_neg he]
      exact h.source x (((d.mem_attach_elements op).mp hx).resolve_left he) hr
  · rw [release_elements, lookup_attach_elements] at hx
    split at hx
    case isFalse => exact h.deleted x c hx
    case isTrue he =>
      obtain rfl := Option.some.inj hx
      rw [decide_eq_true_iff, h.mem_bufferedDeletes, he]
      exact and_iff_left hid
  · rw [release_bufferedDeletes, attach_bufferedDeletes, Finset.mem_erase, h.mem_bufferedDeletes,
      release_elements, mem_attach_elements, not_or]
    tauto
  · rw [hsplit]
    exact Multiset.mem_cons_of_mem ho
  · rw [release_elements, mem_attach_elements]
    rcases h.accounted oper ho with hm | hw
    · exact Or.inl (Or.inr hm)
    · rw [hsplit, Multiset.mem_cons] at hw
      exact hw.imp (fun he => Or.inl (congrArg InsertOperation.ident he)) id

theorem settling_empty : Settling ∅ empty [] where
  tree := isTree_empty
  root_char := rfl
  source x hx hr := absurd (mem_empty_elements.mp hx) hr
  deleted x c hx := by
    rw [empty, UMap.lookup_insert] at hx
    split at hx
    · obtain rfl := Option.some.inj hx
      simp
    · simp at hx
  mem_bufferedDeletes x := by simp [empty]
  mem_of_waiting oper ho := by simp [empty] at ho
  accounted oper ho := absurd ho (Set.notMem_empty _)

/-! ## One more operation -/

/-- Widening the set by an operation that is accounted for. -/
theorem Settling.insert_of_accounted {S : Set Operation} {d : Document} {W : List InsertOperation}
    (h : Settling S d W) {oper : InsertOperation}
    (ho : oper.ident ∈ d.elements ∨ oper ∈ UMap.contents d.bufferedInserts + W) :
    Settling (insert (.insert oper) S) d W where
  tree := h.tree
  root_char := h.root_char
  source x hx hr := by
    obtain ⟨op, hop, hrest⟩ := h.source x hx hr
    exact ⟨op, Set.mem_insert_of_mem _ hop, hrest⟩
  deleted x c hx := by rw [h.deleted x c hx]; simp
  mem_bufferedDeletes x := by rw [h.mem_bufferedDeletes]; simp
  mem_of_waiting op hop := Set.mem_insert_of_mem _ (h.mem_of_waiting op hop)
  accounted op hop := by
    rcases hop with he | hop
    · obtain rfl := Operation.insert.inj he
      exact ho
    · exact h.accounted op hop

/-- Taking an operation in hand. -/
theorem Settling.hold {S : Set Operation} {d : Document} (h : Settling S d [])
    (oper : InsertOperation) : Settling (insert (.insert oper) S) d [oper] where
  tree := h.tree
  root_char := h.root_char
  source x hx hr := by
    obtain ⟨op, hop, hrest⟩ := h.source x hx hr
    exact ⟨op, Set.mem_insert_of_mem _ hop, hrest⟩
  deleted x c hx := by rw [h.deleted x c hx]; simp
  mem_bufferedDeletes x := by rw [h.mem_bufferedDeletes]; simp
  mem_of_waiting op hop := by
    rw [Multiset.mem_add, Multiset.mem_coe, List.mem_singleton] at hop
    rcases hop with hop | rfl
    · exact Set.mem_insert_of_mem _ (h.mem_of_waiting op (by simpa using hop))
    · exact Set.mem_insert _ _
  accounted op hop := by
    rcases hop with he | hop
    · exact Or.inr (by simp [Operation.insert.inj he])
    · exact (h.accounted op hop).imp id fun hw => Multiset.mem_add.mpr (Or.inl (by simpa using hw))

/-- Holding an operation back moves it from hand into the buffer. -/
theorem Settling.buffer {S : Set Operation} {d : Document} {oper : InsertOperation}
    (h : Settling S d [oper]) (hid : oper.ident ∉ d.bufferedInsertIds) :
    Settling S (d.buffer oper) [] := by
  have hcontents : UMap.contents (d.buffer oper).bufferedInserts =
      oper ::ₘ UMap.contents d.bufferedInserts := by
    rw [Document.buffer, if_neg hid]
    exact UMap.contents_push _ _ _
  have hwait : ∀ op, op ∈ UMap.contents (d.buffer oper).bufferedInserts +
        ([] : List InsertOperation) ↔
      op ∈ UMap.contents d.bufferedInserts + ([oper] : List InsertOperation) := fun op => by
    rw [hcontents, Multiset.coe_nil, add_zero, Multiset.coe_singleton, add_comm,
      Multiset.singleton_add]
  exact
    { tree := h.tree.congr (by simp) (by simp) (by simp)
      root_char := by rw [charOf, buffer_elements]; exact h.root_char
      source := fun x hx hr => by
        rw [charOf, buffer_elements, buffer_parentOf] at *
        exact h.source x hx hr
      deleted := fun x c hx => h.deleted x c (by rwa [buffer_elements] at hx)
      mem_bufferedDeletes := fun x => by
        rw [buffer_bufferedDeletes, buffer_elements]
        exact h.mem_bufferedDeletes x
      mem_of_waiting := fun op hop => h.mem_of_waiting op ((hwait op).mp hop)
      accounted := fun op hop => by
        rw [buffer_elements, hwait]
        exact h.accounted op hop }

theorem Settling.applyDelete {S : Set Operation} {d : Document} (h : Settling S d [])
    (oper : RemoveOperation) : Settling (insert (.remove oper) S) (d.applyDelete oper) [] := by
  have hchar : ∀ x, (d.applyDelete oper).charOf x = d.charOf x := fun x => by
    rw [charOf, charOf, lookup_applyDelete_elements]
    cases AList.lookup x d.elements with
    | none => rfl
    | some c =>
      simp only [Option.map_some]
      split <;> rfl
  refine
    { tree := h.tree.congr (d.mem_applyDelete_elements oper) (by simp) (by simp)
      root_char := by rw [hchar, h.root_char]
      source := fun x hx hr => ?_
      deleted := fun x c hx => ?_
      mem_bufferedDeletes := fun x => ?_
      mem_of_waiting := fun op hop => ?_
      accounted := fun op hop => ?_ }
  · obtain ⟨op, hop, hrest⟩ := h.source x ((d.mem_applyDelete_elements oper x).mp hx) hr
    rw [hchar, applyDelete_parentOf]
    exact ⟨op, Set.mem_insert_of_mem _ hop, hrest⟩
  · rw [lookup_applyDelete_elements] at hx
    obtain ⟨c', hc', rfl⟩ := Option.map_eq_some_iff.mp hx
    split
    case isTrue he => simp [he]
    case isFalse he =>
      have hne : (⟨x⟩ : RemoveOperation) ≠ oper := fun hxo => he (congrArg (·.theTarget) hxo)
      simp [h.deleted x c' hc', hne]
  · rw [mem_applyDelete_elements, Document.applyDelete]
    have hiff : (⟨x⟩ : RemoveOperation) = oper ↔ x = oper.theTarget :=
      ⟨fun he => congrArg (·.theTarget) he, fun he => by rw [he]⟩
    split
    case _ c hc =>
      have hm := UMap.mem_of_lookup hc
      simp only [h.mem_bufferedDeletes, Set.mem_insert_iff, Operation.remove.injEq, hiff]
      refine ⟨fun hx => ⟨Or.inr hx.1, hx.2⟩, ?_⟩
      rintro ⟨rfl | hx, hno⟩
      exacts [absurd hm hno, ⟨hx, hno⟩]
    case _ hc =>
      have hm := AList.lookup_eq_none.mp hc
      simp only [Finset.mem_insert, h.mem_bufferedDeletes, Set.mem_insert_iff,
        Operation.remove.injEq, hiff]
      refine ⟨?_, fun hx => hx.1.imp id fun hs => ⟨hs, hx.2⟩⟩
      rintro (rfl | hx)
      exacts [⟨Or.inl rfl, hm⟩, ⟨Or.inr hx.1, hx.2⟩]
  · rw [applyDelete_bufferedInserts] at hop
    exact Set.mem_insert_of_mem _ (h.mem_of_waiting op hop)
  · rw [mem_applyDelete_elements, applyDelete_bufferedInserts]
    exact h.accounted op (hop.resolve_left (by simp))

/-- **One operation of a consistent set returns and is accounted for.** -/
theorem Settling.apply {S : Set Operation} {d : Document} (h : Settling S d [])
    (hb : d.BufferSound) {op : Operation} (hc : Operation.Consistent (insert op S)) :
    ∃ d', d.apply op = .ok d' ∧ d'.BufferSound ∧ Settling (insert op S) d' [] := by
  match op, hc with
  | .remove oper, _ => exact ⟨_, rfl, hb.applyDelete oper, h.applyDelete oper⟩
  | .insert oper, hc =>
    -- a buffered operation with this id is this operation
    have hsame : oper.ident ∈ d.bufferedInsertIds → oper ∈ UMap.contents d.bufferedInserts := by
      intro hids
      obtain ⟨op, hop, he⟩ := (hb.mem_ids _).mp hids
      have hS := h.mem_of_waiting op (by simpa using hop)
      rwa [← hc op oper (Set.mem_insert_of_mem _ hS) (Set.mem_insert _ _) he]
    by_cases hident : oper.ident ∈ d.elements
    · exact ⟨d, by rw [Document.apply, applyInsert, if_pos hident], hb,
        h.insert_of_accounted (Or.inl hident)⟩
    by_cases hparent : oper.parent ∈ d.elements
    · have hids : oper.ident ∉ d.bufferedInsertIds := fun hids =>
        hb.parent_absent_of_mem (hsame hids) hparent
      obtain ⟨d', hd', hh, hs, -⟩ := applyInsert_drain
        (fun _ _ _ hh hs => Settling.attach hh hs) (d.bufferedCount + 1) d oper []
        (hb.holding_singleton hident hparent hids) (h.hold oper) (Nat.lt_succ_self _)
      exact ⟨d', hd', holding_nil.mp hh, hs⟩
    · refine ⟨d.buffer oper, ?_, hb.buffer hident hparent, ?_⟩
      · rw [Document.apply, applyInsert, if_neg hident, if_pos hparent]
      · by_cases hids : oper.ident ∈ d.bufferedInsertIds
        · rw [Document.buffer, if_pos hids]
          exact h.insert_of_accounted (Or.inr (by simpa using hsame hids))
        · exact (h.hold oper).buffer hids

/-- **A consistent stream runs through, and every operation is accounted for.** -/
theorem settling_after (ops : List Operation) (hc : Operation.Consistent {op | op ∈ ops}) :
    ops.foldlM Document.apply empty = .ok (after ops) ∧ (after ops).BufferSound ∧
      Settling {op | op ∈ ops} (after ops) [] := by
  induction ops using List.reverseRecOn with
  | nil =>
    refine ⟨rfl, bufferSound_empty, ?_⟩
    rw [show {op : Operation | op ∈ []} = ∅ by simp]
    exact settling_empty
  | append_singleton ops op ih =>
    have hset : {o | o ∈ ops ++ [op]} = insert op {o | o ∈ ops} := by
      ext o
      simp [or_comm]
    rw [hset] at hc ⊢
    obtain ⟨hrun, hb, hs⟩ := ih (hc.mono (Set.subset_insert _ _))
    obtain ⟨d', hd', hb', hs'⟩ := hs.apply hb hc
    have hafter : after (ops ++ [op]) = d' := by rw [after_append_singleton, hd']; rfl
    rw [hafter, List.foldlM_append, hrun]
    refine ⟨?_, hb', hs'⟩
    change List.foldlM Document.apply (after ops) [op] = _
    rw [List.foldlM_cons, hd']
    rfl

/-! ## The settled document -/

/-- An element is an id whose parents lead to the root. -/
theorem Settling.mem_elements {S : Set Operation} {d : Document} (h : Settling S d [])
    (hb : d.BufferSound) (x : ElementID) : x ∈ d.elements ↔ Rooted S x := by
  constructor
  · intro hx
    obtain ⟨hd, -⟩ := h.tree.atDepth_depth hx
    generalize d.depth x = n at hd
    induction hd with
    | root => exact .root
    | @child n x p hr hp _ ih =>
      obtain ⟨oper, hoper, rfl, hpar, -⟩ := h.source x hx hr
      obtain rfl := Option.some.inj (hp.symm.trans hpar)
      exact .insert hoper (ih (h.tree.parent_mem hr hp))
  · intro hx
    induction hx with
    | root => exact h.tree.root_mem
    | insert hoper _ ih =>
      refine (h.accounted _ hoper).resolve_right fun hw => ?_
      exact hb.parent_absent_of_mem (by simpa using hw) ih

/-- **Nothing in hand, the document is the one its operations amount to.** -/
theorem Settling.settled {S : Set Operation} {d : Document} (h : Settling S d [])
    (hb : d.BufferSound) (hc : Operation.Consistent S) : Settled S d := by
  have hmem := h.mem_elements hb
  have hparentOf : ∀ x p, AList.lookup x d.parentOf = some p ↔ x = rootId ∧ p = rootId ∨
      x ≠ rootId ∧ Rooted S x ∧ ∃ oper, .insert oper ∈ S ∧ oper.ident = x ∧ oper.parent = p := by
    intro x p
    by_cases hr : x = rootId
    · rw [hr, h.tree.parentOf_root]
      simp [eq_comm]
    · rw [← hmem]
      simp only [hr, false_and, false_or, ne_eq, not_false_eq_true, true_and]
      constructor
      · intro hp
        have hx := (h.tree.mem_parentOf x).mp (UMap.mem_of_lookup hp)
        obtain ⟨oper, hoper, he, hpar, -⟩ := h.source x hx hr
        exact ⟨hx, oper, hoper, he, Option.some.inj (hpar.symm.trans hp)⟩
      · rintro ⟨hx, oper, hoper, rfl, rfl⟩
        obtain ⟨oper', hoper', he, hpar, -⟩ := h.source _ hx hr
        rw [hpar, hc oper' oper hoper' hoper he]
  have hwait : ∀ oper, oper ∈ UMap.contents d.bufferedInserts ↔
      .insert oper ∈ S ∧ ¬ Rooted S oper.ident := by
    intro oper
    rw [← hmem]
    refine ⟨fun ho => ⟨h.mem_of_waiting oper (by simpa using ho), hb.ident_absent oper ho⟩, ?_⟩
    rintro ⟨ho, hno⟩
    simpa using (h.accounted oper ho).resolve_left hno
  refine
    { mem_elements := hmem
      root_char := h.root_char
      char := fun oper ho hr hx => ?_
      deleted := h.deleted
      mem_children := fun x => (h.tree.mem_children x).trans (hmem x)
      mem_childrenOf := fun x p => ?_
      descending := h.tree.descending
      parentOf := hparentOf
      nodup_buffered := hb.nodup.of_map
      mem_buffered := hwait
      filed := hb.filed
      mem_bufferedInsertIds := fun x => ?_
      mem_bufferedDeletes := fun x => by rw [h.mem_bufferedDeletes, hmem] }
  · obtain ⟨oper', ho', he, -, hch⟩ := h.source _ hx hr
    rw [hch, hc oper' oper ho' ho he]
  · rw [h.tree.mem_childrenOf, hparentOf]
    tauto
  · rw [hb.mem_ids]
    constructor
    · rintro ⟨oper, ho, rfl⟩
      exact ⟨oper, ((hwait oper).mp ho).1, rfl, ((hwait oper).mp ho).2⟩
    · rintro ⟨oper, ho, rfl, hno⟩
      exact ⟨oper, (hwait oper).mpr ⟨ho, hno⟩, rfl⟩

/-- **The document a consistent stream leads to.** -/
theorem settled_after (ops : List Operation) (hc : Operation.Consistent {op | op ∈ ops}) :
    Settled {op | op ∈ ops} (after ops) := by
  obtain ⟨-, hb, hs⟩ := settling_after ops hc
  exact hs.settled hb hc

/-! ## One set, one document -/

namespace Same

variable {d d' : Document}

theorem childrenOf_eq (h : Same d d') : d.childrenOf = d'.childrenOf :=
  funext fun x => by rw [childrenOf, childrenOf, UMap.bucket, UMap.bucket, h.children]

theorem mem_elements_iff (h : Same d d') (x : ElementID) : x ∈ d.elements ↔ x ∈ d'.elements := by
  rw [UMap.mem_iff_lookup, UMap.mem_iff_lookup, h.elements]

theorem preorder_eq (h : Same d d') : d.preorder = d'.preorder := by
  rw [preorder, preorder, h.childrenOf_eq, UMap.length_keys_congr h.mem_elements_iff]

theorem isVisible_eq (h : Same d d') : d.isVisible = d'.isVisible :=
  funext fun x => by rw [isVisible, isVisible, h.elements]

theorem charOf_eq (h : Same d d') : d.charOf = d'.charOf :=
  funext fun x => by rw [charOf, charOf, h.elements]

/-- The same document has the same text. -/
theorem render_eq (h : Same d d') (ht : d.IsTree) (ht' : d'.IsTree) : d.render = d'.render := by
  rw [ht.render_eq, ht'.render_eq, h.preorder_eq, h.isVisible_eq, h.charOf_eq]

end Same

/-- An element other than the root has an insert. -/
theorem Rooted.exists_insert {S : Set Operation} {x : ElementID} (h : Rooted S x)
    (hr : x ≠ rootId) : ∃ oper, .insert oper ∈ S ∧ oper.ident = x := by
  cases h with
  | root => exact absurd rfl hr
  | insert ho _ => exact ⟨_, ho, rfl⟩

/-- **Documents settled by one set are the same.** -/
theorem Settled.same {S : Set Operation} {d d' : Document} (h : Settled S d) (h' : Settled S d') :
    Same d d' := by
  have hmem : ∀ x, x ∈ d.elements ↔ x ∈ d'.elements := fun x =>
    (h.mem_elements x).trans (h'.mem_elements x).symm
  have hkids : d.childrenOf = d'.childrenOf := funext fun p =>
    List.Perm.eq_of_pairwise
      (fun a b _ _ (hab : a > b) (hba : b > a) => absurd hba (lt_asymm hab))
      (h.descending p) (h'.descending p)
      ((List.perm_ext_iff_of_nodup ((h.descending p).imp fun hab => ne_of_gt hab)
        ((h'.descending p).imp fun hab => ne_of_gt hab)).mpr fun x => by
          rw [h.mem_childrenOf, h'.mem_childrenOf])
  have hchar : ∀ x ∈ d.elements, d.charOf x = d'.charOf x := by
    intro x hx
    by_cases hr : x = rootId
    · rw [hr, h.root_char, h'.root_char]
    · obtain ⟨oper, ho, rfl⟩ := ((h.mem_elements x).mp hx).exists_insert hr
      rw [h.char oper ho hr hx, h'.char oper ho hr ((hmem _).mp hx)]
  refine
    { elements := fun x => ?_
      children := fun x => ?_
      parentOf := fun x => Option.ext fun p => (h.parentOf x p).trans (h'.parentOf x p).symm
      buffered := (Multiset.Nodup.ext h.nodup_buffered h'.nodup_buffered).mpr fun oper => by
        rw [h.mem_buffered, h'.mem_buffered]
      bufferedInsertIds := Finset.ext fun x => by
        rw [h.mem_bufferedInsertIds, h'.mem_bufferedInsertIds]
      bufferedDeletes := Finset.ext fun x => by
        rw [h.mem_bufferedDeletes, h'.mem_bufferedDeletes] }
  · by_cases hx : x ∈ d.elements
    · obtain ⟨c, hc⟩ := UMap.mem_iff_lookup.mp hx
      obtain ⟨c', hc'⟩ := UMap.mem_iff_lookup.mp ((hmem x).mp hx)
      have hch := hchar x hx
      rw [charOf, charOf, hc, hc'] at hch
      have hdel : c.deleted = c'.deleted :=
        Bool.eq_iff_iff.mpr ((h.deleted x c hc).trans (h'.deleted x c' hc').symm)
      rw [hc, hc']
      cases c
      cases c'
      exact congrArg some (congrArg₂ Character.mk hch hdel)
    · rw [AList.lookup_eq_none.mpr hx, AList.lookup_eq_none.mpr fun hx' => hx ((hmem x).mpr hx')]
  · by_cases hx : x ∈ d.children
    · have hx' : x ∈ d'.children := (h'.mem_children x).mpr ((h.mem_children x).mp hx)
      rw [UMap.lookup_eq_bucket hx, UMap.lookup_eq_bucket hx']
      exact congrArg some (congrFun hkids x)
    · have hx' : x ∉ d'.children := fun hx' =>
        hx ((h.mem_children x).mpr ((h'.mem_children x).mp hx'))
      rw [AList.lookup_eq_none.mpr hx, AList.lookup_eq_none.mpr hx']

/-- Streams of the same operations lead to the same document. -/
theorem same_after {ops ops' : List Operation} (hc : Operation.Consistent {op | op ∈ ops})
    (h : ∀ op, op ∈ ops' ↔ op ∈ ops) : Same (after ops') (after ops) := by
  have hset : {op | op ∈ ops'} = {op | op ∈ ops} := Set.ext h
  exact (hset ▸ settled_after ops' (hset.symm ▸ hc)).same (settled_after ops hc)

/-- **Convergence.**  A stream whose inserts agree on their ids runs through without a throw, to the
document its set of operations amounts to; every stream of the same set leads to the same document
and the same text. -/
theorem converges (ops : List Operation) (hc : Operation.Consistent {op | op ∈ ops}) :
    ops.foldlM Document.apply empty = .ok (after ops) ∧ Settled {op | op ∈ ops} (after ops) ∧
      ∀ ops' : List Operation, (∀ op, op ∈ ops' ↔ op ∈ ops) → Same (after ops') (after ops) ∧
        ∃ text, (after ops).render = .ok text ∧ (after ops').render = .ok text := by
  refine ⟨(settling_after ops hc).1, settled_after ops hc, fun ops' h => ?_⟩
  have hsame := same_after hc h
  exact ⟨hsame, _, (isTree_after ops).render_eq,
    (hsame.render_eq (isTree_after ops') (isTree_after ops)).trans (isTree_after ops).render_eq⟩

/-- A removal before its insert, a child before its parent, and a duplicate. -/
def scrambled : List Operation :=
  [.remove ⟨⟨1, str "a"⟩⟩, .insert ⟨⟨1, str "a"⟩, ⟨2, str "b"⟩, 66⟩,
    .insert ⟨rootId, ⟨1, str "a"⟩, 65⟩, .insert ⟨⟨1, str "a"⟩, ⟨2, str "b"⟩, 66⟩]

theorem converges_scrambled :
    scrambled.foldlM Document.apply empty = .ok (after scrambled) ∧
      Settled {op | op ∈ scrambled} (after scrambled) ∧
      ∀ ops' : List Operation, (∀ op, op ∈ ops' ↔ op ∈ scrambled) →
        Same (after ops') (after scrambled) ∧
        ∃ text, (after scrambled).render = .ok text ∧ (after ops').render = .ok text :=
  converges scrambled (by decide)

/-! ## One order -/

/-- `x` stands before `y` in the depth-first order, tombstones included. -/
def Before (d : Document) (x y : ElementID) : Prop := [x, y] <+ d.preorder

instance (d : Document) (x y : ElementID) : Decidable (d.Before x y) :=
  inferInstanceAs (Decidable ([x, y] <+ d.preorder))

theorem extends_after_append (ops later : List Operation) :
    Extends (after ops) (after (ops ++ later)) := by
  induction later using List.reverseRecOn with
  | nil =>
    rw [List.append_nil]
    exact .refl _
  | append_singleton later op ih =>
    rw [← List.append_assoc, after_append_singleton]
    exact ih.trans ((isTree_after _).apply op).2

/-- More operations leave the order of two elements alone. -/
theorem before_append_iff (ops later : List Operation) {x y : ElementID}
    (hx : x ∈ (after ops).elements) (hy : y ∈ (after ops).elements) :
    (after ops).Before x y ↔ (after (ops ++ later)).Before x y :=
  (isTree_after (ops ++ later)).nodup_preorder.pair_sublist_iff
    ((extends_after_append ops later).preorder_sublist (isTree_after _) (isTree_after _))
    ((isTree_after ops).mem_preorder.mpr hx) ((isTree_after ops).mem_preorder.mpr hy)

/-- **One global order.**  Two documents that applied operations of one universe, whichever, order
any two elements they share alike, and no later operation changes that order. -/
theorem before_iff {U : Set Operation} (hU : Operation.Consistent U) {ops ops' : List Operation}
    (hops : ∀ op ∈ ops, op ∈ U) (hops' : ∀ op ∈ ops', op ∈ U) {x y : ElementID}
    (hx : x ∈ (after ops).elements) (hy : y ∈ (after ops).elements)
    (hx' : x ∈ (after ops').elements) (hy' : y ∈ (after ops').elements) :
    ((after ops).Before x y ↔ (after ops').Before x y) ∧
      ∀ later : List Operation, (after ops).Before x y ↔ (after (ops ++ later)).Before x y := by
  have hc : Operation.Consistent {op | op ∈ ops' ++ ops} :=
    hU.mono fun op hop => (List.mem_append.mp hop).elim (hops' op) (hops op)
  have hsame : Same (after (ops ++ ops')) (after (ops' ++ ops)) :=
    same_after hc fun op => by rw [List.mem_append, List.mem_append, or_comm]
  refine ⟨?_, fun later => before_append_iff ops later hx hy⟩
  rw [before_append_iff ops ops' hx hy, before_append_iff ops' ops hx' hy', Before, Before,
    hsame.preorder_eq]

theorem before_iff_scrambled :
    ((after scrambled).Before ⟨1, str "a"⟩ ⟨2, str "b"⟩ ↔
        (after scrambled.reverse).Before ⟨1, str "a"⟩ ⟨2, str "b"⟩) ∧
      ∀ later : List Operation, (after scrambled).Before ⟨1, str "a"⟩ ⟨2, str "b"⟩ ↔
        (after (scrambled ++ later)).Before ⟨1, str "a"⟩ ⟨2, str "b"⟩ :=
  before_iff (U := {op | op ∈ scrambled}) (by decide) (fun _ h => h)
    (fun _ h => List.mem_reverse.mp h) (by decide) (by decide) (by decide) (by decide)

end CrdtEditor.Document
