import CrdtEditor.Document.State

/-!
# Document/Tree — the element tree survives every operation stream

`Document::validate` looks at three maps edge by edge; that the edges form a *tree* rests on the
order in which ids enter.  `IsTree` is the whole invariant: equal key sets, children lists that are
exactly the strictly descending inverse image of `parentOf`, and a parent chain to the root shorter
than the number of elements.  `Extends` is what one operation may change: elements, characters and
parents stay, a tombstone stays a tombstone.

Both are preserved by the three mutations an insert is made of (`applyInsert_induct`), so they hold
for arbitrary streams, and after a `throw`.
-/

namespace CrdtEditor.Document

/-! ## `validate` -/

/-- `Document::validate`, throwing the text of the first broken clause. -/
def validate (d : Document) : Except Exn Unit := do
  if rootId ∉ d.elements then throw (.runtimeError (str "ROOT_ID missing from elements"))
  if rootId ∉ d.children then throw (.runtimeError (str "ROOT_ID missing from children"))
  if rootId ∉ d.parentOf then throw (.runtimeError (str "ROOT_ID missing from parent_of"))
  d.elements.entries.forM fun e => do
    if e.1 ∉ d.children then
      throw (.runtimeError (str "Element exists but has no children entry: " ++ e.1.toStr))
    if e.1 ∉ d.parentOf then
      throw (.runtimeError (str "Element exists but has no parent: " ++ e.1.toStr))
  d.children.entries.forM fun e => e.2.forM fun child => do
    if child ∉ d.elements then
      throw (.runtimeError (str "Child exists in tree but not elements: " ++ child.toStr))
    match AList.lookup child d.parentOf with
    | none => throw (.runtimeError (str "Child has no parent_of entry: " ++ child.toStr))
    | some p =>
      if p ≠ e.1 then
        throw (.runtimeError (str "parent_of disagrees with children map for " ++ child.toStr))

/-- One step up; an id without a parent entry stays put. -/
def parent (d : Document) (x : ElementID) : ElementID := (AList.lookup x d.parentOf).getD x

/-- The parent chain of `x` meets the root after exactly `n` steps. -/
inductive AtDepth (d : Document) : ℕ → ElementID → Prop
  | root : AtDepth d 0 rootId
  | child {n : ℕ} {x p : ElementID} (hx : x ≠ rootId) (hp : AList.lookup x d.parentOf = some p)
      (h : AtDepth d n p) : AtDepth d (n + 1) x

/-- From depth `n` the root is `n` parents up. -/
theorem AtDepth.iterate_parent {d : Document} {n : ℕ} {x : ElementID} (h : d.AtDepth n x) :
    d.parent^[n] x = rootId := by
  induction h with
  | root => rfl
  | child _ hp _ ih =>
    rw [Function.iterate_succ_apply, parent, hp]
    exact ih

/-- **The tree invariant.** -/
structure IsTree (d : Document) : Prop where
  root_mem : rootId ∈ d.elements
  mem_children : ∀ x, x ∈ d.children ↔ x ∈ d.elements
  mem_parentOf : ∀ x, x ∈ d.parentOf ↔ x ∈ d.elements
  parentOf_root : AList.lookup rootId d.parentOf = some rootId
  mem_childrenOf : ∀ x p, x ∈ d.childrenOf p ↔ x ≠ rootId ∧ AList.lookup x d.parentOf = some p
  descending : ∀ p, (d.childrenOf p).Pairwise (· > ·)
  depth : ∀ x ∈ d.elements, ∃ n < d.elements.keys.length, d.AtDepth n x

/-- **What an operation may change**: nothing disappears, no character or parent moves, a deleted
element stays deleted. -/
structure Extends (d d' : Document) : Prop where
  element : ∀ x c, AList.lookup x d.elements = some c →
    ∃ c', AList.lookup x d'.elements = some c' ∧ c'.actualChar = c.actualChar ∧
      (c.deleted = true → c'.deleted = true)
  parentOf : ∀ x p, AList.lookup x d.parentOf = some p → AList.lookup x d'.parentOf = some p

/-- Nothing changed. -/
theorem Extends.refl (d : Document) : Extends d d where
  element _ c h := ⟨c, h, rfl, id⟩
  parentOf _ _ h := h

/-- One call after the other. -/
theorem Extends.trans {a b c : Document} (h : Extends a b) (h' : Extends b c) : Extends a c where
  element x ca ha := by
    obtain ⟨cb, hb, hch, hdel⟩ := h.element x ca ha
    obtain ⟨cc, hc, hch', hdel'⟩ := h'.element x cb hb
    exact ⟨cc, hc, hch'.trans hch, hdel' ∘ hdel⟩
  parentOf x p hp := h'.parentOf x p (h.parentOf x p hp)

/-- No element is ever lost. -/
theorem Extends.mem {d d' : Document} (h : Extends d d') {x : ElementID} (hx : x ∈ d.elements) :
    x ∈ d'.elements := by
  obtain ⟨c, hc⟩ := UMap.mem_iff_lookup.mp hx
  obtain ⟨c', hc', -⟩ := h.element x c hc
  exact UMap.mem_of_lookup hc'

/-! ## Reading the tree -/

namespace IsTree

variable {d : Document}

/-- A child is an element. -/
theorem mem_of_mem_childrenOf (h : d.IsTree) {x p : ElementID} (hx : x ∈ d.childrenOf p) :
    x ∈ d.elements :=
  (h.mem_parentOf x).mp (UMap.mem_of_lookup ((h.mem_childrenOf x p).mp hx).2)

/-- So is what it is a child of. -/
theorem parent_mem_of_mem_childrenOf (h : d.IsTree) {x p : ElementID} (hx : x ∈ d.childrenOf p) :
    p ∈ d.elements := by
  refine (h.mem_children p).mp ?_
  by_contra hp
  rw [childrenOf, UMap.bucket, AList.lookup_eq_none.mpr hp, Option.getD_none] at hx
  exact List.not_mem_nil hx

/-- Every element but the root hangs below its parent. -/
theorem exists_parent (h : d.IsTree) {x : ElementID} (hx : x ∈ d.elements) (hr : x ≠ rootId) :
    ∃ p, AList.lookup x d.parentOf = some p ∧ x ∈ d.childrenOf p := by
  obtain ⟨p, hp⟩ := UMap.mem_iff_lookup.mp ((h.mem_parentOf x).mpr hx)
  exact ⟨p, hp, (h.mem_childrenOf x p).mpr ⟨hr, hp⟩⟩

/-- A recorded parent is an element. -/
theorem parent_mem (h : d.IsTree) {x p : ElementID} (hr : x ≠ rootId)
    (hp : AList.lookup x d.parentOf = some p) : p ∈ d.elements :=
  h.parent_mem_of_mem_childrenOf ((h.mem_childrenOf x p).mpr ⟨hr, hp⟩)

/-- The root is below nothing, though it is recorded as its own parent. -/
theorem root_notMem_childrenOf (h : d.IsTree) (p : ElementID) : rootId ∉ d.childrenOf p :=
  fun hm => ((h.mem_childrenOf rootId p).mp hm).1 rfl

/-- Siblings are distinct. -/
theorem nodup_childrenOf (h : d.IsTree) (p : ElementID) : (d.childrenOf p).Nodup :=
  (h.descending p).imp fun hab => ne_of_gt hab

/-- **`validate` finds nothing to complain about in a tree.** -/
theorem validate_eq_ok (h : d.IsTree) : d.validate = .ok () := by
  have hchildren := (h.mem_children rootId).mpr h.root_mem
  have hparent := (h.mem_parentOf rootId).mpr h.root_mem
  have helements : (d.elements.entries.forM fun e => do
      if e.1 ∉ d.children then
        throw (.runtimeError (str "Element exists but has no children entry: " ++ e.1.toStr))
      if e.1 ∉ d.parentOf then
        throw (.runtimeError (str "Element exists but has no parent: " ++ e.1.toStr))) =
      (.ok () : Except Exn Unit) := by
    refine Except.forM_eq_ok fun e he => ?_
    have hmem : e.1 ∈ d.elements := List.mem_keys_of_mem he
    rw [if_neg (not_not.mpr ((h.mem_children e.1).mpr hmem)),
      if_neg (not_not.mpr ((h.mem_parentOf e.1).mpr hmem))]
    rfl
  rw [validate, if_neg (not_not.mpr h.root_mem), if_neg (not_not.mpr hchildren),
    if_neg (not_not.mpr hparent), helements]
  refine Except.forM_eq_ok fun e he => Except.forM_eq_ok fun child hc => ?_
  have hbucket : child ∈ d.childrenOf e.1 := by
    rw [childrenOf, UMap.bucket, UMap.mem_entries.mp (show (⟨e.1, e.2⟩ : Sigma _) ∈ _ from he)]
    exact hc
  have hp := ((h.mem_childrenOf child e.1).mp hbucket).2
  rw [if_neg (not_not.mpr (h.mem_of_mem_childrenOf hbucket)), hp]
  simp only [ne_eq, not_true_eq_false, if_false]
  rfl

end IsTree

/-! ## The mutations keep the tree -/

theorem mem_empty_elements {x : ElementID} : x ∈ empty.elements ↔ x = rootId :=
  (AList.mem_insert _).trans (by simp)

/-- **The empty document is a tree.** -/
theorem isTree_empty : empty.IsTree where
  root_mem := mem_empty_elements.mpr rfl
  mem_children x := by
    rw [mem_empty_elements]
    exact (AList.mem_insert _).trans (by simp)
  mem_parentOf x := by
    rw [mem_empty_elements]
    exact (AList.mem_insert _).trans (by simp)
  parentOf_root := by rw [empty, AList.lookup_insert]
  mem_childrenOf x p := by
    have hno : x ∉ empty.childrenOf p := by
      rw [childrenOf, empty, UMap.bucket_insert]
      split <;> simp [UMap.bucket]
    refine ⟨fun hx => absurd hx hno, ?_⟩
    rintro ⟨hx, hp⟩
    rw [empty, UMap.lookup_insert, if_neg hx] at hp
    exact absurd hp (by simp)
  descending p := by
    rw [childrenOf, empty, UMap.bucket_insert]
    split <;> simp [UMap.bucket]
  depth x hx := by
    exact ⟨0, by decide, mem_empty_elements.mp hx ▸ .root⟩

/-- A depth is only read off `parentOf`. -/
theorem AtDepth.mono {d d' : Document}
    (h : ∀ x p, AList.lookup x d.parentOf = some p → AList.lookup x d'.parentOf = some p)
    {n : ℕ} {x : ElementID} (hx : d.AtDepth n x) : d'.AtDepth n x := by
  induction hx with
  | root => exact .root
  | child hr hp _ ih => exact .child hr (h _ _ hp) ih

/-- The invariant is only read off the three maps. -/
theorem IsTree.congr {d d' : Document} (h : d.IsTree) (hkeys : ∀ x, x ∈ d'.elements ↔ x ∈ d.elements)
    (hchildren : d'.children = d.children) (hparent : d'.parentOf = d.parentOf) : d'.IsTree where
  root_mem := (hkeys _).mpr h.root_mem
  mem_children x := by rw [hchildren, hkeys, h.mem_children]
  mem_parentOf x := by rw [hparent, hkeys, h.mem_parentOf]
  parentOf_root := by rw [hparent, h.parentOf_root]
  mem_childrenOf x p := by rw [childrenOf, hchildren, hparent, ← h.mem_childrenOf, childrenOf]
  descending p := by rw [childrenOf, hchildren]; exact h.descending p
  depth x hx := by
    obtain ⟨n, hn, hd⟩ := h.depth x ((hkeys x).mp hx)
    refine ⟨n, ?_, hd.mono fun y p hp => by rw [hparent, hp]⟩
    rwa [UMap.length_keys_congr hkeys]

section Attach

variable {d : Document} {oper : InsertOperation}

/-- Attaching records the parent of the new element. -/
theorem lookup_attach_parentOf (h : d.IsTree) (hid : oper.ident ∉ d.elements) (x : ElementID) :
    AList.lookup x (d.attach oper).parentOf =
      if x = oper.ident then some oper.parent else AList.lookup x d.parentOf := by
  have hno : oper.ident ∉ d.parentOf := fun hm => hid ((h.mem_parentOf _).mp hm)
  change AList.lookup x (UMap.emplace d.parentOf oper.ident oper.parent) = _
  rw [UMap.emplace_of_notMem hno, UMap.lookup_insert]

/-- The children lists after an attachment: the parent's grows by the new id and is sorted again,
the new element's is empty. -/
theorem childrenOf_attach (h : d.IsTree) (hid : oper.ident ∉ d.elements)
    (hpar : oper.parent ∈ d.elements) (p : ElementID) :
    (d.attach oper).childrenOf p =
      if p = oper.parent then (d.childrenOf oper.parent ++ [oper.ident]).insertionSort (· ≥ ·)
      else if p = oper.ident then [] else d.childrenOf p := by
  have hne : oper.ident ≠ oper.parent := fun he => hid (he ▸ hpar)
  have hno : oper.ident ∉ AList.insert oper.parent (d.childrenOf oper.parent ++ [oper.ident])
      d.children := by
    rw [AList.mem_insert]
    rintro (he | hm)
    · exact hne he
    · exact hid ((h.mem_children _).mp hm)
  rw [childrenOf, attach]
  simp only
  rw [UMap.emplace_of_notMem hno, UMap.bucket_insert, UMap.bucket_insert, UMap.bucket_insert]
  by_cases hp : p = oper.parent
  · rw [if_pos hp, if_pos hp]
  · rw [if_neg hp, if_neg hp, if_neg hp, childrenOf]

/-- It puts the new element among the children of its parent, and changes no other list. -/
theorem mem_childrenOf_attach (h : d.IsTree) (hid : oper.ident ∉ d.elements)
    (hpar : oper.parent ∈ d.elements) (x p : ElementID) :
    x ∈ (d.attach oper).childrenOf p ↔
      (p = oper.parent ∧ x = oper.ident) ∨ x ∈ d.childrenOf p := by
  have hempty : d.childrenOf oper.ident = [] :=
    List.eq_nil_iff_forall_not_mem.mpr fun y hy => hid (h.parent_mem_of_mem_childrenOf hy)
  rw [childrenOf_attach h hid hpar]
  split
  case isTrue hp =>
    subst hp
    rw [List.mem_insertionSort, List.mem_append, List.mem_singleton]
    tauto
  case isFalse hp =>
    split
    case isTrue hi =>
      subst hi
      simp [hp, hempty]
    case isFalse hi => simp [hp]

/-- Sorting a duplicate-free list by `≥` makes it strictly descending. -/
theorem pairwise_gt_insertionSort {α : Type*} [LinearOrder α] {l : List α} (h : l.Nodup) :
    (l.insertionSort (· ≥ ·)).Pairwise (· > ·) := by
  have hsorted := List.pairwise_insertionSort (· ≥ ·) l
  have hnodup : (l.insertionSort (· ≥ ·)).Nodup := (List.perm_insertionSort _ l).nodup_iff.mpr h
  exact (hsorted.and hnodup).imp fun ⟨hge, hne⟩ => lt_of_le_of_ne hge hne.symm

/-- Attaching a new id adds to the tree. -/
theorem extends_attach (hid : oper.ident ∉ d.elements) : Extends d (d.attach oper) where
  element x c hx := by
    refine ⟨c, ?_, rfl, id⟩
    change AList.lookup x (AList.insert _ _ d.elements) = some c
    have hne : x ≠ oper.ident := fun he => hid (he ▸ UMap.mem_of_lookup hx)
    rw [UMap.lookup_insert, if_neg hne, hx]
  parentOf x p hx := by
    change AList.lookup x (UMap.emplace d.parentOf oper.ident oper.parent) = some p
    rw [UMap.emplace]
    split
    case isTrue => exact hx
    case isFalse hno =>
      have hne : x ≠ oper.ident := fun he => hno (he ▸ UMap.mem_of_lookup hx)
      rw [UMap.lookup_insert, if_neg hne, hx]

/-- **Attaching below a present parent keeps the tree.** -/
theorem IsTree.attach (h : d.IsTree) (hid : oper.ident ∉ d.elements)
    (hpar : oper.parent ∈ d.elements) : (d.attach oper).IsTree := by
  have hne : oper.ident ≠ oper.parent := fun he => hid (he ▸ hpar)
  have hroot : oper.ident ≠ rootId := fun he => hid (he ▸ h.root_mem)
  have hsize : (d.attach oper).elements.keys.length = d.elements.keys.length + 1 :=
    UMap.length_keys_insert hid _
  have hmono : ∀ x p, AList.lookup x d.parentOf = some p →
      AList.lookup x (d.attach oper).parentOf = some p := (extends_attach hid).parentOf
  refine
    { root_mem := (d.mem_attach_elements oper).mpr (Or.inr h.root_mem)
      mem_children := fun x => ?_
      mem_parentOf := fun x => ?_
      parentOf_root := by rw [lookup_attach_parentOf h hid, if_neg hroot.symm, h.parentOf_root]
      mem_childrenOf := fun x p => ?_
      descending := fun p => ?_
      depth := fun x hx => ?_ }
  · have hno : oper.ident ∉ AList.insert oper.parent (d.childrenOf oper.parent ++ [oper.ident])
        d.children := fun hm => by
      rcases (AList.mem_insert _).mp hm with he | hm
      · exact hne he
      · exact hid ((h.mem_children _).mp hm)
    change x ∈ AList.insert oper.parent _ (UMap.emplace _ oper.ident []) ↔ _
    rw [UMap.emplace_of_notMem hno, AList.mem_insert, AList.mem_insert, AList.mem_insert,
      mem_attach_elements, h.mem_children]
    constructor
    · rintro (rfl | rfl | rfl | hx)
      exacts [Or.inr hpar, Or.inl rfl, Or.inr hpar, Or.inr hx]
    · rintro (rfl | hx)
      exacts [Or.inr (Or.inl rfl), Or.inr (Or.inr (Or.inr hx))]
  · rw [UMap.mem_iff_lookup, lookup_attach_parentOf h hid, mem_attach_elements]
    split
    case isTrue hx => simp [hx]
    case isFalse hx => rw [← UMap.mem_iff_lookup, h.mem_parentOf, or_iff_right hx]
  · rw [mem_childrenOf_attach h hid hpar, lookup_attach_parentOf h hid, h.mem_childrenOf]
    by_cases hx : x = oper.ident
    · have hnone : AList.lookup x d.parentOf = none :=
        AList.lookup_eq_none.mpr fun hm => hid (hx ▸ (h.mem_parentOf x).mp hm)
      rw [if_pos hx, hnone, Option.some.injEq]
      simp [hx, hroot, eq_comm]
    · simp [hx]
  · rw [childrenOf_attach h hid hpar]
    split
    · refine pairwise_gt_insertionSort (List.nodup_append.mpr
        ⟨h.nodup_childrenOf _, List.nodup_singleton _, fun a ha b hb => ?_⟩)
      rw [List.mem_singleton.mp hb]
      rintro rfl
      exact hid (h.mem_of_mem_childrenOf ha)
    · split
      · exact List.Pairwise.nil
      · exact h.descending p
  · rcases (d.mem_attach_elements oper).mp hx with rfl | hx
    · obtain ⟨n, hn, hd⟩ := h.depth oper.parent hpar
      refine ⟨n + 1, by omega, .child hroot ?_ (hd.mono hmono)⟩
      rw [lookup_attach_parentOf h hid, if_pos rfl]
    · obtain ⟨n, hn, hd⟩ := h.depth x hx
      exact ⟨n, by omega, hd.mono hmono⟩

end Attach

section Delete

variable (d : Document) (oper : RemoveOperation)

@[simp] theorem applyDelete_children : (d.applyDelete oper).children = d.children := by
  rw [applyDelete]; split <;> rfl

@[simp] theorem applyDelete_parentOf : (d.applyDelete oper).parentOf = d.parentOf := by
  rw [applyDelete]; split <;> rfl

@[simp] theorem applyDelete_bufferedInserts :
    (d.applyDelete oper).bufferedInserts = d.bufferedInserts := by
  rw [applyDelete]; split <;> rfl

@[simp] theorem applyDelete_bufferedInsertIds :
    (d.applyDelete oper).bufferedInsertIds = d.bufferedInsertIds := by
  rw [applyDelete]; split <;> rfl

/-- A deletion sets one flag, of an element that is there. -/
theorem lookup_applyDelete_elements (x : ElementID) :
    AList.lookup x (d.applyDelete oper).elements =
      (AList.lookup x d.elements).map fun c =>
        if x = oper.theTarget then { c with deleted := true } else c := by
  rw [applyDelete]
  split
  case _ c hc =>
    rw [UMap.lookup_insert]
    by_cases hx : x = oper.theTarget
    · rw [if_pos hx, hx, hc, Option.map_some, if_pos rfl]
    · simp [hx]
  case _ hc =>
    by_cases hx : x = oper.theTarget
    · rw [hx, hc, Option.map_none]
    · simp [hx]

/-- A removal marks its element; it takes none out. -/
theorem mem_applyDelete_elements (x : ElementID) :
    x ∈ (d.applyDelete oper).elements ↔ x ∈ d.elements := by
  rw [UMap.mem_iff_lookup, UMap.mem_iff_lookup, lookup_applyDelete_elements]
  simp

/-- A removal may mark an element, and unmarks none. -/
theorem extends_applyDelete : Extends d (d.applyDelete oper) where
  element x c hx := by
    rw [lookup_applyDelete_elements, hx, Option.map_some]
    refine ⟨_, rfl, ?_, fun hc => ?_⟩ <;> split <;> simp [*]
  parentOf x p hx := by rwa [applyDelete_parentOf]

end Delete

/-! ## …and so does every operation -/

/-- Holding back leaves the tree alone. -/
theorem extends_buffer (d : Document) (oper : InsertOperation) : Extends d (d.buffer oper) where
  element x c hx := ⟨c, by rwa [buffer_elements], rfl, id⟩
  parentOf x p hp := by rwa [buffer_parentOf]

/-- Taking a bucket out too. -/
theorem extends_release (d : Document) (id : ElementID) : Extends d (d.release id) where
  element := (Extends.refl d).element
  parentOf _ _ hp := hp

/-- **An insert keeps the tree and adds to it**, thrown or not. -/
theorem IsTree.applyInsert {d : Document} (h : d.IsTree) (fuel : ℕ) (oper : InsertOperation) :
    (applyInsert fuel d oper).state.IsTree ∧ Extends d (applyInsert fuel d oper).state :=
  applyInsert_induct (P := fun d d' => d.IsTree → d'.IsTree ∧ Extends d d')
    (fun d h => ⟨h, .refl d⟩)
    (fun hab hbc h => ⟨(hbc (hab h).1).1, (hab h).2.trans (hbc (hab h).1).2⟩)
    (fun d oper h => ⟨h.congr (by simp) (by simp) (by simp), extends_buffer d oper⟩)
    (fun d oper hid hpar h => ⟨h.attach hid hpar, extends_attach hid⟩)
    (fun d id h => ⟨h.congr (by simp) rfl rfl, extends_release d id⟩) fuel d oper h

/-- **One operation, thrown or not, keeps the tree and only extends it.** -/
theorem IsTree.apply {d : Document} (h : d.IsTree) (op : Operation) :
    (d.apply op).state.IsTree ∧ Extends d (d.apply op).state := by
  cases op with
  | insert oper => exact h.applyInsert _ oper
  | remove oper =>
    have htree : (d.applyDelete oper).IsTree :=
      h.congr (d.mem_applyDelete_elements oper) (by simp) (by simp)
    exact ⟨htree, extends_applyDelete d oper⟩

/-- **Every document a stream of operations leads to is a tree.** -/
theorem isTree_after (ops : List Operation) : (after ops).IsTree := by
  induction ops using List.reverseRecOn with
  | nil => exact isTree_empty
  | append_singleton ops op ih =>
    rw [after_append_singleton]
    exact (ih.apply op).1

/-- **The document tree over arbitrary streams**: `validate` succeeds, the three maps share their
keys, every element but the root is listed once, below its parent, in strictly descending lists,
its parents lead to the root, and one more operation only extends the document. -/
theorem tree_of_after (ops : List Operation) :
    (after ops).validate = .ok () ∧
    (∀ x, (x ∈ (after ops).children ↔ x ∈ (after ops).elements) ∧
      (x ∈ (after ops).parentOf ↔ x ∈ (after ops).elements)) ∧
    (∀ x ∈ (after ops).elements, x ≠ rootId → ∃ p,
      AList.lookup x (after ops).parentOf = some p ∧ ((after ops).childrenOf p).count x = 1 ∧
        ∀ q, q ≠ p → x ∉ (after ops).childrenOf q) ∧
    (∀ p, rootId ∉ (after ops).childrenOf p) ∧
    (∀ p, ((after ops).childrenOf p).Pairwise (· > ·)) ∧
    (∀ x ∈ (after ops).elements, ∃ n, (after ops).parent^[n] x = rootId) ∧
    ∀ op, Extends (after ops) (after (ops ++ [op])) := by
  have h := isTree_after ops
  refine ⟨h.validate_eq_ok, fun x => ⟨h.mem_children x, h.mem_parentOf x⟩, fun x hx hr => ?_,
    h.root_notMem_childrenOf, h.descending, fun x hx => ?_, fun op => ?_⟩
  · obtain ⟨p, hp, hmem⟩ := h.exists_parent hx hr
    refine ⟨p, hp, List.count_eq_one_of_mem (h.nodup_childrenOf p) hmem, fun q hq hxq => hq ?_⟩
    exact Option.some.inj (((h.mem_childrenOf x q).mp hxq).2.symm.trans hp)
  · obtain ⟨n, -, hn⟩ := h.depth x hx
    exact ⟨n, hn.iterate_parent⟩
  · rw [after_append_singleton]
    exact (h.apply op).2

end CrdtEditor.Document
