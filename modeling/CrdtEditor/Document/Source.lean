import CrdtEditor.Document.Tree

/-!
# Document/Source — where elements come from

Whatever a stream of operations does to the buffer, an element of the document and an operation that
waits came with an insert of the stream (`sourced_after`).  An insert below a present parent is a child
of it then, though the drain behind it may throw (`mem_childrenOf_apply`), and the first one if its id
is above all others (`head?_childrenOf_apply`).
-/

namespace CrdtEditor.Document

variable {S T : Set ElementID} {d : Document} {oper : InsertOperation}

/-- Every element but the root, and everything buffered, has its id in `S`. -/
structure Sourced (S : Set ElementID) (d : Document) : Prop where
  element : ∀ x ∈ d.elements, x = rootId ∨ x ∈ S
  buffered : ∀ op ∈ UMap.contents d.bufferedInserts, op.ident ∈ S

namespace Sourced

/-- The empty document holds the root alone. -/
theorem empty (S : Set ElementID) : Sourced S Document.empty where
  element _ hx := Or.inl (mem_empty_elements.mp hx)
  buffered op hop := by simp [Document.empty] at hop

/-- More ids to come from. -/
theorem mono (h : Sourced S d) (hsub : S ⊆ T) : Sourced T d where
  element x hx := (h.element x hx).imp id fun hm => hsub hm
  buffered op hop := hsub (h.buffered op hop)

/-- A held operation waits with its own id. -/
theorem buffer (h : Sourced S d) (ho : oper.ident ∈ S) : Sourced S (d.buffer oper) where
  element x hx := h.element x (by rwa [buffer_elements] at hx)
  buffered op hop := by
    rw [Document.buffer] at hop
    split at hop
    case isTrue => exact h.buffered op hop
    case isFalse =>
      rw [UMap.contents_push, Multiset.mem_cons] at hop
      obtain rfl | hop := hop
      exacts [ho, h.buffered op hop]

/-- An attached element is known by its own id. -/
theorem attach (h : Sourced S d) (ho : oper.ident ∈ S) : Sourced S (d.attach oper) where
  element x hx := by
    obtain rfl | hx := (d.mem_attach_elements oper).mp hx
    exacts [Or.inr ho, h.element x hx]
  buffered := h.buffered

/-- Taking a bucket out forgets ids only. -/
theorem release (h : Sourced S d) (id : ElementID) : Sourced S (d.release id) where
  element := h.element
  buffered op hop := by
    refine h.buffered op ?_
    rw [UMap.contents_erase d.bufferedInserts id]
    exact Multiset.mem_add.mpr (Or.inr hop)

/-- What waits for an id has its own id in `S`. -/
theorem waiting (h : Sourced S d) {id : ElementID} {ops : List InsertOperation}
    (hl : AList.lookup id d.bufferedInserts = some ops) : ∀ op ∈ ops, op.ident ∈ S :=
  fun op hop => h.buffered op (UMap.mem_contents.mpr ⟨id, ops, hl, hop⟩)

/-- **An insert brings in no id but its own**, however much it drains. -/
theorem applyInsert : ∀ (fuel : ℕ) {d : Document} {oper : InsertOperation}, Sourced S d →
    oper.ident ∈ S → (applyInsert fuel d oper).Ends (Sourced S) (Sourced S)
  | 0, _, _, h, _ => h
  | fuel + 1, d, oper, h, ho => by
      have hattach := h.attach ho
      rw [Document.applyInsert]
      refine Except.ends_ite (fun _ => h) fun _ => Except.ends_ite (fun _ => h.buffer ho) fun _ => ?_
      cases hl : AList.lookup oper.ident (d.attach oper).bufferedInserts with
      | none =>
        simp only [hl]
        exact hattach
      | some waiting =>
        simp only [hl]
        refine Except.Ends.bind (P := Sourced S) ?_ fun t ht => ?_
        · refine (Except.ends_foldlM (I := fun ops t => (∀ op ∈ ops, op.ident ∈ S) ∧ Sourced S t)
            (fun op ops t ht => ?_) ⟨hattach.waiting hl, hattach.release oper.ident⟩).imp
            (fun _ ht => ht.2) fun _ ht => ht
          have hop := applyInsert fuel ht.2 (ht.1 op List.mem_cons_self)
          exact hop.imp (fun u hu => ⟨fun o ho => ht.1 o (List.mem_cons_of_mem op ho), hu⟩) fun _ hu => hu
        · cases t.checkBuffer with
          | ok _ => exact ht
          | error _ => exact ht

end Sourced

/-- **Elements, and operations that wait, came with an insert of the stream.** -/
theorem sourced_after (ops : List Operation) :
    Sourced {x | ∃ oper, .insert oper ∈ ops ∧ oper.ident = x} (after ops) := by
  induction ops using List.reverseRecOn with
  | nil => exact .empty _
  | append_singleton ops op ih =>
    rw [after_append_singleton]
    have hmono := ih.mono (T := {x | ∃ oper, .insert oper ∈ ops ++ [op] ∧ oper.ident = x})
      fun x ⟨oper, ho, hx⟩ => ⟨oper, List.mem_append_left _ ho, hx⟩
    cases op with
    | insert oper => exact (hmono.applyInsert _ ⟨oper, by simp, rfl⟩).state
    | remove oper =>
      refine ⟨fun x hx => hmono.element x ((mem_applyDelete_elements _ _ x).mp hx), fun op hop => ?_⟩
      change op ∈ UMap.contents ((after ops).applyDelete oper).bufferedInserts at hop
      rw [applyDelete_bufferedInserts] at hop
      exact hmono.buffered op hop

/-! ## The insert itself -/

/-- What follows the attachment of an insert only extends the document. -/
theorem IsTree.extends_apply_insert (h : d.IsTree) (hid : oper.ident ∉ d.elements)
    (hpar : oper.parent ∈ d.elements) :
    Extends (d.attach oper) (d.apply (.insert oper)).state := by
  have hattach := h.attach hid hpar
  rw [Document.apply, Document.applyInsert, if_neg hid, if_neg (not_not.mpr hpar)]
  cases hl : AList.lookup oper.ident (d.attach oper).bufferedInserts with
  | none =>
    simp only [hl]
    exact Extends.refl (d.attach oper)
  | some waiting =>
    simp only [hl]
    let P (t : Document) : Prop := t.IsTree ∧ Extends (d.attach oper) t
    refine (Except.Ends.state (P := P) ?_).2
    refine Except.Ends.bind (P := P) (Q := P) ?_ fun t ht => ?_
    · refine Except.ends_foldlM (I := fun _ => P) (fun op _ t ht => ?_)
        ⟨hattach.congr (by simp) rfl rfl, extends_release _ _⟩
      have hop := ht.1.applyInsert d.bufferedCount op
      have hP : P (Document.applyInsert d.bufferedCount t op).state := ⟨hop.1, ht.2.trans hop.2⟩
      cases hr : Document.applyInsert d.bufferedCount t op with
      | ok u => rwa [hr] at hP
      | error e => rwa [hr] at hP
    · cases t.checkBuffer with
      | ok _ => exact ht
      | error _ => exact ht

/-- **An insert below a present parent is a child of it.** -/
theorem IsTree.mem_childrenOf_apply (h : d.IsTree) (hid : oper.ident ∉ d.elements)
    (hpar : oper.parent ∈ d.elements) :
    oper.ident ∈ (d.apply (.insert oper)).state.childrenOf oper.parent := by
  have hroot : oper.ident ≠ rootId := fun he => hid (he ▸ h.root_mem)
  have hparent : AList.lookup oper.ident (d.attach oper).parentOf = some oper.parent := by
    rw [lookup_attach_parentOf h hid, if_pos rfl]
  exact ((h.apply (.insert oper)).1.mem_childrenOf _ _).mpr
    ⟨hroot, (h.extends_apply_insert hid hpar).parentOf _ _ hparent⟩

/-- **And the first one**, if every other element is below it. -/
theorem IsTree.head?_childrenOf_apply (h : d.IsTree) (hid : oper.ident ∉ d.elements)
    (hpar : oper.parent ∈ d.elements)
    (hmax : ∀ x ∈ (d.apply (.insert oper)).state.elements, x ≤ oper.ident) :
    ((d.apply (.insert oper)).state.childrenOf oper.parent).head? = some oper.ident := by
  have htree := (h.apply (.insert oper)).1
  have hmem := h.mem_childrenOf_apply hid hpar
  cases hc : (d.apply (.insert oper)).state.childrenOf oper.parent with
  | nil =>
    rw [hc] at hmem
    exact absurd hmem List.not_mem_nil
  | cons x l =>
    have hdesc := htree.descending oper.parent
    have hx : x ∈ (d.apply (.insert oper)).state.elements :=
      htree.mem_of_mem_childrenOf (p := oper.parent) (by rw [hc]; exact List.mem_cons_self)
    rw [hc] at hmem hdesc
    obtain he | hm := List.mem_cons.mp hmem
    · rw [he, List.head?_cons]
    · exact absurd (hmax x hx) (not_le.mpr (List.rel_of_pairwise_cons hdesc hm))

end CrdtEditor.Document
