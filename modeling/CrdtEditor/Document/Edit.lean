import CrdtEditor.Document.Convergence
import CrdtEditor.Document.Coordinates

/-!
# Document/Edit — what one edit does to the text

An element attached below an anchor, with an id above its siblings, becomes the next anchor
(`anchors_attach`); a deleted one stops being an anchor (`anchors_applyDelete`).  Nothing else moves,
so the text gains or loses one character.
-/

namespace CrdtEditor.Document

variable {d d' : Document}

/-! ## What the traversal reads -/

/-- The traversal depends on the child lists only, and on how deep it may go. -/
theorem preorder_congr (hk : d'.elements.keys.length = d.elements.keys.length)
    (hc : d'.children = d.children) : d'.preorder = d.preorder := by
  have : d'.childrenOf = d.childrenOf := funext fun x => by rw [childrenOf, childrenOf, hc]
  rw [preorder, preorder, hk, this]

/-- The anchors are read from the elements and the child lists. -/
theorem anchors_congr (he : d'.elements = d.elements) (hc : d'.children = d.children) :
    d'.anchors = d.anchors := by
  have : d'.isVisible = d.isVisible := funext fun x => by rw [isVisible, isVisible, he]
  rw [anchors, anchors, preorder_congr (by rw [he]) hc, this]

/-- One more character behind the anchors `a ++ [p]`. -/
theorem text_of_insert {a b : List ElementID} {p x : ElementID} (hd : d.anchors = a ++ p :: b)
    (hd' : d'.anchors = a ++ p :: x :: b) (hc : ∀ y ∈ d.anchors, d'.charOf y = d.charOf y) :
    d'.text = d.text.take a.length ++ d'.charOf x :: d.text.drop a.length := by
  have hsplit : ∀ l : List ElementID, (a ++ p :: l).tail = (a ++ [p]).tail ++ l := fun l => by
    rw [← List.tail_append_of_ne_nil (by simp)]
    simp
  have hlen : (((a ++ [p]).tail).map d.charOf).length = a.length := by simp
  have htext : d.text = ((a ++ [p]).tail).map d.charOf ++ b.map d.charOf := by
    rw [← List.map_append, ← hsplit b, ← hd]
    rfl
  have htext' : d'.text = ((a ++ [p]).tail ++ x :: b).map d'.charOf := by
    rw [← hsplit (x :: b), ← hd']
    rfl
  have hsame : ∀ l ⊆ d.anchors, l.map d'.charOf = l.map d.charOf := fun l hl =>
    List.map_congr_left fun y hy => hc y (hl hy)
  rw [htext', htext, List.take_left' hlen, List.drop_left' hlen, List.map_append, List.map_cons,
    hsame _ fun y hy => ?_, hsame b (by rw [hd]; simp)]
  rw [hd]
  have := List.mem_of_mem_tail hy
  simp only [List.mem_append, List.mem_cons, List.not_mem_nil, or_false] at this ⊢
  tauto

/-- One anchor less. -/
theorem text_of_delete {a b : List ElementID} {x : ElementID} (hd : d.anchors = a ++ x :: b)
    (ha : a ≠ []) (hd' : d'.anchors = a ++ b) (hc : ∀ y ∈ d.anchors, d'.charOf y = d.charOf y) :
    d'.text = d.text.eraseIdx (a.length - 1) := by
  have htext : d.text = a.tail.map d.charOf ++ d.charOf x :: b.map d.charOf := by
    rw [← List.map_cons, ← List.map_append, ← List.tail_append_of_ne_nil ha, ← hd]
    rfl
  have htext' : d'.text = (a.tail ++ b).map d'.charOf := by
    rw [← List.tail_append_of_ne_nil ha, ← hd']
    rfl
  have hlen : (a.tail.map d.charOf).length = a.length - 1 := by simp
  rw [htext', htext, ← hlen, List.eraseIdx_append_of_length_le le_rfl, Nat.sub_self,
    List.eraseIdx_cons_zero, ← List.map_append]
  refine List.map_congr_left fun y hy => hc y ?_
  rw [hd]
  rcases List.mem_append.mp hy with hy | hy
  · exact List.mem_append_left _ (List.mem_of_mem_tail hy)
  · exact List.mem_append_right _ (List.mem_cons_of_mem _ hy)

/-! ## Inserting -/

section Insert

variable {oper : InsertOperation}

/-- An attached element is visible unless its removal came first; the others are as before. -/
theorem isVisible_attach (hid : oper.ident ≠ rootId) (x : ElementID) :
    (d.attach oper).isVisible x =
      if x = oper.ident then !decide (oper.ident ∈ d.bufferedDeletes) else d.isVisible x := by
  rw [isVisible, lookup_attach_elements]
  split
  case isTrue he => simp [he, hid]
  case isFalse => rw [isVisible]

/-- An id above its siblings comes first. -/
theorem childrenOf_attach_first (h : d.IsTree) (hid : oper.ident ∉ d.elements)
    (hpar : oper.parent ∈ d.elements) (hgt : ∀ x ∈ d.childrenOf oper.parent, x < oper.ident) :
    (d.attach oper).childrenOf oper.parent = oper.ident :: d.childrenOf oper.parent := by
  have hperm : ((d.attach oper).childrenOf oper.parent).Perm
      (oper.ident :: d.childrenOf oper.parent) := by
    rw [childrenOf_attach h hid hpar, if_pos rfl]
    exact (List.perm_insertionSort _ _).trans (List.perm_append_singleton _ _)
  have hdesc : (oper.ident :: d.childrenOf oper.parent).Pairwise (· > ·) :=
    List.pairwise_cons.mpr ⟨hgt, h.descending _⟩
  exact hperm.eq_of_pairwise
    (fun a b _ _ (hab : a > b) (hba : b > a) => absurd hab (lt_asymm hba))
    ((h.attach hid hpar).descending _) hdesc

/-- **Attaching the newest child** puts it right behind its parent. -/
theorem preorder_attach (h : d.IsTree) (hid : oper.ident ∉ d.elements)
    (hgt : ∀ x ∈ d.childrenOf oper.parent, x < oper.ident) {a b : List ElementID}
    (hl : d.preorder = a ++ oper.parent :: b) :
    (d.attach oper).preorder = a ++ oper.parent :: oper.ident :: b := by
  have hpar : oper.parent ∈ d.elements := h.mem_preorder.mp (by rw [hl]; simp)
  have hne : oper.ident ≠ oper.parent := fun he => hid (he ▸ hpar)
  have h' := h.attach hid hpar
  have hroots : h'.toTree.root = h.toTree.root := rfl
  have hgraft := OrderedTree.subtree_graft (T := h.toTree) (p := oper.parent)
    (x := oper.ident) hroots (h.node_iff.mpr hpar) (fun hn => hid (h.node_iff.mp hn))
    (childrenOf_attach_first h hid hpar hgt)
    (by rw [IsTree.toTree_kids, childrenOf_attach h hid hpar, if_neg hne, if_pos rfl])
    (fun y hyp hyi => by
      rw [IsTree.toTree_kids, IsTree.toTree_kids, childrenOf_attach h hid hpar, if_neg hyp,
        if_neg hyi])
    (.root : h.toTree.Node h.toTree.root)
  have hroot' : h'.toTree.subtree h.toTree.root = (d.attach oper).preorder :=
    h'.toTree.subtree_root
  have hroot : h.toTree.subtree h.toTree.root = d.preorder := OrderedTree.subtree_root
  rw [hroot', hroot] at hgraft
  have hnodup := h.nodup_preorder
  rw [hl, List.nodup_append, List.nodup_cons] at hnodup
  have hself : ∀ l : List ElementID, oper.parent ∉ l →
      (l.flatMap fun z => if z = oper.parent then [oper.parent, oper.ident] else [z]) = l :=
    fun l hp => by
      have hne : ∀ z ∈ l, (if z = oper.parent then [oper.parent, oper.ident] else [z]) = [z] :=
        fun z hz => if_neg fun he : z = oper.parent => hp (he ▸ hz)
      rw [List.flatMap_congr hne, List.flatMap_singleton']
  rw [hgraft, hl, List.flatMap_append, List.flatMap_cons, if_pos rfl,
    hself a fun hm => hnodup.2.2 _ hm _ List.mem_cons_self rfl, hself b hnodup.2.1.1]
  rfl

/-- **A character inserted behind an anchor is the next anchor.** -/
theorem anchors_attach (h : d.IsTree) (hid : oper.ident ∉ d.elements)
    (hgt : ∀ x ∈ d.childrenOf oper.parent, x < oper.ident) (hdel : oper.ident ∉ d.bufferedDeletes)
    {a b : List ElementID} (hp : d.anchors = a ++ oper.parent :: b) :
    (d.attach oper).anchors = a ++ oper.parent :: oper.ident :: b := by
  obtain ⟨a', b', hl, hb, hroot, hne⟩ := h.exists_preorder_eq hp
  have hidroot : oper.ident ≠ rootId := fun he => hid (he ▸ h.root_mem)
  have hpre := preorder_attach h hid hgt hl
  have hmem : ∀ x ∈ d.preorder, (d.attach oper).isVisible x = d.isVisible x := fun x hx => by
    have hx' : x ≠ oper.ident := fun he => hid (he ▸ h.mem_preorder.mp hx)
    rw [isVisible_attach hidroot, if_neg hx']
  have hfilter : ∀ l ⊆ d.preorder, l.filter (d.attach oper).isVisible = l.filter d.isVisible :=
    fun l hsub => List.filter_congr fun x hx => hmem x (hsub hx)
  have hvis : (d.attach oper).isVisible oper.ident = true := by
    simp [isVisible_attach hidroot, hdel]
  rw [anchors, hpre, List.filter_append, List.filter_cons, List.filter_cons, if_pos hvis,
    hfilter a' (by rw [hl]; simp), hfilter b' (by rw [hl]; simp), hb, hmem _ (by rw [hl]; simp)]
  by_cases hr : oper.parent = rootId
  · obtain ⟨rfl, rfl⟩ := hroot hr
    rw [hr, isVisible_root]
    rfl
  · have hpv : d.isVisible oper.parent = true := by
      have : oper.parent ∈ d.anchors := by rw [hp]; simp
      rcases List.mem_cons.mp this with he | hm
      exacts [absurd he hr, (List.mem_filter.mp hm).2]
    rw [hne hr, if_pos hpv]
    rfl

/-- **Nothing waits for a fresh element**: applying its insert attaches it. -/
theorem apply_insert_of_waiting_eq_nil (hid : oper.ident ∉ d.elements)
    (hpar : oper.parent ∈ d.elements) (hw : d.waiting oper.ident = [])
    (hd : d.apply (.insert oper) = .ok d') :
    d'.elements = (d.attach oper).elements ∧ d'.children = (d.attach oper).children := by
  rw [Document.apply, applyInsert, if_neg hid, if_neg (not_not.mpr hpar)] at hd
  simp only [attach_bufferedInserts] at hd
  cases hl : AList.lookup oper.ident d.bufferedInserts with
  | none =>
    rw [hl] at hd
    rw [← Except.ok.inj hd]
    exact ⟨rfl, rfl⟩
  | some waiting =>
    have hnil : waiting = [] := by rw [← hw, Document.waiting, UMap.bucket, hl, Option.getD_some]
    rw [hl, hnil] at hd
    simp only [List.foldlM_nil, bind, Except.bind, pure, Except.pure] at hd
    split at hd
    · rw [← Except.ok.inj hd]
      exact ⟨rfl, rfl⟩
    · cases hd

end Insert

/-! ## Deleting -/

section Delete

variable {oper : RemoveOperation}

/-- A removal hides its target. -/
theorem isVisible_applyDelete (x : ElementID) :
    (d.applyDelete oper).isVisible x = (d.isVisible x && x ≠ oper.theTarget) := by
  rw [isVisible, isVisible, lookup_applyDelete_elements]
  cases AList.lookup x d.elements with
  | none => simp
  | some c => by_cases he : x = oper.theTarget <;> simp [he]

/-- The character is kept. -/
theorem charOf_applyDelete (x : ElementID) : (d.applyDelete oper).charOf x = d.charOf x := by
  rw [charOf, charOf, lookup_applyDelete_elements]
  cases AList.lookup x d.elements with
  | none => rfl
  | some c => by_cases he : x = oper.theTarget <;> simp [he]

/-- The order too. -/
theorem preorder_applyDelete : (d.applyDelete oper).preorder = d.preorder :=
  preorder_congr (UMap.length_keys_congr fun x => d.mem_applyDelete_elements oper x) (by simp)

/-- **A deletion takes its target out of the anchors**, the root excepted. -/
theorem anchors_applyDelete :
    (d.applyDelete oper).anchors =
      rootId :: (d.preorder.filter d.isVisible).filter (· ≠ oper.theTarget) := by
  rw [anchors, preorder_applyDelete, List.filter_filter]
  congr 1
  exact List.filter_congr fun x _ => by rw [isVisible_applyDelete, Bool.and_comm]

end Delete

end CrdtEditor.Document
