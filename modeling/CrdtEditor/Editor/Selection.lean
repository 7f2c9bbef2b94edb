import CrdtEditor.Document.Convergence
import CrdtEditor.Editor.PlainEditor

/-!
# Editor/Selection — what deleting a selection deletes

`normalized_range` and `get_visible_range` look for the two ends of a selection among the visible
elements.  The elements they collect lie behind exactly one end that is found there
(`deleteSelection_eq`), the selected ones behind exactly one end (`Document.Between`).
-/

open scoped List

/-! ## Positions in a list without duplicates -/

section Pairs

variable {α : Type*} {l : List α} {x y z : α}

/-- A part of the list is known by its entries. -/
theorem List.Nodup.sublist_ext (h : l.Nodup) {a b : List α} (ha : a <+ l) (hb : b <+ l)
    (hmem : ∀ x, x ∈ a ↔ x ∈ b) : a = b := by
  have hperm : a.Perm b := (List.perm_ext_iff_of_nodup (h.sublist ha) (h.sublist hb)).mpr hmem
  have hpair : ∀ {c : List α}, c <+ l → c.Pairwise fun x y => [x, y] <+ l := fun hc =>
    List.pairwise_iff_forall_sublist.mpr fun hxy => hxy.trans hc
  exact hperm.eq_of_pairwise (fun x y _ _ hxy hyx => absurd hyx (h.not_sublist_swap hxy)) (hpair ha)
    (hpair hb)

/-- The list without a slice. -/
theorem List.take_append_drop_sublist {i j : ℕ} (hij : i ≤ j) : l.take i ++ l.drop j <+ l := by
  conv_rhs => rw [← List.take_append_drop i l]
  refine (List.Sublist.refl _).append ?_
  obtain ⟨k, rfl⟩ := Nat.exists_eq_add_of_le hij
  rw [← List.drop_drop]
  exact List.drop_sublist _ _

variable [DecidableEq α]

/-- The entry of a number has that number. -/
theorem List.Nodup.idxOf_of_getElem? (h : l.Nodup) {i : ℕ} (hx : l[i]? = some x) :
    l.idxOf x = i := by
  obtain ⟨hi, rfl⟩ := List.getElem?_eq_some_iff.mp hx
  exact h.idxOf_getElem i hi

/-- A slice of the list holds the entries with its numbers. -/
theorem List.Nodup.mem_slice (h : l.Nodup) {i j : ℕ} :
    x ∈ (l.take j).drop i ↔ x ∈ l ∧ i ≤ l.idxOf x ∧ l.idxOf x < j := by
  rw [List.mem_iff_getElem?]
  constructor
  · rintro ⟨k, hk⟩
    rw [List.getElem?_drop, List.getElem?_take] at hk
    split at hk
    case isTrue hlt =>
      have hidx := h.idxOf_of_getElem? hk
      exact ⟨List.mem_of_getElem? hk, by omega, by omega⟩
    case isFalse => cases hk
  · rintro ⟨hx, hi, hj⟩
    refine ⟨l.idxOf x - i, ?_⟩
    rw [List.getElem?_drop, Nat.add_sub_cancel' hi, List.getElem?_take_of_lt hj]
    exact List.getElem?_idxOf hx

/-- What is left without the entries of a slice. -/
theorem List.Nodup.filter_notMem_slice (h : l.Nodup) {i j : ℕ} (hij : i ≤ j) :
    l.filter (fun x => x ∉ (l.take j).drop i) = l.take i ++ l.drop j := by
  refine h.sublist_ext List.filter_sublist (List.take_append_drop_sublist hij) fun x => ?_
  have htake : x ∈ l.take i ↔ x ∈ l ∧ 0 ≤ l.idxOf x ∧ l.idxOf x < i := by
    rw [← h.mem_slice, List.drop_zero]
  have hdrop : x ∈ l.drop j ↔ x ∈ l ∧ j ≤ l.idxOf x ∧ l.idxOf x < l.length := by
    rw [← h.mem_slice, List.take_length]
  rw [List.mem_filter, List.mem_append, htake, hdrop, decide_eq_true_iff, h.mem_slice]
  by_cases hx : x ∈ l
  · have := List.idxOf_lt_length_of_mem hx
    simp only [hx, true_and]
    omega
  · simp only [hx, false_and, or_false]

theorem List.Nodup.pair_sublist_iff_idxOf (h : l.Nodup) :
    [x, y] <+ l ↔ x ∈ l ∧ y ∈ l ∧ l.idxOf x < l.idxOf y := by
  induction l with
  | nil => simp
  | cons a l ih =>
    obtain ⟨ha, hl⟩ := List.nodup_cons.mp h
    rw [List.cons_sublist_cons', ih hl, List.singleton_sublist]
    by_cases hx : x = a
    · subst hx
      by_cases hy : y = x
      · subst hy
        simp [ha]
      · simp [ha, hy, Ne.symm hy, List.idxOf_cons_ne]
    · by_cases hy : y = a
      · subst hy
        simp [ha, hx, Ne.symm hx]
      · simp [hx, hy, Ne.symm hx, Ne.symm hy, List.idxOf_cons_ne]

theorem List.Nodup.pair_sublist_trans (h : l.Nodup) (hxy : [x, y] <+ l) (hyz : [y, z] <+ l) :
    [x, z] <+ l := by
  rw [h.pair_sublist_iff_idxOf] at *
  exact ⟨hxy.1, hyz.2.1, hxy.2.2.trans hyz.2.2⟩

/-- Behind an entry of the list are the entries of its rest. -/
theorem List.Nodup.pair_sublist_append_cons {a b : List α} (h : (a ++ x :: b).Nodup) :
    [x, y] <+ a ++ x :: b ↔ y ∈ b := by
  constructor
  · intro hxy
    rw [h.pair_sublist_iff_idxOf] at hxy
    obtain ⟨-, hy, hlt⟩ := hxy
    have hxa : x ∉ a := fun hm => (List.nodup_append.mp h).2.2 x hm x List.mem_cons_self rfl
    rw [List.idxOf_append_of_notMem hxa, List.idxOf_cons_self, Nat.add_zero] at hlt
    rcases List.mem_append.mp hy with hya | hy
    · have := List.idxOf_lt_length_of_mem hya
      rw [List.idxOf_append_of_mem hya] at hlt
      omega
    · refine (List.mem_cons.mp hy).resolve_left fun he => ?_
      rw [he, List.idxOf_append_of_notMem hxa, List.idxOf_cons_self] at hlt
      omega
  · intro hy
    exact ((List.singleton_sublist.mpr hy).cons_cons x).trans (List.sublist_append_right a _)

end Pairs

namespace CrdtEditor

namespace Document

/-- Behind exactly one of the two ends: strictly after the earlier and up to and including the
later. -/
def Between (d : Document) (a b x : ElementID) : Prop :=
  d.Before a x ∧ ¬ d.Before b x ∨ d.Before b x ∧ ¬ d.Before a x

/-- Behind exactly one end that the traversal meets. -/
def Found (d : Document) (a b x : ElementID) : Prop :=
  a ∈ d.anchors ∧ d.Before a x ∧ ¬ (b ∈ d.anchors ∧ d.Before b x) ∨
    b ∈ d.anchors ∧ d.Before b x ∧ ¬ (a ∈ d.anchors ∧ d.Before a x)

/-- No visible element lies behind exactly one end that the traversal does not meet. -/
def Clear (d : Document) (a b : ElementID) : Prop :=
  ∀ x, d.isVisible x → (a ∉ d.anchors ∧ d.Before a x ↔ b ∉ d.anchors ∧ d.Before b x)

variable {d : Document} {a b x : ElementID}

theorem found_comm : d.Found a b x ↔ d.Found b a x := or_comm

/-- **What is found is what is between** exactly where nothing is behind an end that is not met. -/
theorem clear_iff_found : d.Clear a b ↔ ∀ x, d.isVisible x → (d.Found a b x ↔ d.Between a b x) := by
  refine forall₂_congr fun x _ => ?_
  rw [Found, Between]
  tauto

/-- With one end met, the other is met too or nothing visible lies behind it. -/
theorem clear_iff (hb : b ∈ d.anchors) :
    d.Clear a b ↔ a ∈ d.anchors ∨ ∀ x, d.isVisible x → ¬ d.Before a x := by
  simp only [Clear, or_iff_not_imp_left, hb, not_true_eq_false, false_and, iff_false, not_and]
  exact ⟨fun hc ha x hx => hc x hx ha, fun hc x hx ha => hc ha x hx⟩

namespace IsTree

theorem before_or (h : d.IsTree) (ha : a ∈ d.elements) (hx : x ∈ d.elements) (hne : a ≠ x) :
    d.Before a x ∨ d.Before x a :=
  List.pair_sublist_or (h.mem_preorder.mpr ha) (h.mem_preorder.mpr hx) hne

theorem not_before_self (h : d.IsTree) : ¬ d.Before x x := fun hx =>
  h.nodup_preorder.not_sublist_swap hx hx

/-- **`Between` is what it is called.** -/
theorem between_iff (h : d.IsTree) (hab : d.Before a b) (hx : x ∈ d.elements) :
    d.Between a b x ↔ d.Before a x ∧ (x = b ∨ d.Before x b) := by
  have hb : b ∈ d.elements := h.mem_preorder.mp (hab.subset (by simp))
  constructor
  · rintro (⟨hax, hno⟩ | ⟨hbx, hno⟩)
    · refine ⟨hax, or_iff_not_imp_left.mpr fun hne => ?_⟩
      exact (h.before_or hx hb hne).resolve_right hno
    · exact absurd (h.nodup_preorder.pair_sublist_trans hab hbx) hno
  · rintro ⟨hax, rfl | hxb⟩
    · exact Or.inl ⟨hax, h.not_before_self⟩
    · exact Or.inl ⟨hax, h.nodup_preorder.not_sublist_swap hxb⟩

theorem anchors_sublist (h : d.IsTree) : d.anchors <+ d.preorder := by
  obtain ⟨l, hl⟩ := List.head?_eq_some_iff.mp h.head?_preorder
  rw [anchors, hl, List.filter_cons_of_neg (by simp [isVisible_root])]
  exact (List.filter_sublist).cons_cons rootId

/-- Between anchors, the order of the document is the order of the anchors. -/
theorem before_iff_anchors (h : d.IsTree) (ha : a ∈ d.anchors) (hx : x ∈ d.anchors) :
    d.Before a x ↔ [a, x] <+ d.anchors :=
  (h.nodup_preorder.pair_sublist_iff h.anchors_sublist ha hx).symm

/-- **The anchors behind an anchor** are the visible elements behind it. -/
theorem mem_tail_iff (h : d.IsTree) {p q : List ElementID} (hp : d.anchors = p ++ a :: q) :
    x ∈ q ↔ d.isVisible x ∧ d.Before a x := by
  have ha : a ∈ d.anchors := by rw [hp]; simp
  have hnodup := h.nodup_anchors
  have hq : x ∈ q ↔ [a, x] <+ d.anchors := by
    rw [hp] at hnodup ⊢
    exact hnodup.pair_sublist_append_cons.symm
  rw [hq]
  constructor
  · intro hx
    have hxa : x ∈ d.anchors := hx.subset (by simp)
    refine ⟨(h.mem_anchors.mp hxa).resolve_left ?_, (h.before_iff_anchors ha hxa).mpr hx⟩
    -- the root has nothing in front
    rintro rfl
    exact (List.nodup_cons.mp hnodup).1 (hx.tail.subset (by simp))
  · rintro ⟨hv, hx⟩
    exact (h.before_iff_anchors ha (h.mem_anchors.mpr (Or.inr hv))).mp hx

end IsTree

/-! ## The range that is collected -/

section Range

variable {range : DocumentRange} {ids : List ElementID}

/-- Without its start nothing is collected. -/
theorem rangeFrom_false (h : range.start ∉ ids) : rangeFrom range false ids = [] := by
  induction ids with
  | nil => rfl
  | cons id ids ih =>
    rw [List.mem_cons, not_or] at h
    rw [rangeFrom, ih h.2, if_neg (Ne.symm h.1)]
    simp

/-- Before its ends nothing is collected. -/
theorem rangeFrom_append {p : List ElementID} (hstart : range.start ∉ p) (hstop : range.stop ∉ p)
    (ids : List ElementID) : rangeFrom range false (p ++ ids) = rangeFrom range false ids := by
  induction p with
  | nil => rfl
  | cons id p ih =>
    rw [List.mem_cons, not_or] at hstart hstop
    rw [List.cons_append, rangeFrom, if_neg (Ne.symm hstop.1), if_neg (Ne.symm hstart.1),
      ih hstart.2 hstop.2]
    rfl

/-- **What is collected is not behind the end.** -/
theorem mem_rangeFrom_true (h : ids.Nodup) (hstart : range.start ∉ ids) {x : ElementID} :
    x ∈ rangeFrom range true ids ↔ x ∈ ids ∧ ¬ [range.stop, x] <+ ids := by
  induction ids with
  | nil => simp [rangeFrom]
  | cons id ids ih =>
    obtain ⟨hid, hids⟩ := List.nodup_cons.mp h
    rw [List.mem_cons, not_or] at hstart
    rw [rangeFrom, List.cons_sublist_cons', List.singleton_sublist]
    split
    case isTrue hstop =>
      subst hstop
      rw [rangeFrom_false hstart.2]
      constructor
      · intro hx
        obtain rfl : x = range.stop := by simpa using hx
        exact ⟨List.mem_cons_self, fun hno => hid (hno.elim (fun hs => hs.subset (by simp))
          fun hm => hm.2)⟩
      · rintro ⟨hx, hno⟩
        rcases List.mem_cons.mp hx with rfl | hx
        · simp
        · exact absurd (Or.inr ⟨rfl, hx⟩) hno
    case isFalse hstop =>
      rw [if_neg (Ne.symm hstart.1)]
      simp only [if_true, List.singleton_append, List.mem_cons, ih hids hstart.2]
      constructor
      · rintro (rfl | ⟨hx, hno⟩)
        · refine ⟨Or.inl rfl, fun hor => hor.elim (fun hs => hid (hs.subset (by simp))) fun hm => ?_⟩
          exact hstop hm.1.symm
        · exact ⟨Or.inr hx, fun hor => hor.elim hno fun hm => hstop hm.1.symm⟩
      · rintro ⟨rfl | hx, hno⟩
        · exact Or.inl rfl
        · exact Or.inr ⟨hx, fun hs => hno (Or.inl hs)⟩

/-- **`get_visible_range` from an anchor**: what is visible behind it, and not behind the other end
where the traversal meets that too. -/
theorem IsTree.mem_getVisibleRange (h : d.IsTree) {p q : List ElementID}
    (hne : range.start ≠ range.stop) (hp : d.anchors = p ++ range.start :: q)
    (hstop : range.stop ∉ p) :
    ∃ ids, d.getVisibleRange range = .ok ids ∧ ids <+ d.preorder.filter d.isVisible ∧
      ∀ x, x ∈ ids ↔ d.isVisible x ∧ d.Before range.start x ∧
        ¬ (range.stop ∈ d.anchors ∧ d.Before range.stop x) := by
  have hnodup := h.nodup_anchors
  have hq : q.Nodup ∧ range.start ∉ q := by
    rw [hp] at hnodup
    exact (List.nodup_cons.mp (List.nodup_append.mp hnodup).2.1).symm
  -- the loop reaches the start with nothing collected
  have hrange : rangeFrom range (range.start = rootId) (d.preorder.filter d.isVisible) =
      rangeFrom range true q := by
    cases p with
    | nil =>
      obtain ⟨hroot, hv⟩ : rootId = range.start ∧ d.preorder.filter d.isVisible = q := by
        simpa [anchors] using hp
      rw [hv, ← hroot, decide_eq_true rfl]
    | cons r p =>
      obtain ⟨rfl, hv⟩ : rootId = r ∧ d.preorder.filter d.isVisible = p ++ range.start :: q := by
        simpa [anchors] using hp
      rw [hp, List.cons_append, List.nodup_cons] at hnodup
      have hroot : range.start ≠ rootId := fun he => hnodup.1 (by rw [← he]; simp)
      have hstart : range.start ∉ p := fun hm =>
        (List.nodup_append.mp hnodup.2).2.2 _ hm _ List.mem_cons_self rfl
      rw [hv, decide_eq_false hroot,
        rangeFrom_append hstart fun hm => hstop (List.mem_cons_of_mem _ hm), rangeFrom, if_neg hne,
        if_pos rfl]
  have hmem : ∀ x, x ∈ rangeFrom range true q ↔ d.isVisible x ∧ d.Before range.start x ∧
      ¬ (range.stop ∈ d.anchors ∧ d.Before range.stop x) := by
    intro x
    rw [mem_rangeFrom_true hq.1 hq.2, ← and_assoc, ← h.mem_tail_iff hp]
    refine and_congr_right fun hx => not_congr ⟨fun hs => ?_, ?_⟩
    · have hsub : q <+ d.anchors := by
        rw [hp]
        exact (List.sublist_cons_self _ q).trans (List.sublist_append_right p _)
      have hs := hs.trans hsub
      have hsa : range.stop ∈ d.anchors := hs.subset List.mem_cons_self
      exact ⟨hsa, (h.before_iff_anchors hsa (hsub.subset hx)).mpr hs⟩
    · rintro ⟨hsa, hs⟩
      have hxa : x ∈ d.anchors := by rw [hp]; simp [hx]
      have hs := (h.before_iff_anchors hsa hxa).mp hs
      rw [hp] at hsa hs hnodup
      rw [List.mem_append, List.mem_cons] at hsa
      have hsq := (hsa.resolve_left hstop).resolve_left hne.symm
      exact (hnodup.pair_sublist_iff ((List.sublist_cons_self _ q).trans
        (List.sublist_append_right p _)) hsq hx).mpr hs
  refine ⟨rangeFrom range true q, ?_, hrange ▸ rangeFrom_sublist range _ _, hmem⟩
  rw [getVisibleRange, if_neg hne, h.visible_eq]
  exact congrArg Except.ok hrange

end Range

end Document

/-! ## The selection of a caret -/

namespace Cursor

/-- The caret at the other end of its selection. -/
def exchange (c : Cursor) (a : ElementID) : Cursor :=
  { c with anchor := a, selectionAnchor := some c.anchor }

theorem hasSelection_iff {c : Cursor} :
    c.hasSelection ↔ ∃ a, c.selectionAnchor = some a ∧ a ≠ c.anchor := by
  rw [hasSelection]
  cases c.selectionAnchor <;> simp

/-- **`normalized_range` begins with the end that the traversal meets first**, and fails where it
meets none. -/
theorem normalizedRange_cases {doc : Document} (h : doc.IsTree) {c : Cursor} {a : ElementID}
    (hs : c.selectionAnchor = some a) (hne : a ≠ c.anchor) :
    (a ∉ doc.anchors ∧ c.anchor ∉ doc.anchors ∧ c.normalizedRange doc = .ok none) ∨
    ∃ range p q, c.normalizedRange doc = .ok (some range) ∧
      (range = ⟨a, c.anchor⟩ ∨ range = ⟨c.anchor, a⟩) ∧
      doc.anchors = p ++ range.start :: q ∧ range.stop ∉ p := by
  have hsel : c.hasSelection = true := hasSelection_iff.mpr ⟨a, hs, hne⟩
  have hget : c.getSelectionAnchor = .ok a := by rw [getSelectionAnchor, hsel, hs]
  rw [normalizedRange]
  simp only [hsel, hget, h.visible_eq, Bool.not_true, Bool.false_eq_true, if_false, bind,
    Except.bind, pure, Except.pure, if_neg hne]
  by_cases ha : a = rootId
  · refine Or.inr ⟨⟨a, c.anchor⟩, [], doc.preorder.filter doc.isVisible, if_pos ha, Or.inl rfl, ?_,
      List.not_mem_nil⟩
    rw [Document.anchors, ha]
    rfl
  rw [if_neg ha]
  by_cases hc : c.anchor = rootId
  · refine Or.inr ⟨⟨c.anchor, a⟩, [], doc.preorder.filter doc.isVisible, if_pos hc, Or.inr rfl, ?_,
      List.not_mem_nil⟩
    rw [Document.anchors, hc]
    rfl
  rw [if_neg hc]
  -- neither end is the root: both are looked for in the text
  cases hfind : (doc.preorder.filter doc.isVisible).find? fun id => id = a || id = c.anchor with
  | none =>
    have hno := List.find?_eq_none.mp hfind
    refine Or.inl ⟨fun hm => ?_, fun hm => ?_, rfl⟩
    · exact hno a ((List.mem_cons.mp hm).resolve_left ha) (by simp)
    · exact hno c.anchor ((List.mem_cons.mp hm).resolve_left hc) (by simp)
  | some id =>
    obtain ⟨hid, p, q, hv, hp⟩ := List.find?_eq_some_iff_append.mp hfind
    have hpa : a ∉ rootId :: p := fun hm => by
      have := hp a ((List.mem_cons.mp hm).resolve_left ha)
      simp at this
    have hpc : c.anchor ∉ rootId :: p := fun hm => by
      have := hp c.anchor ((List.mem_cons.mp hm).resolve_left hc)
      simp at this
    have hcut : doc.anchors = (rootId :: p) ++ id :: q := congrArg (rootId :: ·) hv
    refine Or.inr ?_
    by_cases he : id = a
    · subst he
      exact ⟨⟨id, c.anchor⟩, rootId :: p, q, by simp, Or.inl rfl, hcut, hpc⟩
    · obtain rfl : id = c.anchor := by simpa [he] using hid
      exact ⟨⟨c.anchor, a⟩, rootId :: p, q, by simp [he], Or.inr rfl, hcut, hpa⟩

/-- **What a selection holds**, as the two searches find it: the visible elements behind exactly one end
that is met. -/
theorem exists_selected {doc : Document} (h : doc.IsTree) {c : Cursor} {a : ElementID}
    (hs : c.selectionAnchor = some a) (hne : a ≠ c.anchor) :
    (a ∉ doc.anchors ∧ c.anchor ∉ doc.anchors ∧ c.normalizedRange doc = .ok none) ∨
    ∃ range ids, c.normalizedRange doc = .ok (some range) ∧ doc.getVisibleRange range = .ok ids ∧
      ids <+ doc.preorder.filter doc.isVisible ∧
      ∀ x, x ∈ ids ↔ doc.isVisible x ∧ doc.Found a c.anchor x := by
  refine (normalizedRange_cases h hs hne).imp id ?_
  rintro ⟨range, p, q, hrange, hends, hp, hstop⟩
  have hdiffer : range.start ≠ range.stop := by
    rcases hends with rfl | rfl
    exacts [hne, hne.symm]
  obtain ⟨ids, hids, hsub, hmem⟩ := h.mem_getVisibleRange hdiffer hp hstop
  -- the end that comes first is not behind the other
  have hfirst : ∀ x, range.stop ∈ doc.anchors → doc.Before range.stop x →
      doc.Before range.start x := by
    intro x hsa hx
    refine h.nodup_preorder.pair_sublist_trans ((h.mem_tail_iff hp).mp ?_).2 hx
    rw [hp, List.mem_append, List.mem_cons] at hsa
    exact (hsa.resolve_left hstop).resolve_left hdiffer.symm
  refine ⟨range, ids, hrange, hids, hsub, fun x => ?_⟩
  rw [hmem]
  refine and_congr_right fun _ => ?_
  have hstart : range.start ∈ doc.anchors := by rw [hp]; simp
  have := hfirst x
  rw [Document.Found]
  rcases hends with rfl | rfl <;> tauto

end Cursor

namespace InputHandler

variable {h : InputHandler} {a : ElementID}

/-- What `delete_selection` leaves of the caret: it falls in front of what is removed, and the selection
is given up unless neither end was met. -/
structure Cuts (h h' : InputHandler) (ids : List ElementID) : Prop where
  doc : h'.doc = h.doc
  gen : h'.gen = h.gen
  column : h'.cursor.desiredColumn = h.cursor.desiredColumn
  anchor : match ids with
    | [] => h'.cursor.anchor = h.cursor.anchor
    | first :: _ => h.doc.visiblePredecessor first = .ok h'.cursor.anchor
  selection : h.cursor.anchor ∈ h.doc.anchors → h'.cursor.selectionAnchor = none

/-- **`delete_selection` removes what the selection holds**, and moves the caret in front of it. -/
theorem exists_cuts (ht : h.doc.IsTree) (hs : h.cursor.selectionAnchor = some a)
    (hne : a ≠ h.cursor.anchor) :
    ∃ (h' : InputHandler) (ids : List ElementID),
      h.deleteSelection = .ok (h', ids.map fun x => .remove ⟨x⟩) ∧
      ids <+ h.doc.preorder.filter h.doc.isVisible ∧
      (∀ x, x ∈ ids ↔ h.doc.isVisible x ∧ h.doc.Found a h.cursor.anchor x) ∧ h.Cuts h' ids := by
  have hsel : h.cursor.hasSelection = true := Cursor.hasSelection_iff.mpr ⟨a, hs, hne⟩
  rw [deleteSelection, hsel]
  simp only [Bool.not_true, Bool.false_eq_true, if_false]
  obtain ⟨ha, hc, hnone⟩ | ⟨range, ids, hrange, hids, hsub, hmem⟩ := Cursor.exists_selected ht hs hne
  · rw [hnone]
    exact ⟨h, [], rfl, List.nil_sublist _, fun x => by simp [Document.Found, ha, hc],
      rfl, rfl, rfl, rfl, fun hm => absurd hm hc⟩
  rw [hrange]
  simp only [Except.leaving, bind, Except.bind, hids]
  cases ids with
  | nil => exact ⟨_, [], rfl, List.nil_sublist _, hmem, rfl, rfl, rfl, rfl, fun _ => rfl⟩
  | cons first rest =>
    have hmemf : first ∈ h.doc.elements :=
      Document.mem_of_isVisible ((hmem first).mp List.mem_cons_self).1
    obtain ⟨y, hy, hok, -⟩ := ht.exists_visiblePredecessor hmemf
    simp only [hok]
    exact ⟨_, first :: rest, rfl, hsub, hmem, rfl, rfl, rfl, hok, fun _ => rfl⟩

/-- What is removed, without the caret. -/
theorem exists_deleteSelection (ht : h.doc.IsTree) (hs : h.cursor.selectionAnchor = some a)
    (hne : a ≠ h.cursor.anchor) :
    ∃ (h' : InputHandler) (ids : List ElementID),
      h.deleteSelection = .ok (h', ids.map fun x => .remove ⟨x⟩) ∧
      ids <+ h.doc.preorder.filter h.doc.isVisible ∧
      ∀ x, x ∈ ids ↔ h.doc.isVisible x ∧ h.doc.Found a h.cursor.anchor x := by
  obtain ⟨h', ids, hok, hsub, hmem, -⟩ := exists_cuts ht hs hne
  exact ⟨h', ids, hok, hsub, hmem⟩

end InputHandler

end CrdtEditor
