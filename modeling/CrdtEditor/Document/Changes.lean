import CrdtEditor.Document.Edit
import CrdtEditor.Foundations.TextEdit

/-!
# Document/Changes — an operation as positional edits

Whatever an operation does to a document, the drain of the buffer included, it is a list of edits of the
text (`Document.changes`): an insert only puts characters in, a removal takes out one or none.  The same
edits carry a number that stands for an anchor to the number that stands for it afterwards, and the one of
a removed anchor to that of its visible predecessor.
-/

open scoped List

namespace CrdtEditor.Document

variable {d d' : Document} {x : ElementID}

/-- The edits from one document to another. -/
def changes (d d' : Document) : List (TextEdit UInt8) :=
  TextEdit.between d'.charOf d.anchors.tail d'.anchors.tail

/-- Two documents that order alike the anchors they share, with the same characters. -/
structure Aligned (d d' : Document) : Prop where
  shared : d.anchors.tail.filter (· ∈ d'.anchors.tail) = d'.anchors.tail.filter (· ∈ d.anchors.tail)
  charOf : ∀ x ∈ d.anchors, d'.charOf x = d.charOf x
  nodup : d.anchors.Nodup
  nodup' : d'.anchors.Nodup

namespace Aligned

theorem text (h : Aligned d d') : (d.changes d').foldl TextEdit.apply d.text = d'.text := by
  have htext : d.text = d.anchors.tail.map d'.charOf :=
    List.map_congr_left fun x hx => (h.charOf x (List.mem_of_mem_tail hx)).symm
  rw [changes, htext, TextEdit.apply_between h.shared]
  rfl

theorem track (h : Aligned d d') (hx : x ∈ d.anchors) (hx' : x ∈ d'.anchors) :
    (d.changes d').foldlM TextEdit.track (d.anchors.idxOf x) = some (d'.anchors.idxOf x) :=
  TextEdit.track_between_idxOf h.nodup h.nodup' h.shared hx hx'

theorem track_of_notMem (h : Aligned d d') (hx : x ∈ d.anchors) (hx' : x ∉ d'.anchors) :
    (d.changes d').foldlM TextEdit.track (d.anchors.idxOf x) = none := by
  obtain ⟨hroot, htail⟩ : x ≠ rootId ∧ x ∉ d'.anchors.tail := not_or.mp (mt List.mem_cons.mpr hx')
  exact TextEdit.track_between_of_notMem h.nodup ((List.mem_cons.mp hx).resolve_left hroot) htail

end Aligned

/-- Nothing changes between a document and itself. -/
theorem changes_self (d : Document) : d.changes d = [] := by
  have herased := TextEdit.erased_append (α := UInt8) d.anchors.tail 0 (fun _ hx => hx) []
  rw [List.append_nil] at herased
  rw [changes, TextEdit.between, herased, TextEdit.inserted_of_subset _ _ fun _ hx => hx]
  rfl

namespace IsTree

/-! ## Inserts -/

/-- An insert leaves the elements that are there alone. -/
theorem lookup_apply_insert (d : Document) (oper : InsertOperation) {c : Character}
    (hx : AList.lookup x d.elements = some c) :
    AList.lookup x (d.apply (.insert oper)).state.elements = some c := by
  refine applyInsert_induct
    (P := fun d d' => ∀ x c, AList.lookup x d.elements = some c → AList.lookup x d'.elements = some c)
    (fun _ _ _ h => h) (fun hab hbc x c h => hbc x c (hab x c h)) (fun d oper x c h => ?_)
    (fun d oper hid _ x c h => ?_) (fun _ _ _ _ h => h) _ d oper x c hx
  · rwa [buffer_elements]
  · rw [lookup_attach_elements, if_neg fun he : x = oper.ident => hid (he ▸ UMap.mem_of_lookup h)]
    exact h

/-- So it only adds anchors. -/
theorem anchors_sublist_insert (h : d.IsTree) (oper : InsertOperation) :
    d.anchors <+ (d.apply (.insert oper)).state.anchors := by
  obtain ⟨h', hext⟩ := h.apply (.insert oper)
  have hvisible : ∀ x ∈ d.preorder,
      d.isVisible x = (d.apply (.insert oper)).state.isVisible x := fun x hx => by
    obtain ⟨c, hc⟩ := UMap.mem_iff_lookup.mp (h.mem_preorder.mp hx)
    rw [isVisible, isVisible, hc, lookup_apply_insert d oper hc]
  rw [anchors, anchors, List.filter_congr hvisible]
  exact ((hext.preorder_sublist h h').filter _).cons_cons _

/-! ## Removals -/

theorem anchors_sublist_remove (d : Document) (oper : RemoveOperation) :
    (d.applyDelete oper).anchors <+ d.anchors := by
  rw [anchors_applyDelete, anchors]
  exact List.filter_sublist.cons_cons _

theorem mem_anchors_applyDelete {oper : RemoveOperation} :
    x ∈ (d.applyDelete oper).anchors ↔ x ∈ d.anchors ∧ (x = rootId ∨ x ≠ oper.theTarget) := by
  rw [anchors_applyDelete, anchors, List.mem_cons, List.mem_cons, List.mem_filter]
  have hroot : x ∈ d.preorder.filter d.isVisible → x ≠ rootId := fun hm =>
    ne_root_of_isVisible (List.mem_filter.mp hm).2
  simp only [decide_eq_true_eq]
  tauto

/-- A removal of a visible element takes it out from between the anchors around it; its visible predecessor
is the last of those in front. -/
theorem exists_split_remove (h : d.IsTree) {oper : RemoveOperation} (hx : oper.theTarget ∈ d.anchors)
    (hroot : oper.theTarget ≠ rootId) : ∃ w v, d.anchors = rootId :: (w ++ oper.theTarget :: v) ∧
      (d.applyDelete oper).anchors = rootId :: (w ++ v) ∧
      (d.applyDelete oper).visiblePredecessor oper.theTarget = .ok (w.getLast?.getD rootId) := by
  have h' : (d.applyDelete oper).IsTree := (h.apply (.remove oper)).1
  obtain ⟨a, b, hl⟩ := List.append_of_mem (h.mem_preorder.mpr (h.mem_of_mem_anchors hx))
  have hnodup := h.nodup_preorder
  rw [hl, List.nodup_append, List.nodup_cons] at hnodup
  have hta : ∀ z ∈ a, z ≠ oper.theTarget := fun z hz => hnodup.2.2 z hz _ List.mem_cons_self
  have htb : ∀ z ∈ b, z ≠ oper.theTarget := fun z hz he => hnodup.2.1.1 (he ▸ hz)
  have hvisible : d.isVisible oper.theTarget = true := (h.mem_anchors.mp hx).resolve_left hroot
  have hkeep : ∀ l : List ElementID, (∀ z ∈ l, z ≠ oper.theTarget) →
      (l.filter d.isVisible).filter (· ≠ oper.theTarget) = l.filter d.isVisible := fun l hne =>
    List.filter_eq_self.mpr fun z hz => by simpa using hne z (List.mem_filter.mp hz).1
  have hsame : a.filter (d.applyDelete oper).isVisible = a.filter d.isVisible :=
    List.filter_congr fun z hz => by rw [isVisible_applyDelete]; simp [hta z hz]
  refine ⟨a.filter d.isVisible, b.filter d.isVisible, ?_, ?_, ?_⟩
  · rw [anchors, hl, List.filter_append, List.filter_cons_of_pos hvisible]
  · rw [anchors_applyDelete, hl, List.filter_append, List.filter_cons_of_pos hvisible,
      List.filter_append, List.filter_cons_of_neg (by simp), hkeep a hta, hkeep b htb]
  · rw [h'.visiblePredecessor_eq (preorder_applyDelete.trans hl), ← List.head?_filter,
      List.filter_reverse, List.head?_reverse, hsame]

/-- **An operation keeps the order and the characters of the anchors.** -/
theorem aligned_apply (h : d.IsTree) (op : Operation) : Aligned d (d.apply op).state := by
  obtain ⟨h', hext⟩ := h.apply op
  have hn := h.nodup_anchors
  have hn' := h'.nodup_anchors
  refine ⟨?_, fun x hx => ?_, hn, hn'⟩
  · cases op with
    | insert oper =>
      exact TextEdit.filter_mem_of_sublist (List.nodup_cons.mp hn').2
        (List.cons_sublist_cons.mp (h.anchors_sublist_insert oper))
    | remove oper =>
      exact (TextEdit.filter_mem_of_sublist (List.nodup_cons.mp hn).2
        (List.cons_sublist_cons.mp (anchors_sublist_remove d oper))).symm
  · obtain ⟨c, hc⟩ := UMap.mem_iff_lookup.mp (h.mem_of_mem_anchors hx)
    obtain ⟨c', hc', hchar, -⟩ := hext.element x c hc
    rw [Document.charOf, Document.charOf, hc, hc']
    exact hchar

/-- **A caret behind the removed element falls back** to where the edit carries it. -/
theorem carry_remove (h : d.IsTree) {oper : RemoveOperation} (hx : oper.theTarget ∈ d.anchors)
    {y : ElementID} (hy : (d.applyDelete oper).visiblePredecessor oper.theTarget = .ok y) :
    (d.changes (d.applyDelete oper)).foldl TextEdit.carry (d.anchors.idxOf oper.theTarget) =
      (d.applyDelete oper).anchors.idxOf y := by
  have h' : (d.applyDelete oper).IsTree := (h.apply (.remove oper)).1
  by_cases hroot : oper.theTarget = rootId
  · -- the root is never taken out
    have hmem : ∀ d : Document, rootId ∈ d.anchors := fun d => List.mem_cons_self
    have hy' : y = rootId := by
      rw [hroot, visiblePredecessor, if_pos rfl] at hy
      exact (Except.ok.inj hy).symm
    have haligned : Aligned d (d.applyDelete oper) := h.aligned_apply (.remove oper)
    rw [hroot, hy']
    exact TextEdit.foldl_carry_of_foldlM_track (haligned.track (hmem d) (hmem _))
  obtain ⟨w, v, hanchors, hanchors', hfallback⟩ := h.exists_split_remove hx hroot
  obtain rfl := Except.ok.inj (hfallback.symm.trans hy)
  have hn : (rootId :: (w ++ oper.theTarget :: v)).Nodup := hanchors ▸ h.nodup_anchors
  have hn' : (rootId :: (w ++ v)).Nodup := hanchors' ▸ h'.nodup_anchors
  have hchanges : d.changes (d.applyDelete oper) = [.erase w.length] := by
    rw [changes, hanchors, hanchors']
    exact TextEdit.between_of_erase hn.of_cons
  rw [hchanges, hanchors, hanchors', TextEdit.idxOf_cons_append hn, TextEdit.idxOf_getLast?_getD hn',
    List.length_append]
  change TextEdit.carry (w.length + 1) (.erase w.length : TextEdit UInt8) = w.length
  rw [TextEdit.carry, if_pos (Nat.lt_succ_self _), Nat.add_sub_cancel]

end IsTree

end CrdtEditor.Document
