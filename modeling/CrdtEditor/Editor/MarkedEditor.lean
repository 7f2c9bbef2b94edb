import CrdtEditor.Editor.Selection

/-!
# Editor/MarkedEditor — the editor with a selection

A marked editor is a plain editor with the other end of its selection, the mark.  Shifted moves set the
mark and carry the caret away from it, the deletions cut what lies between, and every other command gives
the mark up without touching what was selected.

The element behind which the mark stands can be deleted, and then the mark is lost: until it is set anew
the selection goes from the caret to the end of the text.
-/

open scoped List

namespace CrdtEditor

open Text

/-- The other end of a selection. -/
inductive Mark
  | unset
  | behind (k : ℕ)
  /-- What it stood behind is gone. -/
  | lost
  deriving DecidableEq, Repr

structure MarkedEditor extends PlainEditor where
  mark : Mark
  deriving DecidableEq, Repr

namespace MarkedEditor

def selects (e : MarkedEditor) : Bool :=
  match e.mark with
  | .unset => false
  | .behind k => k ≠ e.caret
  | .lost => true

/-- Where the selected part begins and ends. -/
def span (e : MarkedEditor) : ℕ × ℕ :=
  match e.mark with
  | .unset => (e.caret, e.caret)
  | .behind k => (min k e.caret, max k e.caret)
  | .lost => (e.caret, e.text.length)

/-- Delete the selected part. -/
def cut (e : MarkedEditor) : MarkedEditor where
  text := e.text.take e.span.1 ++ e.text.drop e.span.2
  caret := e.span.1
  column := e.column
  mark := .unset

def rememberColumn (e : MarkedEditor) : MarkedEditor :=
  { e with toPlainEditor := e.toPlainEditor.rememberColumn }

/-- The mark of a selection that goes on, or begins at the caret. -/
def extended (e : MarkedEditor) : Mark := if e.selects then e.mark else .behind e.caret

/-- What a command that cuts nothing leaves of the mark. -/
def kept (e : MarkedEditor) (command : EditorCommand) : Mark :=
  match command.type with
  | .shiftLeft | .shiftRight | .shiftUp | .shiftDown => e.extended
  | .deleteForward => e.mark
  | .backspace =>
    -- a mark at the caret stands behind the character that is deleted
    if e.caret = 0 ∨ e.mark = .unset then e.mark else .lost
  | _ => .unset

/-- **What a command does.** -/
def run (e : MarkedEditor) (command : EditorCommand) : MarkedEditor :=
  if e.selects ∧ (command.type = .backspace ∨ command.type = .deleteForward) then e.cut.rememberColumn
  else ⟨e.toPlainEditor.run command, e.kept command⟩

/-- The number of characters in front of the position of the text nearest to a line and column. -/
def nearest (text : Str) (line column : ℕ) : ℕ :=
  let line := min line ((lines text).length - 1)
  offset text line (min column ((lineLength text line).getD 0))

/-- A click leaves the mark where it is. -/
def press (e : MarkedEditor) (line column : ℕ) : MarkedEditor :=
  { e with caret := nearest e.text line column }.rememberColumn

def drag (e : MarkedEditor) (line column : ℕ) : MarkedEditor :=
  { e with caret := nearest e.text line column, mark := e.extended }

end MarkedEditor

namespace InputHandler

variable {h : InputHandler} {a : ElementID}

/-- The mark that the cursor of a handler stands for. -/
def mark (h : InputHandler) : Mark :=
  match h.cursor.selectionAnchor with
  | none => .unset
  | some a => if a ∈ h.doc.anchors then .behind (h.doc.anchors.idxOf a) else .lost

/-- The marked editor a handler shows. -/
def marked (h : InputHandler) : MarkedEditor := ⟨h.view, h.mark⟩

theorem mark_of_mem (hs : h.cursor.selectionAnchor = some a) (ha : a ∈ h.doc.anchors) :
    h.mark = .behind (h.doc.anchors.idxOf a) := by
  rw [mark, hs]
  exact if_pos ha

theorem mark_of_notMem (hs : h.cursor.selectionAnchor = some a) (ha : a ∉ h.doc.anchors) :
    h.mark = .lost := by
  rw [mark, hs]
  exact if_neg ha

theorem mark_of_none (hs : h.cursor.selectionAnchor = none) : h.mark = .unset := by
  rw [mark, hs]

theorem mark_congr {g : InputHandler}
    (hs : g.cursor.selectionAnchor = h.cursor.selectionAnchor)
    (hd : g.doc.anchors = h.doc.anchors) : g.mark = h.mark := by
  rw [mark, mark, hs, hd]

/-- **Where a handler has a selection**, its marked editor does. -/
theorem Placed.selects_eq (hp : h.Placed) : h.marked.selects = h.cursor.hasSelection := by
  cases hs : h.cursor.selectionAnchor with
  | none =>
    rw [MarkedEditor.selects, Cursor.hasSelection, hs, marked, mark_of_none hs]
  | some a =>
    rw [MarkedEditor.selects, Cursor.hasSelection, hs, marked]
    by_cases ha : a ∈ h.doc.anchors
    · rw [mark_of_mem hs ha]
      refine decide_eq_decide.mpr (not_congr ?_)
      exact List.idxOf_inj ha
    · rw [mark_of_notMem hs ha]
      have hne : a ≠ h.cursor.anchor := fun he : a = h.cursor.anchor => ha (he.symm ▸ hp.anchor)
      exact (decide_eq_true hne).symm

/-- The span of the selection lies in the text, with the caret at one of its ends or inside. -/
theorem Placed.span_le (hp : h.Placed) :
    h.marked.span.1 ≤ h.caret ∧ h.caret ≤ h.marked.span.2 ∧ h.marked.span.2 ≤ h.doc.text.length := by
  have hle : h.caret ≤ h.doc.text.length := hp.caret_le
  cases hs : h.cursor.selectionAnchor with
  | none =>
    rw [MarkedEditor.span, marked, mark_of_none hs]
    exact ⟨le_rfl, le_rfl, hle⟩
  | some a =>
    rw [MarkedEditor.span, marked]
    by_cases ha : a ∈ h.doc.anchors
    · rw [mark_of_mem hs ha]
      have := List.idxOf_lt_length_of_mem ha
      rw [Document.IsTree.length_anchors] at this
      exact ⟨min_le_right _ _, le_max_right _ _, max_le (Nat.le_of_lt_succ this) hle⟩
    · rw [mark_of_notMem hs ha]
      exact ⟨le_rfl, hle, le_rfl⟩

/-- **What the deletions find** is the span of the selection. -/
theorem Placed.found_iff (hp : h.Placed) (hs : h.cursor.selectionAnchor = some a) {x : ElementID} :
    h.doc.isVisible x ∧ h.doc.Found a h.cursor.anchor x ↔
      x ∈ (h.doc.anchors.take (h.marked.span.2 + 1)).drop (h.marked.span.1 + 1) := by
  have hnodup := hp.tree.nodup_anchors
  have hbefore : ∀ {b}, b ∈ h.doc.anchors → x ∈ h.doc.anchors →
      (h.doc.Before b x ↔ h.doc.anchors.idxOf b < h.doc.anchors.idxOf x) := fun {b} hb hx => by
    rw [hp.tree.before_iff_anchors hb hx, hnodup.pair_sublist_iff_idxOf]
    simp [hb, hx]
  -- the root is the first anchor
  have hvisible : x ∈ h.doc.anchors → (h.doc.isVisible x ↔ 0 < h.doc.anchors.idxOf x) := fun hx => by
    have hroot : x = rootId ↔ h.doc.anchors.idxOf x = 0 := by
      refine ⟨fun he => he ▸ hnodup.idxOf_of_getElem? rfl, fun he => ?_⟩
      have hget := List.getElem?_idxOf hx
      rw [he] at hget
      exact (Option.some.inj hget).symm
    rw [Nat.pos_iff_ne_zero, Ne, ← hroot]
    exact ⟨Document.ne_root_of_isVisible, (hp.tree.mem_anchors.mp hx).resolve_left⟩
  have hlength := Document.IsTree.length_anchors h.doc
  rw [hnodup.mem_slice, Document.Found, MarkedEditor.span, marked]
  by_cases hx : x ∈ h.doc.anchors
  · have hlt := List.idxOf_lt_length_of_mem hx
    have hc := hbefore hp.anchor hx
    change _ ↔ h.doc.anchors.idxOf h.cursor.anchor < _ at hc
    by_cases ha : a ∈ h.doc.anchors
    · rw [mark_of_mem hs ha]
      have haa := hbefore ha hx
      simp only [hvisible hx, hx, ha, hp.anchor, haa, hc, true_and, view, caret]
      omega
    · rw [mark_of_notMem hs ha]
      simp only [hvisible hx, hx, ha, hp.anchor, hc, true_and, false_and, not_false_eq_true, and_true, false_or,
        view, caret]
      omega
  · have hv : ¬ h.doc.isVisible x := fun hv => hx (hp.tree.mem_anchors.mpr (Or.inr hv))
    exact iff_of_false (fun hf => hv hf.1) fun hf => hx hf.1

/-- The elements of the selected part. -/
def selected (h : InputHandler) : List ElementID :=
  (h.doc.anchors.take (h.marked.span.2 + 1)).drop (h.marked.span.1 + 1)

/-- A part of the text that holds what is found is the selected part. -/
theorem Placed.eq_selected (hp : h.Placed) (hs : h.cursor.selectionAnchor = some a)
    {ids : List ElementID} (hsub : ids <+ h.doc.preorder.filter h.doc.isVisible)
    (hmem : ∀ x, x ∈ ids ↔ h.doc.isVisible x ∧ h.doc.Found a h.cursor.anchor x) :
    ids = h.selected :=
  hp.tree.nodup_anchors.sublist_ext (hsub.trans (List.sublist_cons_self _ _))
    ((List.drop_sublist _ _).trans (List.take_sublist _ _))
    fun x => (hmem x).trans (hp.found_iff hs)

/-- Without a selection the selected part is empty. -/
theorem Placed.span_of_hasSelection (hp : h.Placed) (hs : h.cursor.hasSelection = false) :
    h.marked.span = (h.caret, h.caret) := by
  have hselects : h.marked.selects = false := hp.selects_eq.trans hs
  rw [MarkedEditor.selects] at hselects
  rw [MarkedEditor.span]
  cases hmark : h.marked.mark with
  | unset => rfl
  | behind k =>
    rw [hmark] at hselects
    have hk : k = h.marked.caret := by simpa using hselects
    rw [hk]
    exact Prod.ext (min_self _) (max_self _)
  | lost =>
    rw [hmark] at hselects
    cases hselects

/-- **What `draw_selection` looks for** is the selected part. -/
theorem Placed.exists_visibleRange (hp : h.Placed) :
    (h.cursor.normalizedRange h.doc = .ok none ∧ h.selected = []) ∨
      ∃ range, h.cursor.normalizedRange h.doc = .ok (some range) ∧
        h.doc.getVisibleRange range = .ok h.selected := by
  cases hs : h.cursor.hasSelection with
  | false =>
    refine Or.inl ⟨?_, ?_⟩
    · rw [Cursor.normalizedRange, hs]
      rfl
    · rw [selected, hp.span_of_hasSelection hs, List.drop_eq_nil_iff, List.length_take]
      exact min_le_left _ _
  | true =>
    obtain ⟨a, ha, hne⟩ := Cursor.hasSelection_iff.mp hs
    obtain ⟨-, hc, -⟩ | ⟨range, ids, hrange, hids, hsub, hmem⟩ :=
      Cursor.exists_selected hp.tree ha hne
    · exact absurd hp.anchor hc
    · exact Or.inr ⟨range, hrange, hids.trans (congrArg _ (hp.eq_selected ha hsub hmem))⟩

/-- **`delete_selection` removes the span of the selection** and puts the caret in front of it. -/
theorem Placed.exists_deleteSelection (hp : h.Placed) (hs : h.cursor.hasSelection = true) :
    ∃ h', h.deleteSelection = .ok (h', h.selected.map fun x => .remove ⟨x⟩) ∧
      h'.doc = h.doc ∧ h'.gen = h.gen ∧ h'.cursor.desiredColumn = h.cursor.desiredColumn ∧
      h'.cursor.selectionAnchor = none ∧
      h.doc.anchors[h.marked.span.1]? = some h'.cursor.anchor := by
  obtain ⟨a, ha, hne⟩ := Cursor.hasSelection_iff.mp hs
  obtain ⟨h', ids, hok, hsub, hmem, hcuts⟩ := exists_cuts hp.tree ha hne
  obtain rfl := hp.eq_selected ha hsub hmem
  refine ⟨h', hok, hcuts.doc, hcuts.gen, hcuts.column, hcuts.selection hp.anchor, ?_⟩
  obtain ⟨hfirst, hcaret, hlast⟩ := hp.span_le
  have hlength := Document.IsTree.length_anchors h.doc
  have hanchor := hcuts.anchor
  cases hcase : h.selected with
  | nil =>
    -- nothing is selected: the caret is at the end of the text, and the mark is lost
    rw [hcase] at hanchor
    have hempty : h.selected.length = 0 := by rw [hcase]; rfl
    rw [selected, List.length_drop, List.length_take, hlength] at hempty
    have hspan : h.marked.span.1 = h.caret := by omega
    rw [hspan, hp.getElem?_caret]
    exact congrArg some hanchor.symm
  | cons first rest =>
    rw [hcase] at hanchor
    have hfirst : h.doc.anchors[h.marked.span.1 + 1]? = some first := by
      have : h.selected[0]? = some first := by rw [hcase]; rfl
      rw [selected, List.getElem?_drop, Nat.add_zero, List.getElem?_take] at this
      split at this
      · exact this
      · cases this
    obtain ⟨y, hy, hyk⟩ := hp.tree.visiblePredecessor_getElem? hfirst
    rw [Nat.add_sub_cancel] at hyk
    obtain rfl : y = h'.cursor.anchor := Except.ok.inj (hy.symm.trans hanchor)
    exact hyk

/-! ## The moves keep the selection -/

/-- The call threw, or left this selection anchor. -/
def Selects (a : Option ElementID) : Handling → Prop
  | .ok r => r.1.cursor.selectionAnchor = a
  | .error _ => True

section

variable {s : Option ElementID}

theorem selects_leaving_bind {α : Type} {r : Except Exn α} {f : α → Handling}
    (hf : ∀ x, Selects s (f x)) : Selects s (Except.leaving h r >>= f) := by
  cases r with
  | ok x => exact hf x
  | error e => exact trivial

theorem selects_located (hs : h.cursor.selectionAnchor = s) : Selects s h.located :=
  selects_leaving_bind fun _ => hs

theorem selects_moveLeftImpl (hs : h.cursor.selectionAnchor = s) : Selects s h.moveLeftImpl :=
  selects_leaving_bind fun _ => selects_located hs

theorem selects_moveRightImpl (hs : h.cursor.selectionAnchor = s) : Selects s h.moveRightImpl :=
  selects_leaving_bind fun next => by
    cases next with
    | some next => exact selects_located hs
    | none => exact selects_located hs

theorem selectionAnchor_rememberColumn (h : InputHandler) (column : ℕ) :
    (h.rememberColumn column).cursor.selectionAnchor = h.cursor.selectionAnchor := by
  rw [rememberColumn]
  split <;> rfl

theorem selects_moveToLine (hs : h.cursor.selectionAnchor = s) (line length : ℕ) :
    Selects s (h.moveToLine line length) := by
  rw [moveToLine]
  split
  · exact trivial
  · refine selects_leaving_bind fun anchor => ?_
    cases anchor with
    | some anchor => exact selects_located hs
    | none => exact selects_located hs

theorem selects_moveUpImpl (hs : h.cursor.selectionAnchor = s) : Selects s h.moveUpImpl := by
  refine selects_leaving_bind fun p => ?_
  obtain ⟨line, column⟩ := p
  cases line with
  | zero => exact hs
  | succ line =>
    refine selects_leaving_bind fun length => ?_
    cases length with
    | some length =>
      exact selects_moveToLine ((h.selectionAnchor_rememberColumn column).trans hs) line length
    | none => exact trivial

theorem selects_moveDownImpl (hs : h.cursor.selectionAnchor = s) : Selects s h.moveDownImpl := by
  refine selects_leaving_bind fun p => selects_leaving_bind fun length => ?_
  cases length with
  | some length =>
    exact selects_moveToLine ((h.selectionAnchor_rememberColumn p.2).trans hs) (p.1 + 1) length
  | none => exact hs

end

/-- A move gives the selection up. -/
theorem selects_moving {impl : InputHandler → Handling}
    (himpl : ∀ {g : InputHandler} {s}, g.cursor.selectionAnchor = s → Selects s (impl g)) :
    Selects none (moving impl h) :=
  himpl rfl

/-- A shifted move carries a selection on, or begins one at the caret. -/
theorem selects_shifting {impl : InputHandler → Handling}
    (himpl : ∀ {g : InputHandler} {s}, g.cursor.selectionAnchor = s → Selects s (impl g)) :
    Selects (if h.cursor.hasSelection then h.cursor.selectionAnchor else some h.cursor.anchor)
      (shifting impl h) := by
  rw [shifting]
  split
  · exact himpl rfl
  · exact himpl rfl

/-- The mark of a selection that is carried on or begun. -/
theorem Placed.mark_extended (hp : h.Placed) {g : InputHandler} (hd : g.doc.anchors = h.doc.anchors)
    (hs : g.cursor.selectionAnchor =
      if h.cursor.hasSelection then h.cursor.selectionAnchor else some h.cursor.anchor) :
    g.mark = h.marked.extended := by
  rw [MarkedEditor.extended, hp.selects_eq]
  cases hsel : h.cursor.hasSelection with
  | true => exact mark_congr (hs.trans (if_pos hsel)) hd
  | false =>
    rw [hsel] at hs
    have hs : g.cursor.selectionAnchor = some h.cursor.anchor := hs
    rw [mark_of_mem hs (hd ▸ hp.anchor), hd]
    rfl

end InputHandler

end CrdtEditor
