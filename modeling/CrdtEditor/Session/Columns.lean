import CrdtEditor.Session.Refinement
import CrdtEditor.Session.Tree

/-!
# Session/Columns — vertical steps with and without a selection

`MoveUp` and `MoveDown` keep the column they remember, `ShiftUp` and `ShiftDown` are given the column of
the caret after every step.  On a line that is shorter than the remembered column the two part:
`shifts_as_moves_iff` says exactly when they do not, `shifts_apart` is a run where the caret ends
elsewhere.
-/

namespace CrdtEditor

open Text

/-- A vertical step. -/
inductive Vertical
  | up
  | down
  deriving DecidableEq, Repr

namespace Vertical

/-- The step without a selection. -/
def move : Vertical → EditorCommand
  | up => ⟨.moveUp, 0⟩
  | down => ⟨.moveDown, 0⟩

/-- The step that selects. -/
def shift : Vertical → EditorCommand
  | up => ⟨.shiftUp, 0⟩
  | down => ⟨.shiftDown, 0⟩

def impl : Vertical → InputHandler → Handling
  | up => InputHandler.moveUpImpl
  | down => InputHandler.moveDownImpl

/-- The line it goes to, if there may be one. -/
def target : Vertical → ℕ → Option ℕ
  | up, 0 => none
  | up, line + 1 => some line
  | down, line => some (line + 1)

/-- The step of the plain editor. -/
def plain : Vertical → PlainEditor → PlainEditor
  | up => PlainEditor.up
  | down => PlainEditor.down

end Vertical

/-- **A vertical step remembers the column it ends at** exactly when the line it goes to has the column
remembered, or there is no such line and the column remembered is its own. -/
theorem PlainEditor.column_plain_iff (e : PlainEditor) (v : Vertical) :
    (v.plain e).column = some (v.plain e).position.2 ↔
      match (v.target e.position.1).bind (lineLength e.text) with
      | some length => e.column.getD e.position.2 ≤ length
      | none => e.column = some e.position.2 := by
  have hline : ∀ line, (e.toLine line e.position.2).column =
      some (e.toLine line e.position.2).position.2 ↔
        match lineLength e.text line with
        | some length => e.column.getD e.position.2 ≤ length
        | none => e.column = some e.position.2 := by
    intro line
    cases hlen : lineLength e.text line with
    | none => rw [toLine_of_lineLength_eq_none _ hlen]
    | some length =>
      have hpos := (position_take_offset hlen (min_le_right (e.column.getD e.position.2) length)).1
      have hend : (e.toLine line e.position.2).position =
          (line, min (e.column.getD e.position.2) length) := by
        rw [toLine, hlen]
        exact hpos
      rw [hend, toLine, hlen]
      simp only [Option.some.injEq]
      exact eq_comm.trans min_eq_left_iff
  cases v with
  | down => exact hline _
  | up =>
    cases hp : e.position.1 with
    | zero =>
      have : e.up = e := by rw [up, hp]
      change e.up.column = some e.up.position.2 ↔ e.column = some e.position.2
      rw [this]
    | succ line =>
      have : e.up = e.toLine line e.position.2 := by rw [up, hp]
      change e.up.column = some e.up.position.2 ↔ _
      rw [this]
      exact hline line

namespace InputHandler

variable {h : InputHandler}

/-- The handler with another selection anchor. -/
def select (h : InputHandler) (a : Option ElementID) : InputHandler :=
  h.setCursor { h.cursor with selectionAnchor := a }

/-- **A vertical step, with or without a selection**, is the same call on a handler with some
selection anchor. -/
theorem exists_processCommand (h : InputHandler) (v : Vertical) :
    (∃ a, h.processCommand v.move = v.impl (h.select a)) ∧
      ∃ a, h.processCommand v.shift = v.impl (h.select a) := by
  have hshift : ∀ impl : InputHandler → Handling, ∃ a, shifting impl h = impl (h.select a) := by
    intro impl
    rw [shifting]
    split
    · exact ⟨h.cursor.selectionAnchor, rfl⟩
    · exact ⟨some h.cursor.anchor, rfl⟩
  refine ⟨⟨none, by cases v <;> rfl⟩, ?_⟩
  cases v with
  | up => exact hshift moveUpImpl
  | down => exact hshift moveDownImpl

theorem moves_impl (hp : h.Placed) (v : Vertical) : h.Moves (v.plain h.view) (v.impl h) := by
  cases v with
  | up => exact moves_moveUpImpl hp
  | down => exact moves_moveDownImpl hp

/-- On one document the caret is known by its offset. -/
theorem anchor_eq_of_caret {k : InputHandler} (hd : k.doc = h.doc)
    (hk : k.cursor.anchor ∈ k.doc.anchors) (hcaret : k.view.caret = h.view.caret) :
    k.cursor.anchor = h.cursor.anchor := by
  change k.doc.anchors.idxOf k.cursor.anchor = h.doc.anchors.idxOf h.cursor.anchor at hcaret
  rw [hd] at hk hcaret
  exact (List.idxOf_inj hk).mp hcaret

/-- A caret behind no anchor has no position, and a vertical step throws. -/
theorem exists_error (ht : h.doc.IsTree) (ha : h.cursor.anchor ∉ h.doc.anchors) :
    ∃ e, h.cursor.getLineColumn h.doc = .error e ∧
      ∀ (v : Vertical) (a : Option ElementID), v.impl (h.select a) = .error (e, h.select a) := by
  obtain ⟨e, he⟩ : ∃ e, h.cursor.getLineColumn h.doc = .error e := by
    rw [Cursor.getLineColumn, Document.getCursorPosition]
    have hr : h.cursor.anchor ≠ rootId := fun he => ha (ht.mem_anchors.mpr (Or.inl he))
    by_cases hm : h.cursor.anchor ∈ h.doc.elements
    · obtain ⟨c, hc⟩ := UMap.mem_iff_lookup.mp hm
      have hdel : c.deleted = true := by
        by_contra hdel
        refine ha (ht.mem_anchors.mpr (Or.inr ?_))
        rw [Document.isVisible_of_lookup hr hc]
        simpa using hdel
      exact ⟨_, by simp [hr, hm, Document.elementAt_of_lookup hc, hdel, bind, Except.bind, throw]; rfl⟩
    · exact ⟨_, by simp [hr, hm, bind, Except.bind, throw]; rfl⟩
  refine ⟨e, he, fun v a => ?_⟩
  have hselect : (h.select a).cursor.getLineColumn (h.select a).doc = .error e := he
  cases v with
  | up =>
    change (h.select a).moveUpImpl = _
    rw [moveUpImpl, hselect]
    rfl
  | down =>
    change (h.select a).moveDownImpl = _
    rw [moveDownImpl, hselect]
    rfl

end InputHandler

namespace EditorSession

/-- The session with another selection anchor. -/
def select (s : EditorSession) (a : Option ElementID) : EditorSession :=
  { s with cursor := { s.cursor with selectionAnchor := a } }

/-- Two sessions that differ in the selection anchor only. -/
def Apart (s t : EditorSession) : Prop := ∃ a, t = s.select a

/-- The sessions of a run of vertical steps. -/
def verticals (command : Vertical → EditorCommand) (s : EditorSession) (vs : List Vertical) :
    EditorSession :=
  vs.foldl (fun s v => (s.handleEditorCommand (command v)).state) s

/-- The step goes to a line that has the remembered column; or there is no line to go to, and the
column of the caret is remembered. -/
def Fits (s : EditorSession) (v : Vertical) : Prop :=
  ∀ p, s.cursor.getLineColumn s.doc = .ok p →
    match (v.target p.1).bind fun line => (s.doc.getLineLength line).toOption.join with
    | some length => s.cursor.desiredColumn.getD p.2 ≤ length
    | none => s.cursor.desiredColumn = some p.2

variable {s t : EditorSession}

theorem apart_refl (s : EditorSession) : Apart s s := ⟨s.cursor.selectionAnchor, rfl⟩

theorem fits_iff (ht : s.doc.IsTree) (ha : s.cursor.anchor ∈ s.doc.anchors) (v : Vertical) :
    s.Fits v ↔ (v.plain s.view).column = some (v.plain s.view).position.2 := by
  have hcol : s.cursor.getLineColumn s.doc = .ok s.view.position :=
    InputHandler.Placed.getLineColumn_eq (h := s.handler) ⟨ht, ha⟩
  have hlen : (fun line => (s.doc.getLineLength line).toOption.join) = lineLength s.doc.text :=
    funext fun line => by rw [ht.getLineLength_eq]; rfl
  rw [PlainEditor.column_plain_iff, Fits, hlen]
  constructor
  · exact fun h => h _ hcol
  · rintro h p hp
    obtain rfl := Except.ok.inj (hcol.symm.trans hp)
    exact h

/-- A step without a selection keeps the column that the handler remembers. -/
theorem state_handleEditorCommand_move {g : InputHandler} {v : Vertical}
    (hg : s.handler.processCommand v.move = .ok (g, [])) :
    (s.handleEditorCommand v.move).state = s.put g := by
  rw [handleEditorCommand_eq hg]
  cases v <;> rfl

/-- A step with a selection remembers the column it ends at. -/
theorem state_handleEditorCommand_shift {k : InputHandler} {v : Vertical}
    (hk : s.handler.processCommand v.shift = .ok (k, [])) (hp : k.Placed) :
    (s.handleEditorCommand v.shift).state =
      { s.put k with cursor := k.cursor.setDesiredColumn k.view.position.2 } := by
  rw [handleEditorCommand_eq hk, List.foldlM_nil]
  change ((s.put k).rememberColumn v.shift).state = _
  rw [exists_rememberColumn (s := s.put k) hp.tree hp.anchor, if_pos (by cases v <;> decide)]
  rfl

/-- **One step**, without a selection and with one. -/
theorem apart_step (ht : s.doc.IsTree) (h : Apart s t) (v : Vertical) :
    Apart (s.handleEditorCommand v.move).state (t.handleEditorCommand v.shift).state ↔
      s.Fits v := by
  obtain ⟨a, rfl⟩ := h
  obtain ⟨b, hmove⟩ := (s.handler.exists_processCommand v).1
  obtain ⟨c, hshift⟩ := ((s.select a).handler.exists_processCommand v).2
  have hshift : (s.select a).handler.processCommand v.shift = v.impl (s.handler.select c) := hshift
  by_cases ha : s.cursor.anchor ∈ s.doc.anchors
  · have hp : s.handler.Placed := ⟨ht, ha⟩
    have hplaced : ∀ a, (s.handler.select a).Placed := fun a => hp.setCursor rfl
    have hview : ∀ a, (s.handler.select a).view = s.view := fun a =>
      InputHandler.view_setCursor rfl rfl
    obtain ⟨g, hg, hgd, hgg, hga, hgv⟩ := InputHandler.moves_impl (hplaced b) v
    obtain ⟨k, hk, hkd, hkg, hka, hkv⟩ := InputHandler.moves_impl (hplaced c) v
    rw [hview] at hgv hkv
    have hmoved := state_handleEditorCommand_move (hmove.trans hg)
    have hshifted := state_handleEditorCommand_shift (hshift.trans hk)
      ⟨hkd.symm ▸ ht, hkd.symm ▸ hka⟩
    rw [hkv] at hshifted
    have hanchor : k.cursor.anchor = g.cursor.anchor :=
      InputHandler.anchor_eq_of_caret (hkd.trans hgd.symm) (hkd.symm ▸ hka) (by rw [hkv, hgv])
    have hcolumn : g.cursor.desiredColumn = (v.plain s.view).column :=
      congrArg PlainEditor.column hgv
    rw [fits_iff ht ha, hmoved, hshifted, ← hcolumn]
    constructor
    · rintro ⟨a', he⟩
      exact (congrArg (fun u : EditorSession => u.cursor.desiredColumn) he).symm
    · intro he
      refine ⟨k.cursor.selectionAnchor, ?_⟩
      obtain ⟨gd, ⟨ganchor, gcolumn, gselection⟩, gg⟩ := g
      obtain ⟨kd, ⟨kanchor, kcolumn, kselection⟩, kg⟩ := k
      obtain rfl : kd = gd := hkd.trans hgd.symm
      obtain rfl : kg = gg := hkg.trans hgg.symm
      obtain rfl : kanchor = ganchor := hanchor
      obtain rfl : gcolumn = _ := he
      rfl
  · obtain ⟨e, he, herror⟩ := InputHandler.exists_error (h := s.handler) ht ha
    refine iff_of_true ?_ fun p hp => ?_
    · rw [handleEditorCommand, processCommand, hmove, herror, handleEditorCommand, processCommand,
        hshift, herror]
      exact ⟨c, rfl⟩
    · rw [show s.cursor.getLineColumn s.doc = .error e from he] at hp
      cases hp

/-- **Runs of vertical steps differ in the selection only** exactly when every step fits. -/
theorem apart_verticals (ht : s.doc.IsTree) (h : Apart s t) (vs : List Vertical) :
    (∀ n, Apart (verticals Vertical.move s (vs.take n)) (verticals Vertical.shift t (vs.take n))) ↔
      Along (fun s v => (s.handleEditorCommand (Vertical.move v)).state) Fits s vs := by
  induction vs generalizing s t with
  | nil => exact iff_of_true (fun n => by rw [List.take_nil]; exact h) trivial
  | cons v vs ih =>
    have hone := apart_step ht h v
    have htree : (s.handleEditorCommand v.move).state.doc.IsTree :=
      (Rooted.handleEditorCommand ht v.move).state
    constructor
    · intro hall
      have hfirst := hall 1
      exact ⟨hone.mp hfirst, (ih htree hfirst).mp fun n => hall (n + 1)⟩
    · rintro ⟨hfits, hrest⟩ n
      cases n with
      | zero => exact h
      | succ n => exact (ih htree (hone.mpr hfits)).mpr hrest n

/-- **Selecting vertically moves the cursor as plain vertical movement does**, with nothing but the
selection anchor to tell the two runs apart, exactly when every step of the plain run fits. -/
theorem shifts_as_moves_iff (clientId : Str) (inputs : List Input) (vs : List Vertical) :
    (∀ n, Apart (verticals Vertical.move (afterInputs clientId inputs) (vs.take n))
        (verticals Vertical.shift (afterInputs clientId inputs) (vs.take n))) ↔
      Along (fun s v => (s.handleEditorCommand (Vertical.move v)).state) Fits
        (afterInputs clientId inputs) vs :=
  apart_verticals (tree_inputs clientId inputs) (apart_refl _) vs

/-- Three lines, the second of them shorter, and a click behind the end of the first. -/
def threeLines : List Input :=
  [.command ⟨.insertCharacter, 65⟩, .command ⟨.insertCharacter, 66⟩, .command ⟨.enter, 0⟩,
    .command ⟨.enter, 0⟩, .command ⟨.insertCharacter, 67⟩, .command ⟨.insertCharacter, 68⟩,
    .mousePress 0 9]

/-- **Past a shorter line the two runs part**: two steps down end behind the last character without a
selection, and at the beginning of its line with one. -/
theorem shifts_apart :
    let s := afterInputs (str "a") threeLines
    (verticals Vertical.move s [.down, .down]).cursor.anchor = ⟨6, str "a"⟩ ∧
      (verticals Vertical.shift s [.down, .down]).cursor.anchor = ⟨4, str "a"⟩ ∧
      ¬ ∀ n, Apart (verticals Vertical.move s ([Vertical.down, .down].take n))
        (verticals Vertical.shift s ([Vertical.down, .down].take n)) := by
  have hmove : (verticals Vertical.move (afterInputs (str "a") threeLines)
      [.down, .down]).cursor.anchor = ⟨6, str "a"⟩ := by decide +kernel
  have hshift : (verticals Vertical.shift (afterInputs (str "a") threeLines)
      [.down, .down]).cursor.anchor = ⟨4, str "a"⟩ := by decide +kernel
  refine ⟨hmove, hshift, fun hall => ?_⟩
  obtain ⟨a, he⟩ := hall 2
  have hanchor := congrArg (fun u : EditorSession => u.cursor.anchor) he
  exact absurd (hshift.symm.trans (hanchor.trans hmove)) (by decide)

end EditorSession

end CrdtEditor
