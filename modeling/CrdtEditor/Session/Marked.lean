import CrdtEditor.Editor.MarkedEditor
import CrdtEditor.Session.Refinement
import CrdtEditor.Session.Selection

/-!
# Session/Marked — a session with its selection is a marked editor

Whatever a session received, every command, click and drag returns and does to the text, the caret, the
remembered column and the selection what it does to the marked editor the session shows:
`marked_along`.
-/

open scoped List

namespace CrdtEditor

open Text

open Except (leaving)

/-! ## The selection anchor moves in the handler only -/

theorem Cursor.selectionAnchor_updateOnDelete {c c' : Cursor} {doc : Document}
    {oper : RemoveOperation} (h : c.updateOnDelete doc oper = .ok c') :
    c'.selectionAnchor = c.selectionAnchor := by
  obtain ⟨-, rfl⟩ | ⟨-, y, -, rfl⟩ := updateOnDelete_cases h
  · rfl
  · rfl

theorem Cursor.selectionAnchor_update {c c' : Cursor} {doc : Document} {op : Operation}
    (h : c.update doc op = .ok c') : c'.selectionAnchor = c.selectionAnchor := by
  cases op with
  | insert oper =>
    rw [← Except.ok.inj h, updateOnInsert]
    split <;> rfl
  | remove oper => exact selectionAnchor_updateOnDelete h

namespace EditorSession

variable {s t : EditorSession} {received : List Operation} {command : EditorCommand}

theorem selectionAnchor_perform {op : Operation} (h : s.perform op = .ok t) :
    t.cursor.selectionAnchor = s.cursor.selectionAnchor := by
  let P : EditorSession → Prop := fun t => t.cursor.selectionAnchor = s.cursor.selectionAnchor
  have happly : (s.applyOperation op true).Ends P fun _ => True := by
    rw [applyOperation]
    refine Except.ends_ite (fun _ => rfl) fun _ => ?_
    refine Except.Ends.bind (P := fun t => t.cursor = s.cursor) ?_ fun t ht => ?_
    · rw [applyToDocument]
      split
      · exact rfl
      · exact trivial
    refine Except.ends_leaving_bind (fun cursor hcursor => ?_) trivial
    have hkept : cursor.selectionAnchor = s.cursor.selectionAnchor :=
      ht ▸ Cursor.selectionAnchor_update hcursor
    cases op with
    | insert oper => exact hkept
    | remove oper =>
      refine Except.ends_foldlM (I := fun _ => P) (fun e l u hu => ?_) hkept
      rw [updateRemoteCursor]
      exact Except.ends_ite (fun _ => Except.ends_leaving_bind (fun _ _ => hu) trivial) fun _ => hu
  obtain ⟨u, hu, h⟩ := Except.bind_eq_ok.mp h
  obtain rfl := Except.ok.inj h
  rw [hu] at happly
  exact happly

theorem selectionAnchor_foldlM_perform : ∀ {ops : List Operation} {s t : EditorSession},
    ops.foldlM perform s = .ok t → t.cursor.selectionAnchor = s.cursor.selectionAnchor
  | [], s, t, h => by
      obtain rfl := Except.ok.inj h
      rfl
  | op :: ops, s, t, h => by
      rw [List.foldlM_cons, Except.bind_eq_ok] at h
      obtain ⟨u, hu, h⟩ := h
      exact (selectionAnchor_foldlM_perform h).trans (selectionAnchor_perform hu)

/-- The caret of a command after its operations: only the column may still be set. -/
theorem rememberColumn_cases (h : s.rememberColumn command = .ok t) :
    t.doc = s.doc ∧ t.cursor.anchor = s.cursor.anchor ∧
      t.cursor.selectionAnchor = s.cursor.selectionAnchor := by
  obtain ⟨column, rfl⟩ := exists_of_rememberColumn h
  exact ⟨rfl, rfl, rfl⟩

/-- What a command leaves of the document and the cursor: its operations lead to `u`. -/
theorem handleEditorCommand_cases {h : InputHandler} {ops : List Operation}
    (hrun : s.handler.processCommand command = .ok (h, ops))
    (ht : s.handleEditorCommand command = .ok t) :
    ∃ u, ops.foldlM perform (s.put h) = .ok u ∧ t.doc = u.doc ∧ t.cursor.anchor = u.cursor.anchor ∧
      t.cursor.selectionAnchor = h.cursor.selectionAnchor := by
  rw [handleEditorCommand_eq hrun, Except.bind_eq_ok] at ht
  obtain ⟨u, hu, ht⟩ := ht
  obtain ⟨hdoc, hanchor, hselection⟩ := rememberColumn_cases ht
  exact ⟨u, hu, hdoc, hanchor, hselection.trans (selectionAnchor_foldlM_perform hu)⟩

/-! ## Removing a list of elements -/

/-- What removing elements changes. -/
structure Removes (ids : List ElementID) (s t : EditorSession) : Prop where
  anchors : t.doc.anchors = s.doc.anchors.filter fun x => x = rootId ∨ x ∉ ids
  charOf : t.doc.charOf = s.doc.charOf
  cursor : (s.cursor.anchor = rootId ∨ s.cursor.anchor ∉ ids) → t.cursor.anchor = s.cursor.anchor

theorem Steady.exists_removes : ∀ {ids : List ElementID} {s : EditorSession}, Steady received s →
    (∀ x ∈ ids, x ∈ s.doc.elements) →
    ∃ t, (ids.map fun x => Operation.remove ⟨x⟩).foldlM perform s = .ok t ∧ Steady received t ∧
      Removes ids s t
  | [], s, h, _ => ⟨s, rfl, h, by simp, rfl, fun _ => rfl⟩
  | x :: ids, s, h, hids => by
      obtain ⟨u, hu, husteady, hrem⟩ := h.perform_remove (hids x List.mem_cons_self)
      obtain ⟨t, ht, hsteady, hrest⟩ := husteady.exists_removes fun y hy =>
        hrem.elements y (hids y (List.mem_cons_of_mem _ hy))
      refine ⟨t, ?_, hsteady, ?_, hrest.charOf.trans hrem.charOf, fun hc => ?_⟩
      · rw [List.map_cons, List.foldlM_cons, hu]
        exact ht
      · rw [hrest.anchors, hrem.anchors, List.filter_filter]
        refine List.filter_congr fun y _ => ?_
        simp only [List.mem_cons, not_or]
        grind
      · have hfirst : u.cursor.anchor = s.cursor.anchor := by
          refine hrem.cursor ?_
          by_cases hx : x = rootId
          · exact Or.inr hx
          · refine Or.inl fun he : s.cursor.anchor = x => ?_
            exact hc.elim (fun hr => hx (he.symm.trans hr)) fun hn => hn (he ▸ List.mem_cons_self)
        rw [← hfirst]
        refine hrest.cursor ?_
        rw [hfirst]
        exact hc.imp id fun hn hm => hn (List.mem_cons_of_mem _ hm)

/-! ## Every command -/

/-- The marked editor a session shows. -/
def marked (s : EditorSession) : MarkedEditor := s.handler.marked

theorem Sound.placed (h : Sound received s) : s.handler.Placed := ⟨h.tree, h.anchor⟩

/-- The command returns, and does to the marked editor what it does. -/
def Refines (s : EditorSession) (command : EditorCommand) : Prop :=
  ∃ s', s.handleEditorCommand command = .ok s' ∧ s'.render = .ok s'.view.text ∧
    s'.marked = s.marked.run command

/-- A command that cuts nothing. -/
theorem marked_run_of_not_cut
    (hcut : ¬ (s.marked.selects ∧ (command.type = .backspace ∨ command.type = .deleteForward)))
    (hview : t.view = s.view.run command) (hmark : t.handler.mark = s.marked.kept command) :
    t.marked = s.marked.run command := by
  rw [MarkedEditor.run, if_neg hcut, marked, InputHandler.marked, hmark]
  exact congrArg (fun e => (⟨e, s.marked.kept command⟩ : MarkedEditor)) hview

/-- Typing gives the selection up and leaves what was selected. -/
theorem Sound.marked_typed (h : Sound received s) {c : UInt8} (hc : command.typed = some c)
    (h0 : c ≠ 0) (hf : s.Fresh received) (hrun : s.view.run command = (s.view.insert c).rememberColumn)
    (hkept : s.marked.kept command = .unset)
    (hcut : ¬ (command.type = .backspace ∨ command.type = .deleteForward)) : s.Refines command := by
  obtain ⟨t, ht, hrender, hview⟩ := refines_typed h hc h0 hf
  obtain ⟨-, -, -, -, hselection⟩ :=
    handleEditorCommand_cases (InputHandler.processCommand_of_typed hc h0) ht
  refine ⟨t, ht, hrender, marked_run_of_not_cut (fun hm => hcut hm.2) (hview.trans hrun.symm) ?_⟩
  rw [hkept]
  exact InputHandler.mark_of_none hselection

/-- A move leaves the document, and the selection that its handler leaves. -/
theorem Sound.marked_moves (h : Sound received s) {e : PlainEditor} {a : Option ElementID}
    (hm : s.handler.Moves e (s.handler.processCommand command))
    (hrun : (if command.type ≠ .moveUp ∧ command.type ≠ .moveDown then e.rememberColumn else e) =
      s.view.run command) (hselects : InputHandler.Selects a (s.handler.processCommand command))
    (hmark : ∀ g : InputHandler, g.doc.anchors = s.doc.anchors → g.cursor.selectionAnchor = a →
      g.mark = s.marked.kept command)
    (hcut : ¬ (command.type = .backspace ∨ command.type = .deleteForward)) : s.Refines command := by
  obtain ⟨t, ht, hrender, hview⟩ := refines_moves h hm hrun
  obtain ⟨g, hg, hd, -⟩ := hm
  obtain ⟨u, hu, hdoc, -, hselection⟩ := handleEditorCommand_cases hg ht
  obtain rfl : s.put g = u := Except.ok.inj hu
  rw [hg] at hselects
  refine ⟨t, ht, hrender, marked_run_of_not_cut (fun hm => hcut hm.2) hview ?_⟩
  refine hmark t.handler ?_ (hselection.trans hselects)
  exact congrArg Document.anchors (hdoc.trans hd)

/-- The text behind the anchors. -/
theorem text_eq_map (d : Document) : d.text = d.anchors.tail.map d.charOf := rfl

/-- **A deletion with a selection cuts it.** -/
theorem Sound.marked_cut (h : Sound received s) (hs : s.cursor.hasSelection = true)
    (hc : command.type = .backspace ∨ command.type = .deleteForward) : s.Refines command := by
  have hp := h.placed
  obtain ⟨g, hg, hgdoc, hggen, hgcolumn, hgselection, hganchor⟩ := hp.exists_deleteSelection hs
  obtain ⟨hlo, hhi, hlast⟩ := hp.span_le
  rw [InputHandler.selected] at hg
  generalize hspan : s.handler.marked.span = span at hg hganchor hlo hhi hlast
  obtain ⟨lo, hi⟩ := span
  set slice := (s.handler.doc.anchors.take (hi + 1)).drop (lo + 1)
  have hnodup := h.tree.nodup_anchors
  have hmem : ∀ x, x ∈ slice ↔ x ∈ s.doc.anchors ∧ lo + 1 ≤ s.doc.anchors.idxOf x ∧
      s.doc.anchors.idxOf x < hi + 1 := fun x => hnodup.mem_slice
  have hput : Sound received (s.put g) :=
    h.congr hgdoc rfl hggen rfl rfl (List.mem_of_getElem? hganchor)
  have hdoc : (s.put g).doc = s.doc := hgdoc
  have hids : ∀ x ∈ slice, x ∈ (s.put g).doc.elements := fun x hx => by
    rw [hdoc]
    exact h.tree.mem_of_mem_anchors ((hmem x).mp hx).1
  obtain ⟨u, hu, husteady, hrem⟩ := hput.toSteady.exists_removes hids
  have hrun : s.handler.processCommand command = .ok (g, slice.map fun x => .remove ⟨x⟩) :=
    (processCommand_of_hasSelection hs hc).trans hg
  -- the root is in front of the slice
  have hanchors : u.doc.anchors = s.doc.anchors.take (lo + 1) ++ s.doc.anchors.drop (hi + 1) := by
    rw [hrem.anchors, hdoc, ← hnodup.filter_notMem_slice (by omega)]
    refine List.filter_congr fun x hx => decide_eq_decide.mpr ?_
    refine or_iff_right_of_imp fun hr hm => ?_
    have hzero : s.doc.anchors.idxOf x = 0 := hr ▸ hnodup.idxOf_of_getElem? rfl
    have := ((hmem x).mp hm).2.1
    omega
  have htext : u.doc.text = s.doc.text.take lo ++ s.doc.text.drop hi := by
    rw [text_eq_map, text_eq_map, hanchors, hrem.charOf, hdoc, Document.anchors]
    simp
  have hcursor : u.cursor.anchor = g.cursor.anchor := by
    refine hrem.cursor (Or.inr fun hm : g.cursor.anchor ∈ slice => ?_)
    have hidx := hnodup.idxOf_of_getElem? hganchor
    have := ((hmem _).mp hm).2.1
    omega
  have hat : u.doc.anchors[lo]? = some u.cursor.anchor := by
    rw [hanchors, hcursor, List.getElem?_append_left, List.getElem?_take_of_lt (Nat.lt_succ_self lo)]
    · exact hganchor
    · have hlt : lo < s.doc.anchors.length := (List.getElem?_eq_some_iff.mp hganchor).1
      rw [List.length_take]
      omega
  have hremember : command.type ≠ .moveUp ∧ command.type ≠ .moveDown := by
    rcases hc with hc | hc <;> rw [hc] <;> decide
  obtain ⟨t, ht, hrender, hview⟩ := exists_view hrun hu husteady.tree husteady.anchor rfl
  obtain ⟨-, -, -, -, hselection⟩ := handleEditorCommand_cases hrun ht
  refine ⟨t, ht, hrender, ?_⟩
  have hselects : s.marked.selects = true := hp.selects_eq.trans hs
  rw [if_pos hremember, view_eq husteady.tree htext hat] at hview
  rw [MarkedEditor.run, if_pos ⟨hselects, hc⟩, marked, InputHandler.marked,
    InputHandler.mark_of_none (hselection.trans hgselection)]
  rw [MarkedEditor.rememberColumn, MarkedEditor.cut, marked, hspan]
  exact congrArg (fun e => (⟨e, .unset⟩ : MarkedEditor)) hview

theorem idxOf_root (d : Document) : d.anchors.idxOf rootId = 0 := List.idxOf_cons_self

/-- Without a selection the selection anchor is unset or at the caret. -/
theorem eq_anchor_of_hasSelection {c : Cursor} {a : ElementID} (hs : c.hasSelection = false)
    (ha : c.selectionAnchor = some a) : a = c.anchor := by
  rw [Cursor.hasSelection, ha] at hs
  simpa using hs

/-- Without a selection there is nothing to cut. -/
theorem Sound.not_cut (h : Sound received s) (hs : s.cursor.hasSelection = false)
    (command : EditorCommand) :
    ¬ (s.marked.selects ∧ (command.type = .backspace ∨ command.type = .deleteForward)) := by
  rw [show s.marked.selects = false from h.placed.selects_eq.trans hs]
  exact fun hm => Bool.false_ne_true hm.1

/-- A mark at the caret goes with the character that Backspace deletes. -/
theorem Sound.marked_backspace (h : Sound received s) (hs : s.cursor.hasSelection = false)
    (hc : command.type = .backspace) : s.Refines command := by
  have hp := h.placed
  have hcut := h.not_cut hs command
  have hview' : s.view.run command = s.view.backspace.rememberColumn := by rw [PlainEditor.run, hc]
  obtain ⟨t, ht, hrender, hview⟩ := refines_backspace h hs hc
  refine ⟨t, ht, hrender, marked_run_of_not_cut hcut (hview.trans hview'.symm) ?_⟩
  obtain ⟨y, hy, hr⟩ := InputHandler.backspace_eq hp hs
  have hrun : s.handler.processCommand command =
      .ok (s.handler.setAnchor y, [.remove ⟨s.cursor.anchor⟩]) := by
    rw [InputHandler.processCommand, hc]
    exact hr
  obtain ⟨u, hu, hdoc, -, hselection⟩ := handleEditorCommand_cases hrun ht
  have hselection : t.cursor.selectionAnchor = s.cursor.selectionAnchor := hselection
  have hkept : s.marked.kept command =
      if s.handler.caret = 0 ∨ s.handler.mark = .unset then s.handler.mark else .lost := by
    rw [MarkedEditor.kept, hc]
    rfl
  rw [hkept]
  cases ha : s.cursor.selectionAnchor with
  | none =>
    rw [InputHandler.mark_of_none (h := s.handler) ha, if_pos (Or.inr rfl)]
    exact InputHandler.mark_of_none (hselection.trans ha)
  | some a =>
    obtain rfl := eq_anchor_of_hasSelection hs ha
    have hmark := InputHandler.mark_of_mem (h := s.handler) ha h.anchor
    have hput : Sound received (s.put (s.handler.setAnchor y)) :=
      h.congr rfl rfl rfl rfl rfl (List.mem_of_getElem? hy)
    obtain ⟨v, hv, -, hrem⟩ := hput.perform_remove (h.tree.mem_of_mem_anchors h.anchor)
    obtain rfl : v = u := by
      rw [List.foldlM_cons, hv] at hu
      exact Except.ok.inj hu
    have hanchors : t.doc.anchors = s.doc.anchors.filter fun x => x = rootId ∨ x ≠ s.cursor.anchor :=
      (congrArg Document.anchors hdoc).trans hrem.anchors
    have hx : s.doc.anchors[s.handler.caret]? = some s.cursor.anchor := hp.getElem?_caret
    by_cases hzero : s.handler.caret = 0
    · -- the root is not deleted
      rw [if_pos (Or.inl hzero), hmark]
      rw [hzero] at hx
      have hroot : s.cursor.anchor = rootId := (Option.some.inj hx).symm
      rw [hroot] at ha ⊢
      rw [InputHandler.mark_of_mem (h := t.handler) (hselection.trans ha) List.mem_cons_self]
      exact congrArg Mark.behind ((idxOf_root t.doc).trans (idxOf_root s.doc).symm)
    · rw [if_neg (not_or.mpr ⟨hzero, by rw [hmark]; exact Mark.noConfusion⟩)]
      refine InputHandler.mark_of_notMem (hselection.trans ha) fun hm => ?_
      change s.cursor.anchor ∈ t.doc.anchors at hm
      rw [hanchors, List.mem_filter] at hm
      have hroot : s.cursor.anchor = rootId := by simpa using hm.2
      exact hzero (h.tree.nodup_anchors.idxOf_of_getElem? (hroot ▸ rfl))

/-- A mark at the caret stays when the character behind it is deleted. -/
theorem Sound.marked_deleteForward (h : Sound received s) (hs : s.cursor.hasSelection = false)
    (hc : command.type = .deleteForward) : s.Refines command := by
  have hp := h.placed
  have hview' : s.view.run command = s.view.deleteForward.rememberColumn := by
    rw [PlainEditor.run, hc]
  obtain ⟨t, ht, hrender, hview⟩ := refines_deleteForward h hs hc
  refine ⟨t, ht, hrender, marked_run_of_not_cut (h.not_cut hs command) (hview.trans hview'.symm) ?_⟩
  have hrun := InputHandler.deleteForward_eq hp hs
  rw [show s.handler.deleteForward = s.handler.processCommand command by
    rw [InputHandler.processCommand, hc]] at hrun
  obtain ⟨u, hu, hdoc, hanchor, hselection⟩ := handleEditorCommand_cases hrun ht
  have hselection : t.cursor.selectionAnchor = s.cursor.selectionAnchor := hselection
  have hkept : s.marked.kept command = s.handler.mark := by
    rw [MarkedEditor.kept, hc]
    rfl
  rw [hkept]
  cases ha : s.cursor.selectionAnchor with
  | none =>
    rw [InputHandler.mark_of_none (h := s.handler) ha]
    exact InputHandler.mark_of_none (hselection.trans ha)
  | some a =>
    obtain rfl := eq_anchor_of_hasSelection hs ha
    -- the caret is where it was, and the mark with it
    obtain ⟨hmem, hcursor⟩ : u.cursor.anchor ∈ u.doc.anchors ∧ u.cursor.anchor = s.cursor.anchor := by
      cases hn : s.handler.doc.anchors[s.handler.caret + 1]? with
      | none =>
        rw [hn] at hu
        obtain rfl : s = u := Except.ok.inj hu
        exact ⟨h.anchor, rfl⟩
      | some x =>
        rw [hn] at hu
        obtain ⟨v, hv, hsound, hrem⟩ := h.perform_remove
          (h.tree.mem_of_mem_anchors (List.mem_of_getElem? hn))
        obtain rfl : v = u := by
          change [Operation.remove ⟨x⟩].foldlM perform s = _ at hu
          rw [List.foldlM_cons, hv] at hu
          exact Except.ok.inj hu
        refine ⟨hsound.anchor, hrem.cursor (Or.inl fun he : s.cursor.anchor = x => ?_)⟩
        have hidx := h.tree.nodup_anchors.idxOf_of_getElem? hn
        rw [← he] at hidx
        exact absurd hidx (Nat.ne_of_lt (Nat.lt_succ_self _))
    have hcaret : t.doc.anchors.idxOf t.cursor.anchor = s.doc.anchors.idxOf s.cursor.anchor :=
      congrArg PlainEditor.caret hview
    rw [hanchor.trans hcursor] at hcaret
    rw [hcursor, ← hdoc] at hmem
    rw [InputHandler.mark_of_mem (h := t.handler) (hselection.trans ha) hmem,
      InputHandler.mark_of_mem (h := s.handler) ha h.anchor]
    exact congrArg Mark.behind hcaret

/-- **A session with a selection refines a marked editor.** -/
theorem Sound.refines (h : Sound received s) (command : EditorCommand) (h0 : command.typed ≠ some 0)
    (hf : command.typed ≠ none → s.Fresh received) : s.Refines command := by
  have hp := h.placed
  obtain ⟨type, character⟩ := command
  cases type with
  | insertCharacter =>
    exact h.marked_typed rfl (fun he => h0 (congrArg some he)) (hf (by simp [EditorCommand.typed]))
      rfl rfl (by simp)
  | enter =>
    exact h.marked_typed rfl (by decide) (hf (by simp [EditorCommand.typed])) rfl rfl (by simp)
  | backspace =>
    cases hs : s.cursor.hasSelection with
    | true => exact h.marked_cut hs (Or.inl rfl)
    | false => exact h.marked_backspace hs rfl
  | deleteForward =>
    cases hs : s.cursor.hasSelection with
    | true => exact h.marked_cut hs (Or.inr rfl)
    | false => exact h.marked_deleteForward hs rfl
  | moveLeft =>
    exact h.marked_moves (InputHandler.moves_moving InputHandler.moves_moveLeftImpl hp) rfl
      (InputHandler.selects_moving InputHandler.selects_moveLeftImpl)
      (fun _ _ hg => InputHandler.mark_of_none hg) (by simp)
  | moveRight =>
    exact h.marked_moves (InputHandler.moves_moving InputHandler.moves_moveRightImpl hp) rfl
      (InputHandler.selects_moving InputHandler.selects_moveRightImpl)
      (fun _ _ hg => InputHandler.mark_of_none hg) (by simp)
  | moveUp =>
    exact h.marked_moves (InputHandler.moves_moving InputHandler.moves_moveUpImpl hp) rfl
      (InputHandler.selects_moving InputHandler.selects_moveUpImpl)
      (fun _ _ hg => InputHandler.mark_of_none hg) (by simp)
  | moveDown =>
    exact h.marked_moves (InputHandler.moves_moving InputHandler.moves_moveDownImpl hp) rfl
      (InputHandler.selects_moving InputHandler.selects_moveDownImpl)
      (fun _ _ hg => InputHandler.mark_of_none hg) (by simp)
  | shiftLeft =>
    exact h.marked_moves (InputHandler.moves_shifting InputHandler.moves_moveLeftImpl hp) rfl
      (InputHandler.selects_shifting InputHandler.selects_moveLeftImpl)
      (fun _ hd hg => hp.mark_extended hd hg) (by simp)
  | shiftRight =>
    exact h.marked_moves (InputHandler.moves_shifting InputHandler.moves_moveRightImpl hp) rfl
      (InputHandler.selects_shifting InputHandler.selects_moveRightImpl)
      (fun _ hd hg => hp.mark_extended hd hg) (by simp)
  | shiftUp =>
    exact h.marked_moves (InputHandler.moves_shifting InputHandler.moves_moveUpImpl hp) rfl
      (InputHandler.selects_shifting InputHandler.selects_moveUpImpl)
      (fun _ hd hg => hp.mark_extended hd hg) (by simp)
  | shiftDown =>
    exact h.marked_moves (InputHandler.moves_shifting InputHandler.moves_moveDownImpl hp) rfl
      (InputHandler.selects_shifting InputHandler.selects_moveDownImpl)
      (fun _ hd hg => hp.mark_extended hd hg) (by simp)

/-! ## The mouse -/

/-- **The anchor near a requested position** is the anchor behind the text in front of the nearest. -/
theorem exists_anchorNear (ht : s.doc.IsTree) (line column : ℕ) :
    ∃ x, s.doc.anchors[MarkedEditor.nearest s.doc.text line column]? = some x ∧
      s.anchorNear line column = .ok (some x) := by
  set l := min line ((lines s.doc.text).length - 1) with hl
  have hlt : l < (lines s.doc.text).length := by
    have := List.length_pos_of_ne_nil (List.splitOn_ne_nil newline s.doc.text)
    change 0 < (lines s.doc.text).length at this
    omega
  obtain ⟨n, hn⟩ : ∃ n, lineLength s.doc.text l = some n :=
    ⟨_, by rw [lineLength, List.getElem?_eq_getElem hlt]; rfl⟩
  obtain ⟨hp, hk⟩ := position_take_offset hn (min_le_right column n)
  have hnearest : MarkedEditor.nearest s.doc.text line column =
      offset s.doc.text l (min column n) := by
    rw [MarkedEditor.nearest, ← hl, hn, Option.getD_some]
  have hlength := Document.IsTree.length_anchors s.doc
  have hat := ht.getAnchorAt_eq hk hp
  rw [hnearest]
  obtain ⟨x, hx⟩ : ∃ x, s.doc.anchors[offset s.doc.text l (min column n)]? = some x :=
    ⟨_, List.getElem?_eq_getElem (by omega)⟩
  refine ⟨x, hx, ?_⟩
  rw [anchorNear, ht.clampPosition_eq, ← hl, hn, Option.getD_some]
  exact hat.trans (congrArg Except.ok hx)

/-- The caret is put behind an anchor, and the mark stays. -/
theorem marked_clicked (ht : s.doc.IsTree) {x : ElementID} {k : ℕ}
    (hx : s.doc.anchors[k]? = some x) :
    ({ s with cursor := s.clicked x k } : EditorSession).marked =
      ({ s.marked with caret := k } : MarkedEditor).rememberColumn := by
  have hcaret : s.doc.anchors.idxOf x = k := ht.nodup_anchors.idxOf_of_getElem? hx
  have hmark : (s.handler.setCursor (s.clicked x k)).mark = s.handler.mark :=
    InputHandler.mark_congr rfl rfl
  change (⟨⟨s.doc.text, s.doc.anchors.idxOf x, _⟩, (s.handler.setCursor (s.clicked x k)).mark⟩ :
    MarkedEditor) = _
  rw [hmark, hcaret]
  rfl

/-- The caret is carried behind an anchor, away from the mark. -/
theorem Sound.marked_dragged (h : Sound received s) {x : ElementID} {k : ℕ}
    (hx : s.doc.anchors[k]? = some x) :
    ({ s with cursor := s.dragged x } : EditorSession).marked =
      { s.marked with caret := k, mark := s.marked.extended } := by
  have hcaret : s.doc.anchors.idxOf x = k := h.tree.nodup_anchors.idxOf_of_getElem? hx
  have hselection : (s.dragged x).selectionAnchor =
      if s.cursor.hasSelection then s.cursor.selectionAnchor else some s.cursor.anchor := by
    rw [dragged]
    split <;> rfl
  have hcolumn : (s.dragged x).desiredColumn = s.cursor.desiredColumn := by
    rw [dragged]
    split <;> rfl
  have hmark : (s.handler.setCursor (s.dragged x)).mark = s.marked.extended :=
    h.placed.mark_extended rfl hselection
  change (⟨⟨s.doc.text, s.doc.anchors.idxOf x, (s.dragged x).desiredColumn⟩,
    (s.handler.setCursor (s.dragged x)).mark⟩ : MarkedEditor) = _
  rw [hmark, hcaret, hcolumn]
  rfl

/-- **A click** is a click of the marked editor. -/
theorem marked_mousePressEvent (ht : s.doc.IsTree) (line column : ℕ) :
    ∃ t, s.mousePressEvent line column = .ok t ∧ t.marked = s.marked.press line column := by
  obtain ⟨x, hx, hnear⟩ := exists_anchorNear ht line column
  exact ⟨_, mousePressEvent_eq ht hnear hx, marked_clicked ht hx⟩

/-- **A drag** is a drag of the marked editor. -/
theorem Sound.marked_mouseMoveEvent (h : Sound received s) (line column : ℕ) :
    ∃ t, s.mouseMoveEvent line column = .ok t ∧ t.marked = s.marked.drag line column := by
  obtain ⟨x, hx, hnear⟩ := exists_anchorNear h.tree line column
  exact ⟨_, mouseMoveEvent_eq hnear, h.marked_dragged hx⟩

end EditorSession

/-- **What an input does**; messages are none of the editor's business. -/
def MarkedEditor.input (e : MarkedEditor) : EditorSession.Input → MarkedEditor
  | .command command => e.run command
  | .mousePress line column => e.press line column
  | .mouseMove line column => e.drag line column
  | .queueCursorUpdate | .receive _ | .flush => e

namespace EditorSession

variable {s : EditorSession} {received : List Operation}

theorem Sound.marked_input (h : Sound received s) {i : Input} (hi : Allows (s, received) i)
    (hflush : i ≠ .flush) : ∃ t, s.input i = .ok t ∧ t.marked = s.marked.input i := by
  cases i with
  | command command =>
    obtain ⟨t, ht, -, hmarked⟩ := h.refines command hi.1 fun ht => (hi.2 ht).1
    exact ⟨t, ht, hmarked⟩
  | queueCursorUpdate => exact ⟨_, rfl, rfl⟩
  | mousePress line column => exact marked_mousePressEvent h.tree line column
  | mouseMove line column => exact h.marked_mouseMoveEvent line column
  | receive message => exact ⟨_, rfl, rfl⟩
  | flush => exact absurd rfl hflush

/-- **A session with its selection is a marked editor**: whatever was typed, clicked and received before,
every input returns and renders the text of its marked editor, and every command, click and drag does to
the text, the caret, the remembered column and the selection what it does to the marked editor. -/
theorem marked_along {clientId : Str} (hbar : bar ∉ clientId) {inputs : List Input}
    (h : Along step Allows (start clientId, []) inputs) :
    Along step (fun c i => ∃ t, c.1.input i = .ok t ∧ t.render = .ok t.marked.text ∧
      (i ≠ .flush → t.marked = c.1.marked.input i)) (start clientId, []) inputs := by
  suffices hstep : ∀ (c : EditorSession × List Operation) (i : Input), Sound c.2 c.1 → Allows c i →
      (∃ t, c.1.input i = .ok t ∧ t.render = .ok t.marked.text ∧
        (i ≠ .flush → t.marked = c.1.marked.input i)) ∧ Sound (step c i).2 (step c i).1 from
    Along.of_invariant hstep (sound_start hbar) h
  intro c i hc hi
  obtain ⟨t, ht, hsound⟩ := hc.input hi
  have hstep : step c i = (t, c.2 ++ c.1.taken i) := step_of_ok ht
  rw [hstep]
  refine ⟨⟨t, ht, hsound.tree.render_eq_text, fun hflush => ?_⟩, hsound⟩
  obtain ⟨t', ht', hmarked⟩ := hc.marked_input hi hflush
  obtain rfl := Except.ok.inj (ht.symm.trans ht')
  exact hmarked

/-- The mark is lost to a removal from elsewhere; then the text behind the caret is cut, and a drag selects
anew. -/
def markedInputs : List Input :=
  selectingInputs ++ [.command ⟨.backspace, 0⟩, .command ⟨.insertCharacter, 68⟩, .mousePress 0 0,
    .mouseMove 0 9, .command ⟨.shiftUp, 0⟩, .command ⟨.deleteForward, 0⟩]

theorem marked_along_sample :
    Along step (fun c i => ∃ t, c.1.input i = .ok t ∧ t.render = .ok t.marked.text ∧
      (i ≠ .flush → t.marked = c.1.marked.input i)) (start (str "a"), []) markedInputs :=
  marked_along (by decide) (by decide +kernel)

end EditorSession

end CrdtEditor
