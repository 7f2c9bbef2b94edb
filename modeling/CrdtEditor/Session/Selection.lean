import CrdtEditor.Editor.Selection
import CrdtEditor.Session.Tree

/-!
# Session/Selection — deleting a selection in a session

The caret falls back when its anchor is removed, the other end of the selection does not.
`delete_selection` looks for both among the visible elements: with an end that is no longer there it
deletes to the end of the text.  `deletesSelection_iff` says exactly when it deletes the selection,
`deletes_unselected` is a session where it does not.
-/

namespace CrdtEditor.EditorSession

open Text

/-- **Backspace and DeleteForward delete the selection and nothing else**: they remove, once each,
the visible elements strictly after the earlier and up to and including the later of its two ends,
whichever of the two the caret is at. -/
def DeletesSelection (s : EditorSession) (a : ElementID) : Prop :=
  ∃ ids : List ElementID, ids.Nodup ∧
    (∀ x, x ∈ ids ↔ s.doc.isVisible x ∧ s.doc.Between a s.cursor.anchor x) ∧
    ∀ c ∈ [s.cursor, s.cursor.exchange a], ∀ command : EditorCommand,
      command.type = .backspace ∨ command.type = .deleteForward →
        ∃ h, (s.handler.setCursor c).processCommand command =
          .ok (h, ids.map fun x => .remove ⟨x⟩)

/-- Both commands delete a selection if there is one. -/
theorem processCommand_of_hasSelection {h : InputHandler} (hs : h.cursor.hasSelection)
    {command : EditorCommand} (hc : command.type = .backspace ∨ command.type = .deleteForward) :
    h.processCommand command = h.deleteSelection := by
  rw [InputHandler.processCommand]
  rcases hc with hc | hc <;> rw [hc]
  · exact if_pos hs
  · exact if_pos hs

/-- **Exactly when the selection is deleted**: in every session, whatever led to it, if and only if no
visible element lies behind exactly one end that is neither the root nor visible. -/
theorem deletesSelection_iff (clientId : Str) (inputs : List Input) {a : ElementID}
    (hs : (afterInputs clientId inputs).cursor.selectionAnchor = some a)
    (hne : a ≠ (afterInputs clientId inputs).cursor.anchor) :
    (afterInputs clientId inputs).DeletesSelection a ↔
      (afterInputs clientId inputs).doc.Clear a (afterInputs clientId inputs).cursor.anchor := by
  have ht := tree_inputs clientId inputs
  generalize afterInputs clientId inputs = s at hs hne ht
  obtain ⟨h, ids, hids, hsub, hmem⟩ := InputHandler.exists_deleteSelection (h := s.handler) ht hs hne
  have hmem : ∀ x, x ∈ ids ↔ s.doc.isVisible x ∧ s.doc.Found a s.cursor.anchor x := hmem
  have hnodup := ht.nodup_preorder.filter s.doc.isVisible
  have hsel : s.cursor.hasSelection := Cursor.hasSelection_iff.mpr ⟨a, hs, hne⟩
  rw [Document.clear_iff_found]
  constructor
  · rintro ⟨ids', -, hmem', hall⟩ x hx
    obtain ⟨h', hrun⟩ := hall s.cursor (by simp) ⟨.backspace, 0⟩ (Or.inl rfl)
    rw [processCommand_of_hasSelection (h := s.handler.setCursor s.cursor) hsel (Or.inl rfl)] at hrun
    have he : ids.map (fun x => Operation.remove ⟨x⟩) = ids'.map fun x => Operation.remove ⟨x⟩ :=
      (Prod.ext_iff.mp (Except.ok.inj (hids.symm.trans hrun))).2
    have hinj : Function.Injective fun x : ElementID => Operation.remove ⟨x⟩ := fun x y hxy => by
      simpa using hxy
    obtain rfl : ids = ids' := List.map_injective_iff.mpr hinj he
    exact (and_congr_right_iff.mp ((hmem x).symm.trans (hmem' x))) hx
  · intro hfound
    have hbetween : ∀ x, x ∈ ids ↔ s.doc.isVisible x ∧ s.doc.Between a s.cursor.anchor x :=
      fun x => (hmem x).trans (and_congr_right (hfound x))
    refine ⟨ids, hnodup.sublist hsub, hbetween, fun c hc command hcommand => ?_⟩
    rcases List.mem_cons.mp hc with rfl | hc
    · exact ⟨h, (processCommand_of_hasSelection hsel hcommand).trans hids⟩
    · obtain rfl := List.mem_singleton.mp hc
      -- with the ends exchanged the same elements are found
      obtain ⟨h', ids', hids', hsub', hmem'⟩ :=
        InputHandler.exists_deleteSelection (h := s.handler.setCursor (s.cursor.exchange a)) ht rfl
          hne.symm
      obtain rfl : ids' = ids := hnodup.sublist_ext hsub' hsub fun x =>
        (hmem' x).trans ((and_congr_right fun _ => Document.found_comm).trans (hmem x).symm)
      have hsel' : (s.cursor.exchange a).hasSelection :=
        Cursor.hasSelection_iff.mpr ⟨s.cursor.anchor, rfl, hne.symm⟩
      exact ⟨h', (processCommand_of_hasSelection hsel' hcommand).trans hids'⟩

/-- Three characters are typed; the caret goes back behind the first and selects the second; then the
first is removed from elsewhere. -/
def selectingInputs : List Input :=
  [.command ⟨.insertCharacter, 65⟩, .command ⟨.insertCharacter, 66⟩, .command ⟨.insertCharacter, 67⟩,
    .command ⟨.moveLeft, 0⟩, .command ⟨.moveLeft, 0⟩, .command ⟨.shiftRight, 0⟩,
    .receive ⟨.operation, str "b", .operation (.remove ⟨⟨1, str "a"⟩⟩)⟩, .flush]

/-- As long as both ends are there, the selection is deleted. -/
theorem deletesSelection_iff_sample :
    (afterInputs (str "a") (selectingInputs.take 6)).DeletesSelection ⟨1, str "a"⟩ ↔
      (afterInputs (str "a") (selectingInputs.take 6)).doc.Clear ⟨1, str "a"⟩
        (afterInputs (str "a") (selectingInputs.take 6)).cursor.anchor :=
  deletesSelection_iff (str "a") (selectingInputs.take 6) (by decide +kernel) (by decide +kernel)

/-- An element of the selection that is not removed is enough. -/
theorem not_deletesSelection {s : EditorSession} {a x : ElementID} {ops : List Operation}
    (hrun : (s.handler.processCommand ⟨.backspace, 0⟩).toOption.map Prod.snd = some ops)
    (hx : s.doc.isVisible x) (hb : s.doc.Between a s.cursor.anchor x)
    (hno : Operation.remove ⟨x⟩ ∉ ops) : ¬ s.DeletesSelection a := by
  rintro ⟨ids, -, hmem, hall⟩
  obtain ⟨h, hok⟩ := hall s.cursor List.mem_cons_self ⟨.backspace, 0⟩ (Or.inl rfl)
  change s.handler.processCommand ⟨.backspace, 0⟩ = _ at hok
  rw [hok] at hrun
  refine hno (Option.some.inj hrun ▸ ?_)
  exact List.mem_map_of_mem ((hmem x).mpr ⟨hx, hb⟩)

/-- **Backspace deletes the third character, which was not selected**, and leaves the second, which
was. -/
theorem deletes_unselected :
    let s := afterInputs (str "a") selectingInputs
    s.cursor.selectionAnchor = some ⟨1, str "a"⟩ ∧ s.cursor.anchor = ⟨2, str "a"⟩ ∧
      (s.handler.processCommand ⟨.backspace, 0⟩).toOption.map Prod.snd =
        some [.remove ⟨⟨3, str "a"⟩⟩] ∧
      ¬ s.DeletesSelection ⟨1, str "a"⟩ := by
  have hrun : ((afterInputs (str "a") selectingInputs).handler.processCommand
      ⟨.backspace, 0⟩).toOption.map Prod.snd = some [.remove ⟨⟨3, str "a"⟩⟩] := by decide +kernel
  refine ⟨by decide +kernel, by decide +kernel, hrun, ?_⟩
  refine not_deletesSelection (x := ⟨2, str "a"⟩) hrun (by decide +kernel) (Or.inl ?_) (by decide)
  exact ⟨by decide +kernel, by decide +kernel⟩

end CrdtEditor.EditorSession
