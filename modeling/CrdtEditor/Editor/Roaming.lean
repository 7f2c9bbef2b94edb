import CrdtEditor.Editor.PlainEditor

/-!
# Editor/Roaming — a command behind any element

The anchor of a caret can be an element that is not shown: the one just typed, if its removal came
first.  A command that types nothing moves the caret from element to element there too, though it may
throw, and asks for removals only: `Near.processCommand`.
-/

namespace CrdtEditor

open Except (leaving)

namespace Document.IsTree

variable {d : Document} {x y : ElementID}

/-- A walk to the left ends at an element. -/
theorem mem_of_visiblePredecessor (h : d.IsTree) (hx : x ∈ d.elements)
    (hy : d.visiblePredecessor x = .ok y) : y ∈ d.elements := by
  obtain ⟨z, hz, hok, -⟩ := h.exists_visiblePredecessor hx
  obtain rfl := Except.ok.inj (hok.symm.trans hy)
  exact h.mem_of_mem_anchors hz

/-- A walk to the right that finds something finds an element. -/
theorem mem_of_visibleSuccessor (h : d.IsTree) (hx : x ∈ d.elements)
    (hy : d.visibleSuccessor x = .ok (some y)) : y ∈ d.elements := by
  obtain ⟨a, b, hl⟩ := List.append_of_mem (h.mem_preorder.mpr hx)
  rw [h.visibleSuccessor_eq hl] at hy
  exact mem_of_isVisible (List.find?_some (Except.ok.inj hy))

/-- So does the search for a line and a column: it answers the root or a visible element. -/
theorem mem_of_getAnchorAt (h : d.IsTree) {line column : ℕ}
    (hy : d.getAnchorAt line column = .ok (some y)) : y ∈ d.elements := by
  have hloop : ∀ (ids : List ElementID) (p : ℕ × ℕ) (previous : ElementID),
      d.anchorFrom line column p previous ids = .ok (some y) → y ∈ previous :: ids := by
    intro ids
    induction ids with
    | nil =>
      intro p previous hp
      rw [anchorFrom] at hp
      split_ifs at hp
      · obtain rfl := Option.some.inj (Except.ok.inj hp)
        exact List.mem_cons_self
      · cases hp
    | cons id ids ih =>
      intro p previous hp
      rw [anchorFrom] at hp
      split_ifs at hp
      · obtain rfl := Option.some.inj (Except.ok.inj hp)
        exact List.mem_cons_self
      · cases hc : d.getCharacter id with
        | error e => rw [hc] at hp; cases hp
        | ok c =>
          rw [hc] at hp
          exact List.mem_cons_of_mem _ (ih _ _ hp)
  rw [getAnchorAt, h.visible_eq] at hy
  obtain rfl | hm := List.mem_cons.mp (hloop _ _ _ hy)
  exacts [h.root_mem, visible_mem hm]

end Document.IsTree

namespace InputHandler

variable {h g : InputHandler}

/-- The same document and generator, and the caret behind an element. -/
structure Near (h g : InputHandler) : Prop where
  doc : g.doc = h.doc
  gen : g.gen = h.gen
  anchor : g.cursor.anchor ∈ h.doc.elements

/-- The call returned or threw near where it began, and asks for removals of elements only. -/
def Roams (h : InputHandler) : Handling → Prop
  | .ok r => h.Near r.1 ∧ ∀ op ∈ r.2, ∃ oper, op = .remove oper ∧ oper.theTarget ∈ h.doc.elements
  | .error e => h.Near e.2

/-- A query in front of a call: if it throws, the handler it leaves is near. -/
theorem roams_leaving_bind {α : Type} {r : Except Exn α} {f : α → Handling} (hg : h.Near g)
    (hf : ∀ a, r = .ok a → h.Roams (f a)) : h.Roams (leaving g r >>= f) := by
  cases r with
  | ok a => exact hf a rfl
  | error e => exact hg

namespace Near

/-- Returning with no operation. -/
theorem roams (hg : h.Near g) : h.Roams (.ok (g, [])) :=
  ⟨hg, fun _ hop => absurd hop List.not_mem_nil⟩

/-- The caret may be put behind any other element. -/
theorem setAnchor (hg : h.Near g) {x : ElementID} (hx : x ∈ h.doc.elements) :
    h.Near (g.setAnchor x) :=
  ⟨hg.doc, hg.gen, hx⟩

/-- Every move ends by looking up its line and column, which may throw. -/
theorem located (hg : h.Near g) : h.Roams g.located := roams_leaving_bind hg fun _ _ => hg.roams

theorem moveLeftImpl (ht : h.doc.IsTree) (hg : h.Near g) : h.Roams g.moveLeftImpl :=
  roams_leaving_bind hg fun _ hy =>
    (hg.setAnchor (ht.mem_of_visiblePredecessor hg.anchor (hg.doc ▸ hy))).located

theorem moveRightImpl (ht : h.doc.IsTree) (hg : h.Near g) : h.Roams g.moveRightImpl :=
  roams_leaving_bind hg fun next hy => by
    cases next with
    | some next => exact (hg.setAnchor (ht.mem_of_visibleSuccessor hg.anchor (hg.doc ▸ hy))).located
    | none => exact hg.located

/-- Remembering a column leaves the document, the generator and the anchor. -/
theorem rememberColumn (hg : h.Near g) (column : ℕ) : h.Near (g.rememberColumn column) := by
  obtain ⟨hdoc, hgen, hanchor, -⟩ := g.rememberColumn_eq column
  exact ⟨hdoc.trans hg.doc, hgen.trans hg.gen, hanchor ▸ hg.anchor⟩

/-- The step the two vertical moves share. -/
theorem moveToLine (ht : h.doc.IsTree) (hg : h.Near g) (line length : ℕ) :
    h.Roams (g.moveToLine line length) := by
  rw [InputHandler.moveToLine]
  split
  · exact hg
  · refine roams_leaving_bind hg fun anchor hy => ?_
    cases anchor with
    | some anchor => exact (hg.setAnchor (ht.mem_of_getAnchorAt (hg.doc ▸ hy))).located
    | none => exact hg.located

/-- Whether there is a line above, and how long it is, are queries that may throw. -/
theorem moveUpImpl (ht : h.doc.IsTree) (hg : h.Near g) : h.Roams g.moveUpImpl := by
  refine roams_leaving_bind hg fun p _ => ?_
  obtain ⟨line, column⟩ := p
  cases line with
  | zero => exact hg.roams
  | succ line =>
    have hr := hg.rememberColumn column
    refine roams_leaving_bind hr fun length _ => ?_
    cases length with
    | some length => exact hr.moveToLine ht line length
    | none => exact hr

/-- The same downwards; at the last line the caret stays. -/
theorem moveDownImpl (ht : h.doc.IsTree) (hg : h.Near g) : h.Roams g.moveDownImpl := by
  refine roams_leaving_bind hg fun p _ => roams_leaving_bind hg fun length _ => ?_
  cases length with
  | some length => exact (hg.rememberColumn p.2).moveToLine ht (p.1 + 1) length
  | none => exact hg.roams

/-- A plain move clears the selection first. -/
theorem moving {impl : InputHandler → Handling} (hg : h.Near g)
    (himpl : ∀ {g : InputHandler}, h.Near g → h.Roams (impl g)) : h.Roams (moving impl g) :=
  himpl ⟨hg.doc, hg.gen, hg.anchor⟩

/-- A shifted move begins one, if there is none. -/
theorem shifting {impl : InputHandler → Handling} (hg : h.Near g)
    (himpl : ∀ {g : InputHandler}, h.Near g → h.Roams (impl g)) : h.Roams (shifting impl g) := by
  refine himpl ?_
  split
  · exact hg
  · exact ⟨hg.doc, hg.gen, hg.anchor⟩

/-- **What a selection is cut by**: removals of elements, and the caret in front of the first. -/
theorem deleteSelection (ht : h.doc.IsTree) (hh : h.Near h) : h.Roams h.deleteSelection := by
  rw [InputHandler.deleteSelection]
  split
  · exact hh.roams
  refine roams_leaving_bind hh fun range _ => ?_
  cases range with
  | none => exact hh.roams
  | some range =>
    refine roams_leaving_bind hh fun ids hids => ?_
    obtain ⟨ids', hok, hmem⟩ := exists_getVisibleRange ht range
    obtain rfl := Except.ok.inj (hok.symm.trans hids)
    cases ids' with
    | nil => exact ⟨⟨rfl, rfl, hh.anchor⟩, fun _ hop => absurd hop List.not_mem_nil⟩
    | cons first rest =>
      refine roams_leaving_bind hh fun y hy => ⟨⟨rfl, rfl, ?_⟩, fun op hop => ?_⟩
      · exact ht.mem_of_visiblePredecessor (hmem first List.mem_cons_self) hy
      · obtain ⟨x, hx, rfl⟩ := List.mem_map.mp hop
        exact ⟨⟨x⟩, rfl, hmem x hx⟩

/-- **A command that types nothing** leaves the generator alone, and the caret behind an element. -/
theorem processCommand (ht : h.doc.IsTree) (hh : h.Near h) {command : EditorCommand}
    (hc : command.typed = none) : h.Roams (h.processCommand command) := by
  have hremove (oper : RemoveOperation) (hx : oper.theTarget ∈ h.doc.elements) :
      ∀ op ∈ [Operation.remove oper], ∃ oper, op = .remove oper ∧ oper.theTarget ∈ h.doc.elements :=
    fun op hop => ⟨oper, List.mem_singleton.mp hop, hx⟩
  obtain ⟨type, character⟩ := command
  cases type with
  | insertCharacter | enter => cases hc
  | moveLeft => exact hh.moving fun hg => hg.moveLeftImpl ht
  | moveRight => exact hh.moving fun hg => hg.moveRightImpl ht
  | moveUp => exact hh.moving fun hg => hg.moveUpImpl ht
  | moveDown => exact hh.moving fun hg => hg.moveDownImpl ht
  | shiftLeft => exact hh.shifting fun hg => hg.moveLeftImpl ht
  | shiftRight => exact hh.shifting fun hg => hg.moveRightImpl ht
  | shiftUp => exact hh.shifting fun hg => hg.moveUpImpl ht
  | shiftDown => exact hh.shifting fun hg => hg.moveDownImpl ht
  | backspace =>
    change h.Roams h.backspace
    rw [backspace]
    split
    · exact hh.deleteSelection ht
    · exact roams_leaving_bind hh fun y hy =>
        ⟨hh.setAnchor (ht.mem_of_visiblePredecessor hh.anchor hy), hremove _ hh.anchor⟩
  | deleteForward =>
    change h.Roams h.deleteForward
    rw [deleteForward]
    split
    · exact hh.deleteSelection ht
    · refine roams_leaving_bind hh fun next hy => ?_
      cases next with
      | some next => exact ⟨hh, hremove _ (ht.mem_of_visibleSuccessor hh.anchor hy)⟩
      | none => exact hh.roams

end Near

end InputHandler

end CrdtEditor
