import CrdtEditor.Document.Coordinates

/-!
# Editor/Cursor — the caret, its remembered column and its selection

`editor/cursor.cpp` and `crdt/id_generator.cpp`.  The caret stands behind its anchor; moving it up or
down aims at the column remembered from the last other command.  A selection runs from its own anchor
to the caret and is empty when the two meet.
-/

namespace CrdtEditor

/-- `Cursor`: the element in front of the caret, the column that vertical moves aim at, and the other
end of the selection. -/
structure Cursor where
  anchor : ElementID
  desiredColumn : Option ℕ
  selectionAnchor : Option ElementID
  deriving DecidableEq, Repr

namespace Cursor

/-- Every move of the caret; the remembered column and the selection are left. -/
def setAnchor (c : Cursor) (newAnchor : ElementID) : Cursor := { c with anchor := newAnchor }

/-- A caret behind the parent of the inserted element moves behind the element. -/
def updateOnInsert (c : Cursor) (oper : InsertOperation) : Cursor :=
  if oper.parent = c.anchor then c.setAnchor oper.ident else c

/-- A caret behind the deleted element falls back to the visible element in front. -/
def updateOnDelete (c : Cursor) (doc : Document) (oper : RemoveOperation) : Except Exn Cursor := do
  if oper.theTarget ≠ c.anchor then return c
  let predecessor ← doc.visiblePredecessor oper.theTarget
  return c.setAnchor predecessor

/-- After a local operation. -/
def update (c : Cursor) (doc : Document) : Operation → Except Exn Cursor
  | .insert oper => .ok (c.updateOnInsert oper)
  | .remove oper => c.updateOnDelete doc oper

/-- After a remote operation, which moves the caret only if it deletes the anchor. -/
def updateOnRemote (c : Cursor) (doc : Document) : Operation → Except Exn Cursor
  | .insert _ => .ok c
  | .remove oper => c.updateOnDelete doc oper

/-- Where the caret is on the screen. -/
def getLineColumn (c : Cursor) (doc : Document) : Except Exn (ℕ × ℕ) :=
  doc.getCursorPosition c.anchor

/-- Remember a column for the next move up or down. -/
def setDesiredColumn (c : Cursor) (column : ℕ) : Cursor := { c with desiredColumn := some column }

/-- Remember the column the caret is in. -/
def updateDesiredColumn (c : Cursor) (doc : Document) : Except Exn Cursor := do
  let p ← c.getLineColumn doc
  return c.setDesiredColumn p.2

/-- A selection was begun, and the caret has left the place where it was. -/
def hasSelection (c : Cursor) : Bool :=
  match c.selectionAnchor with
  | some a => a ≠ c.anchor
  | none => false

/-- The other end of the selection, which throws where there is none. -/
def getSelectionAnchor (c : Cursor) : Except Exn ElementID :=
  match c.hasSelection, c.selectionAnchor with
  | true, some a => .ok a
  | _, _ => .error (.runtimeError (str "tried to get a selection anchor without a value"))

/-- Begin a selection at the caret. -/
def startSelection (c : Cursor) : Cursor := { c with selectionAnchor := some c.anchor }

/-- Forget the selection; the caret stays. -/
def clearSelection (c : Cursor) : Cursor := { c with selectionAnchor := none }

/-- The selection from its end that comes first in the text; the root comes first of all. -/
def normalizedRange (c : Cursor) (doc : Document) : Except Exn (Option DocumentRange) := do
  if !c.hasSelection then return none
  let anchor ← c.getSelectionAnchor
  let cursor := c.anchor
  if anchor = cursor then return none
  if anchor = rootId then return some ⟨anchor, cursor⟩
  if cursor = rootId then return some ⟨cursor, anchor⟩
  let ids ← doc.visible
  return (ids.find? fun id => id = anchor || id = cursor).map fun id =>
    if id = anchor then ⟨anchor, cursor⟩ else ⟨cursor, anchor⟩

/-- **What a removal does to the caret**: nothing, or it falls back to the visible predecessor. -/
theorem updateOnDelete_cases {c c' : Cursor} {doc : Document} {oper : RemoveOperation}
    (h : c.updateOnDelete doc oper = .ok c') :
    (oper.theTarget ≠ c.anchor ∧ c' = c) ∨ (oper.theTarget = c.anchor ∧
      ∃ x, doc.visiblePredecessor oper.theTarget = .ok x ∧ c' = c.setAnchor x) := by
  rw [updateOnDelete] at h
  split at h
  case isTrue hne => exact Or.inl ⟨hne, (Except.ok.inj h).symm⟩
  case isFalse hne =>
    obtain ⟨x, hx, h⟩ := Except.bind_eq_ok.mp h
    exact Or.inr ⟨not_not.mp hne, x, hx, (Except.ok.inj h).symm⟩

/-! ### What the setters write, and what they leave -/

@[simp] theorem anchor_setAnchor (c : Cursor) (x : ElementID) : (c.setAnchor x).anchor = x := rfl

@[simp] theorem desiredColumn_setAnchor (c : Cursor) (x : ElementID) :
    (c.setAnchor x).desiredColumn = c.desiredColumn := rfl

@[simp] theorem anchor_setDesiredColumn (c : Cursor) (column : ℕ) :
    (c.setDesiredColumn column).anchor = c.anchor := rfl

@[simp] theorem desiredColumn_setDesiredColumn (c : Cursor) (column : ℕ) :
    (c.setDesiredColumn column).desiredColumn = some column := rfl

@[simp] theorem anchor_startSelection (c : Cursor) : c.startSelection.anchor = c.anchor := rfl

@[simp] theorem desiredColumn_startSelection (c : Cursor) :
    c.startSelection.desiredColumn = c.desiredColumn := rfl

@[simp] theorem anchor_clearSelection (c : Cursor) : c.clearSelection.anchor = c.anchor := rfl

@[simp] theorem desiredColumn_clearSelection (c : Cursor) :
    c.clearSelection.desiredColumn = c.desiredColumn := rfl

end Cursor

/-- `Id_generator`: a Lamport clock and the site it names ids for. -/
structure IdGenerator where
  clientId : Str
  lamportClock : UInt64
  deriving DecidableEq, Repr

namespace IdGenerator

/-- The id `next` draws; the clock wraps around at `2 ^ 64`. -/
def upcoming (g : IdGenerator) : ElementID := ⟨g.lamportClock + 1, g.clientId⟩

/-- `Id_generator::next`: the id, and the clock it leaves behind. -/
def next (g : IdGenerator) : ElementID × IdGenerator :=
  (g.upcoming, { g with lamportClock := g.lamportClock + 1 })

/-- `Id_generator::sync_clock`: the clock never falls behind one it has seen. -/
def syncClock (g : IdGenerator) (remoteClock : UInt64) : IdGenerator :=
  { g with lamportClock := max g.lamportClock remoteClock }

end IdGenerator

end CrdtEditor
