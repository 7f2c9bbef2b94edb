import CrdtEditor.Editor.Cursor

/-!
# Editor/InputHandler — commands become operations

`editor/editor_command.cpp` and `editor/input_handler.cpp`.  A command moves the caret and returns the
operations it stands for; the document itself is only read here.  A command that throws leaves the
handler as it was at the `throw`.
-/

namespace CrdtEditor

open Text

/-- `CommandType`: typing, moving, deleting, and moving with a selection. -/
inductive CommandType
  | insertCharacter
  | moveLeft
  | moveRight
  | moveUp
  | moveDown
  | backspace
  | deleteForward
  | enter
  | shiftLeft
  | shiftRight
  | shiftUp
  | shiftDown
  deriving DecidableEq, Repr

/-- A command; only `insertCharacter` reads the character. -/
structure EditorCommand where
  type : CommandType
  character : UInt8
  deriving DecidableEq, Repr

/-- `EditorCommand::get_character`: a NUL stands for no character. -/
def EditorCommand.getCharacter (c : EditorCommand) : Except Exn UInt8 :=
  if c.character = 0 then .error (.runtimeError (str "No character in this command."))
  else .ok c.character

/-- The character a command types. -/
def EditorCommand.typed (c : EditorCommand) : Option UInt8 :=
  match c.type with
  | .insertCharacter => some c.character
  | .enter => some newline
  | _ => none

/-- The document, the cursor and the generator a command works on. -/
structure InputHandler where
  doc : Document
  cursor : Cursor
  gen : IdGenerator

/-- What handling a command leaves: the handler and the operations of the command, or an exception
and the handler at its `throw`. -/
abbrev Handling := Except (Exn × InputHandler) (InputHandler × List Operation)

namespace InputHandler

open Except (leaving)

def setCursor (h : InputHandler) (c : Cursor) : InputHandler := { h with cursor := c }

/-- `Cursor::set_anchor` on the cursor of the handler. -/
def setAnchor (h : InputHandler) (anchor : ElementID) : InputHandler :=
  h.setCursor (h.cursor.setAnchor anchor)

/-- `insert_character`: a new element below the anchor, which the caret moves behind. -/
def insertCharacter (h : InputHandler) (c : UInt8) : InputHandler × List Operation :=
  let cursor := h.cursor.clearSelection
  let parent := cursor.anchor
  let (newId, gen) := h.gen.next
  (⟨h.doc, cursor.setAnchor newId, gen⟩, [.insert ⟨parent, newId, c⟩])

/-- `Enter` inserts a newline. -/
def newline (h : InputHandler) : InputHandler × List Operation := h.insertCharacter Text.newline

/-- The call of `get_line_column` that ends a move; its result is not used. -/
def located (h : InputHandler) : Handling := do
  let _ ← leaving h (h.cursor.getLineColumn h.doc)
  return (h, [])

/-- One visible element to the left; the caret at the root stays. -/
def moveLeftImpl (h : InputHandler) : Handling := do
  let anchor ← leaving h (h.doc.visiblePredecessor h.cursor.anchor)
  (h.setAnchor anchor).located

/-- One visible element to the right, if there is one. -/
def moveRightImpl (h : InputHandler) : Handling := do
  match ← leaving h (h.doc.visibleSuccessor h.cursor.anchor) with
  | some next => (h.setAnchor next).located
  | none => h.located

/-- Moving up or down remembers the current column unless one is remembered. -/
def rememberColumn (h : InputHandler) (column : ℕ) : InputHandler :=
  match h.cursor.desiredColumn with
  | some _ => h
  | none => h.setCursor (h.cursor.setDesiredColumn column)

/-- The common end of `move_up_impl` and `move_down_impl`: to the remembered column of a line, or as
far right as the line goes. -/
def moveToLine (h : InputHandler) (targetLine length : ℕ) : Handling := do
  match h.cursor.desiredColumn with
  | none => throw (.emptyOptional, h)
  | some desired =>
    match ← leaving h (h.doc.getAnchorAt targetLine (min desired length)) with
    | some anchor => (h.setAnchor anchor).located
    | none => h.located

/-- The line above, at the remembered column. -/
def moveUpImpl (h : InputHandler) : Handling := do
  let (line, column) ← leaving h (h.cursor.getLineColumn h.doc)
  match line with
  | 0 => return (h, [])
  | targetLine + 1 =>
    let h := h.rememberColumn column
    match ← leaving h (h.doc.getLineLength targetLine) with
    | some length => h.moveToLine targetLine length
    | none => throw (.emptyOptional, h)

/-- `move_down_impl`; the last line has none below it. -/
def moveDownImpl (h : InputHandler) : Handling := do
  let (line, column) ← leaving h (h.cursor.getLineColumn h.doc)
  match ← leaving h (h.doc.getLineLength (line + 1)) with
  | some length => (h.rememberColumn column).moveToLine (line + 1) length
  | none => return (h, [])

/-- The moves give up a selection before they move. -/
def moving (impl : InputHandler → Handling) (h : InputHandler) : Handling :=
  impl (h.setCursor h.cursor.clearSelection)

def moveLeft : InputHandler → Handling := moving moveLeftImpl

def moveRight : InputHandler → Handling := moving moveRightImpl

def moveUp : InputHandler → Handling := moving moveUpImpl

def moveDown : InputHandler → Handling := moving moveDownImpl

/-- The shifted moves start a selection unless there is one. -/
def shifting (impl : InputHandler → Handling) (h : InputHandler) : Handling :=
  impl (if h.cursor.hasSelection then h else h.setCursor h.cursor.startSelection)

def shiftLeft : InputHandler → Handling := shifting moveLeftImpl

def shiftRight : InputHandler → Handling := shifting moveRightImpl

def shiftUp : InputHandler → Handling := shifting moveUpImpl

def shiftDown : InputHandler → Handling := shifting moveDownImpl

/-- `delete_selection`: one removal for every selected element. -/
def deleteSelection (h : InputHandler) : Handling := do
  if !h.cursor.hasSelection then return (h, [])
  match ← leaving h (h.cursor.normalizedRange h.doc) with
  | none => return (h, [])
  | some range =>
    match ← leaving h (h.doc.getVisibleRange range) with
    | [] => return (h.setCursor h.cursor.clearSelection, [])
    | first :: rest =>
      let newCursor ← leaving h (h.doc.visiblePredecessor first)
      return (h.setCursor (h.cursor.clearSelection.setAnchor newCursor),
        (first :: rest).map fun id => .remove ⟨id⟩)

/-- `backspace`; at the root it removes the root, which no document shows. -/
def backspace (h : InputHandler) : Handling := do
  if h.cursor.hasSelection then h.deleteSelection
  else
    let oper : RemoveOperation := ⟨h.cursor.anchor⟩
    let anchor ← leaving h (h.doc.visiblePredecessor h.cursor.anchor)
    return (h.setAnchor anchor, [.remove oper])

/-- `delete_forward`: the selection, else the element behind the caret, if there is one. -/
def deleteForward (h : InputHandler) : Handling := do
  if h.cursor.hasSelection then h.deleteSelection
  else
    match ← leaving h (h.doc.visibleSuccessor h.cursor.anchor) with
    | some next => return (h, [.remove ⟨next⟩])
    | none => return (h, [])

/-- `InputHandler::process_command`, the `switch` over the commands. -/
def processCommand (h : InputHandler) (command : EditorCommand) : Handling :=
  match command.type with
  | .insertCharacter => do
    let c ← leaving h command.getCharacter
    return h.insertCharacter c
  | .moveLeft => h.moveLeft
  | .moveRight => h.moveRight
  | .backspace => h.backspace
  | .deleteForward => h.deleteForward
  | .enter => .ok h.newline
  | .moveUp => h.moveUp
  | .moveDown => h.moveDown
  | .shiftLeft => h.shiftLeft
  | .shiftRight => h.shiftRight
  | .shiftUp => h.shiftUp
  | .shiftDown => h.shiftDown

end InputHandler

end CrdtEditor
