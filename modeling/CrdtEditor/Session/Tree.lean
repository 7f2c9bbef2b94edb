import CrdtEditor.Session.Widget

/-!
# Session/Tree — any input leaves a tree

A session changes its document by `doc.apply` only, so whatever is typed, clicked and received, honest
or not, and however a call ends, the document is a tree (`tree_inputs`).  Of a handler, a command
reads the document and leaves it (`InputHandler.reads_processCommand`).
-/

namespace CrdtEditor

open Text

open Except (leaving)

namespace InputHandler

variable {h g : InputHandler}

/-- The call returned or threw, and left the document. -/
def Reads (h : InputHandler) : Handling → Prop
  | .ok r => r.1.doc = h.doc
  | .error e => e.2.doc = h.doc

/-- A query in front of a call: if it throws, the handler it leaves has the document. -/
theorem reads_leaving_bind {α : Type} {r : Except Exn α} {f : α → Handling} (hg : g.doc = h.doc)
    (hf : ∀ a, h.Reads (f a)) : h.Reads (leaving g r >>= f) := by
  cases r with
  | ok a => exact hf a
  | error e => exact hg

theorem reads_located (hg : g.doc = h.doc) : h.Reads g.located := reads_leaving_bind hg fun _ => hg

/-- A move looks an element up and sets the anchor. -/
theorem reads_moveLeftImpl (hg : g.doc = h.doc) : h.Reads g.moveLeftImpl :=
  reads_leaving_bind hg fun _ => reads_located hg

theorem reads_moveRightImpl (hg : g.doc = h.doc) : h.Reads g.moveRightImpl :=
  reads_leaving_bind hg fun next => by
    cases next with
    | some next => exact reads_located hg
    | none => exact reads_located hg

/-- The step that the two vertical moves share. -/
theorem reads_moveToLine (hg : g.doc = h.doc) (line length : ℕ) :
    h.Reads (g.moveToLine line length) := by
  rw [moveToLine]
  split
  · exact hg
  · refine reads_leaving_bind hg fun anchor => ?_
    cases anchor with
    | some anchor => exact reads_located hg
    | none => exact reads_located hg

/-- At the first line there is nowhere to go. -/
theorem reads_moveUpImpl (hg : g.doc = h.doc) : h.Reads g.moveUpImpl := by
  refine reads_leaving_bind hg fun p => ?_
  obtain ⟨line, column⟩ := p
  cases line with
  | zero => exact hg
  | succ line =>
    have hr : (g.rememberColumn column).doc = h.doc := (g.rememberColumn_eq column).1.trans hg
    refine reads_leaving_bind hr fun length => ?_
    cases length with
    | some length => exact reads_moveToLine hr line length
    | none => exact hr

/-- At the last line neither. -/
theorem reads_moveDownImpl (hg : g.doc = h.doc) : h.Reads g.moveDownImpl := by
  refine reads_leaving_bind hg fun p => reads_leaving_bind hg fun length => ?_
  cases length with
  | some length => exact reads_moveToLine ((g.rememberColumn_eq p.2).1.trans hg) (p.1 + 1) length
  | none => exact hg

/-- A deletion asks for removals; it makes none itself. -/
theorem reads_deleteSelection (h : InputHandler) : h.Reads h.deleteSelection := by
  rw [deleteSelection]
  split
  · exact rfl
  refine reads_leaving_bind rfl fun range => ?_
  cases range with
  | none => exact rfl
  | some range =>
    refine reads_leaving_bind rfl fun ids => ?_
    cases ids with
    | nil => exact rfl
    | cons first rest => exact reads_leaving_bind rfl fun _ => rfl

/-- Beginning a selection changes the cursor only. -/
theorem reads_shifting {impl : InputHandler → Handling}
    (himpl : ∀ {g : InputHandler}, g.doc = h.doc → h.Reads (impl g)) :
    h.Reads (shifting impl h) := by
  refine himpl ?_
  split <;> rfl

/-- **A command reads the document and leaves it.** -/
theorem reads_processCommand (h : InputHandler) (command : EditorCommand) :
    h.Reads (h.processCommand command) := by
  rw [processCommand]
  cases command.type with
  | insertCharacter => exact reads_leaving_bind rfl fun _ => rfl
  | enter => exact rfl
  | moveLeft => exact reads_moveLeftImpl (g := h.setCursor h.cursor.clearSelection) rfl
  | moveRight => exact reads_moveRightImpl (g := h.setCursor h.cursor.clearSelection) rfl
  | moveUp => exact reads_moveUpImpl (g := h.setCursor h.cursor.clearSelection) rfl
  | moveDown => exact reads_moveDownImpl (g := h.setCursor h.cursor.clearSelection) rfl
  | shiftLeft => exact reads_shifting reads_moveLeftImpl
  | shiftRight => exact reads_shifting reads_moveRightImpl
  | shiftUp => exact reads_shifting reads_moveUpImpl
  | shiftDown => exact reads_shifting reads_moveDownImpl
  | backspace =>
    change h.Reads h.backspace
    rw [backspace]
    split
    · exact h.reads_deleteSelection
    · exact reads_leaving_bind rfl fun _ => rfl
  | deleteForward =>
    change h.Reads h.deleteForward
    rw [deleteForward]
    split
    · exact h.reads_deleteSelection
    · refine reads_leaving_bind rfl fun next => ?_
      cases next with
      | some next => exact rfl
      | none => exact rfl

end InputHandler

namespace EditorSession

variable {s : EditorSession}

/-- The document is a tree. -/
abbrev Rooted (s : EditorSession) : Prop := s.doc.IsTree

/-- The one place where the session changes its document. -/
theorem Rooted.applyToDocument (h : s.Rooted) (op : Operation) :
    (s.applyToDocument op).Ends Rooted Rooted := by
  have hd := (Document.IsTree.apply h op).1
  rw [EditorSession.applyToDocument]
  cases hop : s.doc.apply op with
  | ok d =>
    rw [hop] at hd
    exact hd
  | error e =>
    rw [hop] at hd
    exact hd

/-- The carets that move afterwards are no part of the document. -/
theorem Rooted.applyOperation (h : s.Rooted) (op : Operation) (b : Bool) :
    (s.applyOperation op b).Ends Rooted Rooted := by
  rw [EditorSession.applyOperation]
  refine Except.ends_ite (fun _ => h) fun _ => ?_
  refine Except.Ends.bind (P := Rooted) ?_ fun t ht => Except.ends_leaving_bind (fun cursor _ => ?_) ht
  · apply Rooted.applyToDocument
    exact h
  · cases op with
    | insert oper => exact ht
    | remove oper =>
      refine Except.ends_foldlM (I := fun _ => Rooted) (fun e _ u hu => ?_) ht
      exact Except.ends_ite (fun _ => Except.ends_leaving_bind (fun _ _ => hu) hu) fun _ => hu

/-- Neither is the clock, which a remote insert moves first. -/
theorem Rooted.applyRemote (h : s.Rooted) (op : Operation) :
    (s.applyRemote op).Ends Rooted Rooted := by
  have hs : (s.syncClock op).Rooted := by cases op <;> exact h
  exact hs.applyOperation op false

/-- **The rule of messages**: what every remote operation keeps, and no caret of another client or
queued message is part of, a message keeps. -/
theorem ends_apply {P : EditorSession → Prop} {G : Operation → Prop}
    (hremote : ∀ s op, P s → G op → (s.applyRemote op).Ends P P)
    (hcarets : ∀ (s : EditorSession) remote pending, P s →
      P { s with remoteCursors := remote, pendingCursorUpdates := pending })
    (hqueue : ∀ s m, P s → P (s.queueOutgoingMessage m)) (h : P s) {m : Message}
    (hm : ∀ op ∈ m.payload.operations, G op) : (s.apply m).Ends P P := by
  have hpending (t : EditorSession) (ht : P t) : t.updatePendingCursorUpdates.Ends P P := by
    refine Except.ends_foldlM (I := fun _ => P) (fun e _ u hu => ?_) ht
    refine Except.ends_leaving_bind (fun resolved _ => ?_) hu
    cases resolved with
    | none => exact hu
    | some _ => exact hcarets u _ _ hu
  have hhistory (ops : List Operation) (hops : ∀ op ∈ ops, G op) :
      (ops.foldlM applyRemote s).Ends P P := by
    refine (Except.ends_foldlM (I := fun ops t => (∀ op ∈ ops, G op) ∧ P t) (fun op ops t ht => ?_)
      ⟨hops, h⟩).imp (fun _ ht => ht.2) fun _ ht => ht
    exact (hremote t op ht.2 (ht.1 op List.mem_cons_self)).imp
      (fun u hu => ⟨fun o ho => ht.1 o (List.mem_cons_of_mem op ho), hu⟩) fun _ hu => hu
  rw [EditorSession.apply]
  split
  · refine Except.ends_leaving_bind (fun oper ho => ?_) h
    have hG : G oper := hm oper <| by
      cases hp : m.payload <;> rw [hp] at ho <;> cases ho
      exact List.mem_singleton.mpr rfl
    exact (hremote s oper h hG).bind hpending
  · refine Except.ends_leaving_bind (fun history hh => ?_) h
    have hG : ∀ op ∈ history, G op := fun op hop => hm op <| by
      cases hp : m.payload <;> rw [hp] at hh <;> cases hh
      exact hop
    refine Except.Ends.bind (P := P) ((hhistory history hG).bind hpending) fun t ht => ?_
    exact hqueue _ _ (hqueue t _ ht)
  · refine Except.ends_leaving_bind (fun position _ => ?_) h
    refine Except.ends_leaving_bind (fun resolved _ => ?_) h
    cases resolved with
    | none => exact hcarets s s.remoteCursors _ h
    | some _ => exact hcarets s _ _ h
  · exact h

/-- **One message.** -/
theorem Rooted.apply (h : s.Rooted) (m : Message) : (s.apply m).Ends Rooted Rooted :=
  ends_apply (G := fun _ => True) (fun _ op ht _ => ht.applyRemote op) (fun _ _ _ ht => ht)
    (fun _ _ ht => ht) h fun _ _ => trivial

/-- **One command**: the handler reads, and each operation it asks for is applied. -/
theorem Rooted.handleEditorCommand (h : s.Rooted) (command : EditorCommand) :
    (s.handleEditorCommand command).Ends Rooted Rooted := by
  have hreads := s.handler.reads_processCommand command
  have hput : ∀ g : InputHandler, g.doc = s.doc → (s.put g).Rooted := fun g hg => by
    change g.doc.IsTree
    rw [hg]
    exact h
  rw [EditorSession.handleEditorCommand, processCommand]
  cases hr : s.handler.processCommand command with
  | error e =>
    rw [hr] at hreads
    exact hput e.2 hreads
  | ok r =>
    rw [hr] at hreads
    change (r.2.foldlM perform (s.put r.1) >>= fun t => t.rememberColumn command).Ends Rooted Rooted
    refine Except.Ends.bind (P := Rooted) ?_ fun t ht => ?_
    · refine Except.ends_foldlM (I := fun _ => Rooted) (fun op _ t ht => ?_) (hput r.1 hreads)
      exact (ht.applyOperation op true).bind fun u hu => hu
    · exact Except.ends_ite (fun _ => Except.ends_leaving_bind (fun _ _ => ht) ht) fun _ => ht

/-- **One input.** -/
theorem Rooted.input (h : s.Rooted) (i : Input) : (s.input i).Ends Rooted Rooted := by
  cases i with
  | command command => exact h.handleEditorCommand command
  | queueCursorUpdate => exact h
  | mousePress line column =>
    refine Except.ends_leaving_bind (fun anchor _ => ?_) h
    cases anchor with
    | none => exact h
    | some anchor =>
      refine Except.Ends.bind (P := Rooted) ?_ fun t ht => ht
      exact Except.ends_leaving_bind (fun _ _ => h) h
  | mouseMove line column =>
    refine Except.ends_leaving_bind (fun anchor _ => ?_) h
    cases anchor <;> exact h
  | receive message => exact h
  | flush => exact Except.ends_foldlM (I := fun _ => Rooted) (fun m _ t ht => ht.apply m) h

/-- The session that inputs lead to, honest or not. -/
def afterInputs (clientId : Str) (inputs : List Input) : EditorSession :=
  inputs.foldl (fun s i => (s.input i).state) (start clientId)

/-- **Any inputs leave a tree.** -/
theorem tree_inputs (clientId : Str) (inputs : List Input) : (afterInputs clientId inputs).Rooted := by
  induction inputs using List.reverseRecOn with
  | nil => exact Document.isTree_empty
  | append_singleton inputs i ih =>
    rw [afterInputs, List.foldl_append]
    exact (ih.input i).state

end EditorSession

end CrdtEditor
