import CrdtEditor.Editor.Selection
import CrdtEditor.Session.Widget

/-!
# Session/Emission — what a command sends out has an effect

A command announces its operations to the peers, and the server stores them for ever.  Each of them
changes what is shown, by one element (`Effective`), except in two cases: a `backspace` at the root
removes the root, and an insert is dropped whose text, with a `'|'` in an id, is the text of another one.
`effective_iff` says that there are no others.
-/

namespace CrdtEditor

open Text

/-- The number of elements shown. -/
def Document.visibleCount (d : Document) : ℕ := (d.elements.keys.filter fun x => d.isVisible x).length

theorem Document.IsTree.visibleCount_eq {d : Document} (h : d.IsTree) :
    d.anchors.length = d.visibleCount + 1 := by
  have hperm : (d.preorder.filter d.isVisible).Perm (d.elements.keys.filter fun x => d.isVisible x) := by
    refine (List.perm_ext_iff_of_nodup (h.nodup_preorder.filter _)
      (d.elements.keys_nodup.filter _)).mpr fun x => ?_
    rw [List.mem_filter, List.mem_filter, h.mem_preorder]
    rfl
  rw [anchors, List.length_cons, hperm.length_eq, visibleCount]

namespace InputHandler

variable {h : InputHandler}

/-- The removals of distinct elements that are shown. -/
def Removes (h : InputHandler) (r : Handling) : Prop :=
  ∃ (h' : InputHandler) (ids : List ElementID), r = .ok (h', ids.map fun x => .remove ⟨x⟩) ∧
    ids.Nodup ∧ ∀ x ∈ ids, h.doc.isVisible x = true

theorem Moves.removes {e : PlainEditor} {r : Handling} (hm : h.Moves e r) : h.Removes r := by
  obtain ⟨h', hr, -⟩ := hm
  exact ⟨h', [], hr, List.nodup_nil, fun _ hx => absurd hx List.not_mem_nil⟩

theorem removes_deleteSelection (hp : h.Placed) (hs : h.cursor.hasSelection = true) :
    h.Removes h.deleteSelection := by
  obtain ⟨a, ha, hne⟩ := Cursor.hasSelection_iff.mp hs
  obtain ⟨h', ids, hr, hsub, -⟩ := exists_deleteSelection hp.tree ha hne
  exact ⟨h', ids, hr, hsub.nodup (hp.tree.nodup_preorder.filter _),
    fun x hx => (List.mem_filter.mp (hsub.subset hx)).2⟩

/-- Off the root `backspace` removes what it stands behind. -/
theorem removes_backspace (hp : h.Placed)
    (hroot : ¬ (h.cursor.hasSelection = false ∧ h.cursor.anchor = rootId)) :
    h.Removes h.backspace := by
  cases hs : h.cursor.hasSelection with
  | true =>
    rw [backspace, hs]
    exact removes_deleteSelection hp hs
  | false =>
    obtain ⟨y, -, hr⟩ := backspace_eq hp hs
    refine ⟨_, [h.cursor.anchor], hr, List.nodup_singleton _, fun x hx => ?_⟩
    obtain rfl := List.mem_singleton.mp hx
    exact (hp.tree.mem_anchors.mp hp.anchor).resolve_left fun he => hroot ⟨hs, he⟩

theorem removes_deleteForward (hp : h.Placed) : h.Removes h.deleteForward := by
  cases hs : h.cursor.hasSelection with
  | true =>
    rw [deleteForward, hs]
    exact removes_deleteSelection hp hs
  | false =>
    refine ⟨h, (h.doc.anchors[h.caret + 1]?).toList, ?_, ?_, fun x hx => ?_⟩
    · rw [deleteForward_eq hp hs]
      cases h.doc.anchors[h.caret + 1]? <;> rfl
    · cases h.doc.anchors[h.caret + 1]? <;> simp
    · have hx := Option.mem_toList.mp hx
      -- the root is the first anchor
      refine (hp.tree.mem_anchors.mp (List.mem_of_getElem? hx)).resolve_left fun he => ?_
      have hfirst : h.doc.anchors[0]? = some x := by rw [he]; rfl
      have := (List.getElem?_inj (List.getElem?_eq_some_iff.mp hx).1 hp.tree.nodup_anchors).mp
        (Eq.trans hx hfirst.symm)
      omega

/-- **A command that types nothing removes distinct elements that are shown**, unless it is a `backspace`
at the root. -/
theorem removes_processCommand (hp : h.Placed) {command : EditorCommand} (hc : command.typed = none)
    (hroot : ¬ (command.type = .backspace ∧ h.cursor.hasSelection = false ∧
      h.cursor.anchor = rootId)) : h.Removes (h.processCommand command) := by
  obtain ⟨type, character⟩ := command
  cases type with
  | insertCharacter | enter => cases hc
  | moveLeft => exact (moves_moving moves_moveLeftImpl hp).removes
  | moveRight => exact (moves_moving moves_moveRightImpl hp).removes
  | moveUp => exact (moves_moving moves_moveUpImpl hp).removes
  | moveDown => exact (moves_moving moves_moveDownImpl hp).removes
  | shiftLeft => exact (moves_shifting moves_moveLeftImpl hp).removes
  | shiftRight => exact (moves_shifting moves_moveRightImpl hp).removes
  | shiftUp => exact (moves_shifting moves_moveUpImpl hp).removes
  | shiftDown => exact (moves_shifting moves_moveDownImpl hp).removes
  | backspace => exact removes_backspace hp fun hno => hroot ⟨rfl, hno⟩
  | deleteForward => exact removes_deleteForward hp

end InputHandler

namespace EditorSession

variable {s t : EditorSession} {received : List Operation} {command : EditorCommand}

/-- **A batch that fits a session**: it removes distinct elements that are shown and inserts new ones
below elements that are present. -/
structure Fitting (s : EditorSession) (ops : List Operation) : Prop where
  distinct : ops.Nodup
  removes : ∀ oper, .remove oper ∈ ops → oper.theTarget ≠ rootId ∧ s.doc.isVisible oper.theTarget = true
  inserts : ∀ oper, .insert oper ∈ ops → oper.parent ∈ s.doc.elements ∧ oper.ident ∉ s.doc.elements

/-- An operation that inserts. -/
def inserting : Operation → Bool
  | .insert _ => true
  | .remove _ => false

/-- **Every operation of a command has an effect**: its batch fits, and applying it changes the number of
elements shown by one for each insert and each removal. -/
def Effective (s : EditorSession) (command : EditorCommand) : Prop :=
  ∀ h ops, s.handler.processCommand command = .ok (h, ops) →
    s.Fitting ops ∧ ∃ t, s.handleEditorCommand command = .ok t ∧
      t.doc.visibleCount + ops.countP (fun op => !inserting op) =
        s.doc.visibleCount + ops.countP inserting

/-- The command is no `backspace` at the root, and the text of what it types has not been applied. -/
structure Proper (s : EditorSession) (command : EditorCommand) : Prop where
  target : ¬ (command.type = .backspace ∧ s.cursor.hasSelection = false ∧ s.cursor.anchor = rootId)
  novel : command.typed ≠ some 0 → s.Novel command

instance (s : EditorSession) : DecidablePred s.Proper := fun command =>
  decidable_of_iff (¬ (command.type = .backspace ∧ s.cursor.hasSelection = false ∧
    s.cursor.anchor = rootId) ∧ (command.typed ≠ some 0 → s.Novel command))
    ⟨fun h => ⟨h.1, h.2⟩, fun h => ⟨h.1, h.2⟩⟩

/-- The removal of an element that is shown takes one anchor. -/
theorem Removed.length_anchors {x : ElementID} (hr : Removed ⟨x⟩ s t) (ht : s.doc.IsTree)
    (hx : s.doc.isVisible x = true) : t.doc.anchors.length + 1 = s.doc.anchors.length := by
  have hroot : x ≠ rootId := Document.ne_root_of_isVisible hx
  have herase : t.doc.anchors = s.doc.anchors.erase x := by
    rw [hr.anchors, ht.nodup_anchors.erase_eq_filter]
    refine List.filter_congr fun y _ => ?_
    by_cases hy : y = x
    · simp [hy, hroot]
    · simp [hy]
  have hmem : x ∈ s.doc.anchors := ht.mem_anchors.mpr (Or.inr hx)
  rw [herase, List.length_erase_of_mem hmem]
  have := List.length_pos_of_mem hmem
  omega

/-- **Removals of distinct elements that are shown** take as many anchors. -/
theorem Steady.removals : ∀ {ids : List ElementID} {s : EditorSession}, Steady received s →
    ids.Nodup → (∀ x ∈ ids, s.doc.isVisible x = true) →
    ∃ t, (ids.map fun x => Operation.remove ⟨x⟩).foldlM perform s = .ok t ∧ Steady received t ∧
      t.doc.anchors.length + ids.length = s.doc.anchors.length
  | [], s, h, _, _ => ⟨s, rfl, h, rfl⟩
  | x :: ids, s, h, hnodup, hids => by
      have hx := hids x List.mem_cons_self
      obtain ⟨hn, hnodup⟩ := List.nodup_cons.mp hnodup
      obtain ⟨u, hu, husteady, hrem⟩ := h.perform_remove (Document.mem_of_isVisible hx)
      have hrest : ∀ y ∈ ids, u.doc.isVisible y = true := fun y hy => by
        have hv := hids y (List.mem_cons_of_mem _ hy)
        have hne : y ≠ x := fun he => hn (he ▸ hy)
        refine (husteady.tree.mem_anchors.mp ?_).resolve_left (Document.ne_root_of_isVisible hv)
        rw [hrem.anchors, List.mem_filter]
        exact ⟨h.tree.mem_anchors.mpr (Or.inr hv), by simp [hne]⟩
      obtain ⟨t, ht, htsteady, hlen⟩ := husteady.removals hnodup hrest
      have hfirst := hrem.length_anchors h.tree hx
      refine ⟨t, by rw [List.map_cons, List.foldlM_cons, hu]; exact ht, htsteady, ?_⟩
      rw [List.length_cons]
      omega

/-! ## One command -/

/-- A command of one operation. -/
theorem handleEditorCommand_of_perform {h : InputHandler} {op : Operation}
    (hrun : s.handler.processCommand command = .ok (h, [op])) (hp : (s.put h).perform op = .ok t) :
    s.handleEditorCommand command = t.rememberColumn command := by
  rw [handleEditorCommand_eq hrun, List.foldlM_cons, hp]
  rfl

/-- The remembered column leaves the document. -/
theorem Steady.rememberColumn_doc (h : Steady received s) (command : EditorCommand) :
    ∃ t, s.rememberColumn command = .ok t ∧ t.doc = s.doc := by
  refine ⟨_, exists_rememberColumn h.tree h.anchor command, ?_⟩
  split <;> rfl

theorem doc_of_rememberColumn (h : s.rememberColumn command = .ok t) : t.doc = s.doc := by
  obtain ⟨column, rfl⟩ := exists_of_rememberColumn h
  rfl

/-- A NUL makes no batch. -/
theorem processCommand_nul (h0 : command.typed = some 0) {h : InputHandler} {ops : List Operation} :
    s.handler.processCommand command ≠ .ok (h, ops) := by
  obtain ⟨type, character⟩ := command
  cases type with
  | insertCharacter =>
    obtain rfl : character = 0 := Option.some.inj h0
    intro hno
    cases hno
  | enter => exact absurd (Option.some.inj h0) (by decide)
  | _ => cases h0

/-- **Typing has an effect** where the text of the insert is new. -/
theorem Steady.effective_typed (h : Steady received s) {c : UInt8} (hc : command.typed = some c)
    (h0 : c ≠ 0) (hf : s.Fresh received) (hb : s.gen.lamportClock.toNat + 1 < 2 ^ 64 - 1)
    (hn : (Operation.insert (s.typed c)).serialize ∉ s.appliedOperations) :
    s.Effective command := by
  intro h' ops hrun
  obtain ⟨rfl, rfl⟩ := Prod.mk.inj (Except.ok.inj
    ((InputHandler.processCommand_of_typed (h := s.handler) hc h0).symm.trans hrun))
  have hparent : s.cursor.anchor ∈ s.doc.elements := h.tree.mem_of_mem_anchors h.anchor
  have hident : s.gen.upcoming ∉ s.doc.elements := fun hm =>
    lt_irrefl _ (h.lt_upcoming (h.lamport_le hm))
  refine ⟨⟨List.nodup_singleton _, fun oper ho => ?_, fun oper ho => ?_⟩, ?_⟩
  · cases List.mem_singleton.1 ho
  · obtain rfl := Operation.insert.inj (List.mem_singleton.1 ho)
    exact ⟨hparent, hident⟩
  obtain ⟨d, a, b, hd, htree, hab, hdab, -⟩ := h.exists_insert hf c
  obtain ⟨d', hperform, hsteady⟩ := h.afterTyping hf hb hn
  have hd' : s.afterTyping c d = s.afterTyping c d' :=
    Except.ok.inj ((h.perform_typed hn hd).symm.trans hperform)
  rw [← hd'] at hperform hsteady
  obtain ⟨t, ht, hdoc⟩ := hsteady.rememberColumn_doc command
  refine ⟨t, (handleEditorCommand_of_perform hrun hperform).trans ht, ?_⟩
  · have hdoc : t.doc = d := hdoc
    have hcount := h.tree.visibleCount_eq
    have hcount' := htree.visibleCount_eq
    rw [hab, List.length_append, List.length_cons] at hcount
    rw [hdab, List.length_append, List.length_cons, List.length_cons] at hcount'
    change t.doc.visibleCount + 0 = s.doc.visibleCount + 1
    rw [hdoc]
    omega

/-- An insert whose text was applied has none. -/
theorem not_effective_of_applied {c : UInt8} (hc : command.typed = some c) (h0 : c ≠ 0)
    (hm : (Operation.insert (s.typed c)).serialize ∈ s.appliedOperations) : ¬ s.Effective command := by
  intro he
  have hrun := InputHandler.processCommand_of_typed (h := s.handler) hc h0
  obtain ⟨-, t, ht, hcount⟩ := he _ _ hrun
  have hdrop : (s.put (s.handler.insertCharacter c).1).applyOperation (.insert (s.typed c)) true =
      .ok (s.put (s.handler.insertCharacter c).1) := applyOperation_of_applied hm
  have hperform : ∃ u, (s.put (s.handler.insertCharacter c).1).perform (.insert (s.typed c)) = .ok u ∧
      u.doc = s.doc := by
    rw [perform, hdrop]
    exact ⟨_, rfl, rfl⟩
  obtain ⟨u, hu, hudoc⟩ := hperform
  have hdoc : t.doc = s.doc :=
    (doc_of_rememberColumn ((handleEditorCommand_of_perform hrun hu).symm.trans ht)).trans hudoc
  change t.doc.visibleCount + 0 = s.doc.visibleCount + 1 at hcount
  rw [hdoc] at hcount
  omega

/-- **A command that types nothing has an effect** unless it is a `backspace` at the root. -/
theorem Steady.effective_removes (h : Steady received s) (hc : command.typed = none)
    (hroot : ¬ (command.type = .backspace ∧ s.cursor.hasSelection = false ∧
      s.cursor.anchor = rootId)) : s.Effective command := by
  intro h' ops hrun
  have hp : s.handler.Placed := ⟨h.tree, h.anchor⟩
  obtain ⟨h'', ids, hids, hnodup, hvisible⟩ := InputHandler.removes_processCommand hp hc hroot
  obtain ⟨g, ops', hg, hgd, hgg, hga, -⟩ := InputHandler.keeps_processCommand hp hc
  obtain ⟨rfl, rfl⟩ := Prod.mk.inj (Except.ok.inj (hids.symm.trans hrun))
  obtain ⟨rfl, rfl⟩ := Prod.mk.inj (Except.ok.inj (hg.symm.trans hrun))
  have hgd : g.doc = s.doc := hgd
  have hput : Steady received (s.put g) := h.congr hgd rfl hgg rfl rfl hga
  have hshown : ∀ x ∈ ids, (s.put g).doc.isVisible x = true := fun x hx => by
    change g.doc.isVisible x = true
    rw [hgd]
    exact hvisible x hx
  obtain ⟨u, hu, husteady, hlen⟩ := hput.removals hnodup hshown
  obtain ⟨t, ht, hdoc⟩ := husteady.rememberColumn_doc command
  refine ⟨⟨hnodup.map fun x y hxy => ?_, fun oper ho => ?_, fun oper ho => ?_⟩, t, ?_, ?_⟩
  · exact congrArg RemoveOperation.theTarget (Operation.remove.inj hxy)
  · obtain ⟨x, hx, he⟩ := List.mem_map.1 ho
    obtain rfl := Operation.remove.inj he
    exact ⟨Document.ne_root_of_isVisible (hvisible x hx), hvisible x hx⟩
  · obtain ⟨x, -, he⟩ := List.mem_map.1 ho
    cases he
  · rw [handleEditorCommand_eq hrun, hu]
    exact ht
  · have hcount := h.tree.visibleCount_eq
    have hcount' := husteady.tree.visibleCount_eq
    have hanchors : (s.put g).doc.anchors.length = s.doc.anchors.length := by
      change g.doc.anchors.length = _
      rw [hgd]
    have hnone : (ids.map fun x => Operation.remove ⟨x⟩).countP inserting = 0 := by
      rw [List.countP_map]
      exact List.countP_eq_zero.2 fun x _ => by simp [inserting]
    have hall : (ids.map fun x => Operation.remove ⟨x⟩).countP (fun op => !inserting op) =
        ids.length := by
      rw [List.countP_map]
      exact List.countP_eq_length.2 fun x _ => by simp [inserting]
    rw [hnone, hall, hdoc]
    omega

/-- **The operations of a command have an effect** exactly when the command is proper. -/
theorem Steady.effective_iff (h : Steady received s)
    (hf : command.typed ≠ none → s.Fresh received)
    (hb : command.typed ≠ none → s.gen.lamportClock.toNat + 1 < 2 ^ 64 - 1) :
    s.Effective command ↔ s.Proper command := by
  constructor
  · refine fun he => ⟨fun ⟨hback, hs, hroot⟩ => ?_, fun h0 c hc hm => ?_⟩
    · obtain ⟨y, -, hr⟩ := InputHandler.backspace_eq (h := s.handler) ⟨h.tree, h.anchor⟩ hs
      have hrun : s.handler.processCommand command =
          .ok (s.handler.setAnchor y, [.remove ⟨s.cursor.anchor⟩]) := by
        rw [InputHandler.processCommand, hback]
        exact hr
      exact ((he _ _ hrun).1.removes _ List.mem_cons_self).1 hroot
    · exact not_effective_of_applied hc (fun hz => h0 (hz ▸ hc)) hm he
  · intro hp
    cases hc : command.typed with
    | none => exact h.effective_removes hc hp.target
    | some c =>
      by_cases h0 : c = 0
      · exact fun h' ops hrun => absurd hrun (processCommand_nul (h0 ▸ hc))
      · have hne : command.typed ≠ none := by simp [hc]
        refine h.effective_typed hc h0 (hf hne) (hb hne) (hp.novel ?_ c hc)
        rw [hc]
        exact fun hz => h0 (Option.some.inj hz)

/-! ## Runs -/

/-- The id a command draws is new to what was received, and below the largest. -/
def Draws (c : EditorSession × List Operation) (command : EditorCommand) : Prop :=
  command.typed ≠ none → c.1.Fresh c.2 ∧ c.1.gen.lamportClock.toNat + 1 < 2 ^ 64 - 1

instance (c : EditorSession × List Operation) : DecidablePred (Draws c) := fun command =>
  inferInstanceAs (Decidable (command.typed ≠ none → _))

/-- What is asked of an input: the text of an insert is new, as its id is; the messages applied are
formed, and their operations fair. -/
def Permitted (c : EditorSession × List Operation) : Input → Prop
  | .command command => Draws c command ∧ (command.typed ≠ some 0 → c.1.Novel command)
  | .flush => (∀ m ∈ c.1.incomingQueue, m.Formed) ∧
      c.1.Fair (c.1.incomingQueue.flatMap (·.payload.operations))
  | _ => True

instance Permitted.decidable (c : EditorSession × List Operation) : DecidablePred (Permitted c)
  | .command command =>
    inferInstanceAs (Decidable (Draws c command ∧ (command.typed ≠ some 0 → c.1.Novel command)))
  | .flush => inferInstanceAs (Decidable ((∀ m ∈ c.1.incomingQueue, m.Formed) ∧
      c.1.Fair (c.1.incomingQueue.flatMap (·.payload.operations))))
  | .queueCursorUpdate => .isTrue trivial
  | .mousePress _ _ => .isTrue trivial
  | .mouseMove _ _ => .isTrue trivial
  | .receive _ => .isTrue trivial

/-- **Every input leaves a steady session.** -/
theorem Steady.input (h : Steady received s) {i : Input} (hi : Permitted (s, received) i) :
    Steady (received ++ s.taken i) (s.input i).state := by
  have hnone : ∀ {r : Result}, s.taken i = [] → Steady received r.state →
      Steady (received ++ s.taken i) r.state := fun ht hr => by rwa [ht, List.append_nil]
  cases i with
  | command command =>
    refine hnone rfl ?_
    change Steady received (s.handleEditorCommand command).state
    by_cases h0 : command.typed = some 0
    · rw [state_handleEditorCommand_nul h0]
      exact h
    · obtain ⟨-, -, t, -, ht, hsteady, -⟩ := h.runs h0 (hi.2 h0) (fun hne => (hi.1 hne).1)
        fun hne => (hi.1 hne).2
      rw [ht]
      exact hsteady
  | queueCursorUpdate => exact hnone rfl (h.queueOutgoingMessage _)
  | mousePress line column =>
    obtain ⟨c, hc, ht⟩ := h.mousePressEvent line column
    have hmoved : Steady received { s with cursor := c } := h.congr rfl rfl rfl rfl rfl hc
    refine hnone rfl ?_
    change Steady received (s.mousePressEvent line column).state
    rw [ht]
    exact hmoved.queueOutgoingMessage _
  | mouseMove line column =>
    obtain ⟨c, hc, ht⟩ := h.mouseMoveEvent line column
    refine hnone rfl ?_
    change Steady received (s.mouseMoveEvent line column).state
    rw [ht]
    exact h.congr rfl rfl rfl rfl rfl hc
  | receive message => exact hnone rfl (h.congr rfl rfl rfl rfl rfl h.anchor)
  | flush =>
    have hempty : Steady received { s with incomingQueue := [] } :=
      h.congr rfl rfl rfl rfl rfl h.anchor
    obtain ⟨t, ht, hsteady⟩ := hempty.foldlM_apply hi.1 ⟨hi.2.consistent, hi.2.lamport⟩
    change Steady _ (s.flushIncoming).state
    rw [flushIncoming, ht]
    exact hsteady

/-- **Every operation that is sent out has an effect** exactly when the command is proper: after every run
in which no insert had the text of another operation, and for every command. -/
theorem effective_iff_after (clientId : Str) {inputs : List Input}
    (h : Along step Permitted (start clientId, []) inputs) {command : EditorCommand}
    (hc : Draws (inputs.foldl step (start clientId, [])) command) :
    (inputs.foldl step (start clientId, [])).1.Effective command ↔
      (inputs.foldl step (start clientId, [])).1.Proper command := by
  have hstep : ∀ (c : EditorSession × List Operation) (i : Input), Steady c.2 c.1 → Permitted c i →
      Steady (step c i).2 (step c i).1 := fun c i hs hi => hs.input hi
  have hsteady := Along.invariant hstep (steady_start clientId) h
  exact hsteady.effective_iff (fun hne => (hc hne).1) fun hne => (hc hne).2

/-- A selection over tombstones, at the end of the document. -/
theorem effective_iff_after_sample :
    (sampleInputs.foldl step (start (str "a"), [])).1.Effective ⟨.deleteForward, 0⟩ ↔
      (sampleInputs.foldl step (start (str "a"), [])).1.Proper ⟨.deleteForward, 0⟩ :=
  effective_iff_after (str "a") (by decide +kernel) (by decide)

/-- **A `backspace` at the root** of an empty document removes the root: the removal is announced and
recorded, and shows nothing. -/
theorem backspace_at_root :
    ¬ (start (str "a")).Effective ⟨.backspace, 0⟩ ∧
      let t := ((start (str "a")).handleEditorCommand ⟨.backspace, 0⟩).state
      t.outgoingQueue = [⟨.operation, str "a", .operation (.remove ⟨rootId⟩)⟩] ∧
        t.log.operationHistory = [.remove ⟨rootId⟩] ∧
        t.doc.visibleCount = (start (str "a")).doc.visibleCount := by
  refine ⟨fun he => ?_, by decide +kernel, by decide +kernel, by decide +kernel⟩
  have hproper := ((steady_start (str "a")).effective_iff (by decide) (by decide)).1 he
  exact hproper.target ⟨rfl, rfl, rfl⟩

end EditorSession

end CrdtEditor
