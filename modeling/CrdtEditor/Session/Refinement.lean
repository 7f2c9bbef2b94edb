import CrdtEditor.Session.Command

/-!
# Session/Refinement — a session is a plain editor

A session is `Reached` by commands and honest messages in any order.  Whatever it received, a command
without a selection does to the text, the caret and the remembered column what it does to the plain
editor: `handleEditorCommand_refines`.
-/

namespace CrdtEditor.EditorSession

open Text InputHandler

/-- The plain editor a session shows. -/
def view (s : EditorSession) : PlainEditor := s.handler.view

/-- The sessions that start empty and are driven by commands and honest messages, with the operations
received; an id is drawn before it is received, and the clock stays below its limit. -/
inductive Reached (clientId : Str) : List Operation → EditorSession → Prop
  | start : Reached clientId [] (.start clientId)
  | command {received : List Operation} {s s' : EditorSession} {command : EditorCommand}
      (h : Reached clientId received s) (hf : command.typed ≠ none → s.Fresh received)
      (hb : command.typed ≠ none → s.gen.lamportClock.toNat + 1 < 2 ^ 64 - 1)
      (hs : s.handleEditorCommand command = .ok s') : Reached clientId received s'
  | message {received : List Operation} {s s' : EditorSession} {m : Message}
      (h : Reached clientId received s) (hh : s.Honest m.payload.operations)
      (hs : s.apply m = .ok s') : Reached clientId (received ++ m.payload.operations) s'

variable {s : EditorSession} {received : List Operation} {clientId : Str}

/-- A command that types a NUL throws. -/
theorem handleEditorCommand_ne_ok {command : EditorCommand} (h0 : command.typed = some 0)
    (s' : EditorSession) : s.handleEditorCommand command ≠ .ok s' := by
  obtain ⟨type, character⟩ := command
  cases type with
  | insertCharacter =>
    obtain rfl := Option.some.inj h0
    exact fun h => by cases h
  | enter => exact absurd (Option.some.inj h0) (by decide)
  | _ => cases h0

/-- **Every session reached is sound.** -/
theorem Reached.sound (hbar : bar ∉ clientId) (h : Reached clientId received s) :
    Sound received s := by
  induction h with
  | start => exact sound_start hbar
  | @command _ _ s' command _ hf hb hs ih =>
    have h0 : command.typed ≠ some 0 := fun h0 => handleEditorCommand_ne_ok h0 s' hs
    obtain ⟨t, ht, hsound⟩ := ih.handleEditorCommand h0 hf hb
    exact Except.ok.inj (hs.symm.trans ht) ▸ hsound
  | message _ hh hs ih => exact ih.apply hh hs

/-! ## The end of a command -/

/-- The remembered column follows the caret, except after a move up or down. -/
theorem view_rememberColumn (ht : s.doc.IsTree) (ha : s.cursor.anchor ∈ s.doc.anchors)
    (command : EditorCommand) :
    ∃ s', s.rememberColumn command = .ok s' ∧ s'.doc = s.doc ∧
      s'.view = if command.type ≠ .moveUp ∧ command.type ≠ .moveDown then s.view.rememberColumn
        else s.view := by
  refine ⟨_, exists_rememberColumn ht ha command, ?_⟩
  split <;> exact ⟨rfl, rfl⟩

/-- A sound session shows `e` after the operations of a command, and the command is done. -/
theorem exists_view {command : EditorCommand} {h : InputHandler} {ops : List Operation}
    {t : EditorSession} (hr : s.handler.processCommand command = .ok (h, ops))
    (hops : ops.foldlM perform (s.put h) = .ok t) (ht : t.doc.IsTree)
    (ha : t.cursor.anchor ∈ t.doc.anchors) {e : PlainEditor}
    (he : (if command.type ≠ .moveUp ∧ command.type ≠ .moveDown then t.view.rememberColumn
      else t.view) = e) :
    ∃ s', s.handleEditorCommand command = .ok s' ∧ s'.render = .ok s'.view.text ∧ s'.view = e := by
  obtain ⟨s', hs', hdoc, hview⟩ := view_rememberColumn ht ha command
  refine ⟨s', ?_, ?_, hview.trans he⟩
  · rw [handleEditorCommand_eq hr, hops]
    exact hs'
  · exact Document.IsTree.render_eq_text (hdoc ▸ ht)

/-- A view is made of a text, a caret and a column. -/
theorem view_eq {k : ℕ} {text : Str} (ht : s.doc.IsTree) (htext : s.doc.text = text)
    (hk : s.doc.anchors[k]? = some s.cursor.anchor) :
    s.view = ⟨text, k, s.cursor.desiredColumn⟩ := by
  obtain ⟨hlt, he⟩ := List.getElem?_eq_some_iff.mp hk
  have hcaret : s.doc.anchors.idxOf s.cursor.anchor = k := by
    rw [← he, ht.nodup_anchors.idxOf_getElem]
  rw [← htext, ← hcaret]
  rfl

/-! ## The commands -/

section Commands

variable {command : EditorCommand}

/-- Removing the anchor number `k + 1` deletes the character number `k`. -/
theorem Removed.of_getElem? {s' : EditorSession} {x : ElementID} (hr : Removed ⟨x⟩ s s')
    (ht : s.doc.IsTree) {k : ℕ} (hx : s.doc.anchors[k + 1]? = some x) :
    s'.doc.text = s.doc.text.eraseIdx k ∧ ∀ j ≤ k, s'.doc.anchors[j]? = s.doc.anchors[j]? := by
  obtain ⟨hk, hcut⟩ := Document.IsTree.anchors_cut hx
  have hnodup := ht.nodup_anchors
  have hroot : x ≠ rootId := fun he => by
    have h0 : s.doc.anchors[0]? = some x := he ▸ rfl
    have := (List.getElem?_inj (Nat.zero_lt_of_lt hk) hnodup).mp (h0.trans hx.symm)
    omega
  have hmem : ∀ y ∈ s.doc.anchors.take (k + 1) ++ s.doc.anchors.drop (k + 2), y ≠ x := by
    rw [hcut, List.nodup_middle, List.nodup_cons] at hnodup
    exact fun y hy he => hnodup.1 (he ▸ hy)
  have hanchors : s'.doc.anchors = s.doc.anchors.take (k + 1) ++ s.doc.anchors.drop (k + 2) := by
    rw [hr.anchors]
    nth_rewrite 1 [hcut]
    rw [List.filter_append, List.filter_cons_of_neg (by simp [hroot]), ← List.filter_append]
    exact List.filter_eq_self.mpr fun y hy => by simp [hmem y hy]
  have hlen : (s.doc.anchors.take (k + 1)).length = k + 1 := by
    rw [List.length_take, min_eq_left hk.le]
  refine ⟨?_, fun j hj => ?_⟩
  · have := Document.text_of_delete hcut (by simp [Document.anchors]) hanchors fun y _ => by
      rw [hr.charOf]
    rwa [hlen, Nat.succ_sub_one] at this
  · rw [hanchors, List.getElem?_append_left (by omega), List.getElem?_take_of_lt (by omega)]

theorem refines_typed (h : Sound received s) {c : UInt8} (hc : command.typed = some c) (h0 : c ≠ 0)
    (hf : s.Fresh received) : ∃ s', s.handleEditorCommand command = .ok s' ∧
      s'.render = .ok s'.view.text ∧ s'.view = (s.view.insert c).rememberColumn := by
  obtain ⟨d, a, b, hd, ht, hab, hdab, hchar, hnew⟩ := h.exists_insert hf c
  have hcaret : s.view.caret = a.length := by
    have : s.doc.anchors[a.length]? = some s.cursor.anchor := by rw [hab]; simp
    rw [view_eq h.tree rfl this]
  have htext : (s.afterTyping c d).doc.text = (s.view.insert c).text := by
    have := Document.text_of_insert hab hdab hchar
    rwa [hnew, ← hcaret] at this
  have hat : (s.afterTyping c d).doc.anchors[s.view.caret + 1]? =
      some (s.afterTyping c d).cursor.anchor := by
    change d.anchors[s.view.caret + 1]? = some s.gen.upcoming
    rw [hdab, hcaret]
    simp
  have hrun : s.handler.processCommand command =
      .ok ((s.handler.insertCharacter c).1, [.insert (s.typed c)]) := processCommand_of_typed hc h0
  have hn := h.novel (fun _ => hf) c hc
  refine exists_view (t := s.afterTyping c d) hrun ?_ ht (List.mem_of_getElem? hat) ?_
  · rw [List.foldlM_cons, h.perform_typed hn hd]
    rfl
  · rw [view_eq ht htext hat, if_pos]
    · rfl
    · constructor <;> exact fun he => by simp [EditorCommand.typed, he] at hc

/-- A move shows its view at the end, with or without the column it leaves. -/
theorem refines_moves (h : Sound received s) {e e' : PlainEditor}
    (hm : s.handler.Moves e (s.handler.processCommand command))
    (he : (if command.type ≠ .moveUp ∧ command.type ≠ .moveDown then e.rememberColumn else e) = e') :
    ∃ s', s.handleEditorCommand command = .ok s' ∧ s'.render = .ok s'.view.text ∧ s'.view = e' := by
  obtain ⟨g, hr, hd, -, ha, rfl⟩ := hm
  refine exists_view (t := s.put g) hr rfl ?_ ?_ he
  · change g.doc.IsTree
    rw [hd]
    exact h.tree
  · change g.cursor.anchor ∈ g.doc.anchors
    rw [hd]
    exact ha

/-- A removal that removes no anchor leaves the text. -/
theorem Removed.text_eq {s' : EditorSession} {oper : RemoveOperation} (hr : Removed oper s s')
    (hn : ∀ x ∈ s.doc.anchors, x = rootId ∨ x ≠ oper.theTarget) :
    s'.doc.anchors = s.doc.anchors ∧ s'.doc.text = s.doc.text := by
  have hanchors : s'.doc.anchors = s.doc.anchors := by
    rw [hr.anchors]
    exact List.filter_eq_self.mpr fun x hx => by simpa using hn x hx
  refine ⟨hanchors, ?_⟩
  have htext : ∀ d : Document, d.text = d.anchors.tail.map d.charOf := fun d => rfl
  rw [htext, htext, hanchors, hr.charOf]

theorem refines_backspace (h : Sound received s) (hs : s.cursor.hasSelection = false)
    (hc : command.type = .backspace) : ∃ s', s.handleEditorCommand command = .ok s' ∧
      s'.render = .ok s'.view.text ∧ s'.view = s.view.backspace.rememberColumn := by
  have hp : s.handler.Placed := ⟨h.tree, h.anchor⟩
  have hx : s.doc.anchors[s.handler.caret]? = some s.cursor.anchor := hp.getElem?_caret
  obtain ⟨y, hy, hr⟩ := InputHandler.backspace_eq hp hs
  have hput : Sound received (s.put (s.handler.setAnchor y)) :=
    h.congr rfl rfl rfl rfl rfl (List.mem_of_getElem? hy)
  obtain ⟨t, ht, htsound, hrem⟩ := hput.perform_remove (h.tree.mem_of_mem_anchors h.anchor)
  have hrun : s.handler.processCommand command =
      .ok (s.handler.setAnchor y, [.remove ⟨s.cursor.anchor⟩]) := by
    rw [InputHandler.processCommand, hc]
    exact hr
  refine exists_view hrun (by rw [List.foldlM_cons, ht]; rfl) htsound.tree htsound.anchor ?_
  rw [if_pos (by rw [hc]; decide)]
  -- at the root there is nothing to delete
  cases hk : s.handler.caret with
  | zero =>
    rw [hk] at hx hy
    have hroot : s.cursor.anchor = rootId := (Option.some.inj hx).symm
    obtain rfl : rootId = y := Option.some.inj hy
    obtain ⟨hanchors, htext⟩ := hrem.text_eq fun x _ => by rw [hroot]; exact em _
    have hcursor : t.cursor.anchor = rootId := hrem.cursor (Or.inr hroot)
    rw [view_eq (k := 0) htsound.tree htext (by rw [hanchors, hcursor]; rfl),
      view_eq h.tree rfl hx, PlainEditor.backspace, if_pos rfl]
    rfl
  | succ k =>
    rw [hk] at hx hy
    obtain ⟨htext, hanchors⟩ := hrem.of_getElem? h.tree hx
    have hne : y ≠ s.cursor.anchor := fun he => by
      have := (List.getElem?_inj (List.getElem?_eq_some_iff.mp hy).1 h.tree.nodup_anchors).mp
        (hy.trans (he ▸ hx.symm))
      omega
    have hcursor : t.cursor.anchor = y := hrem.cursor (Or.inl hne)
    rw [view_eq (k := k) htsound.tree htext (by rw [hanchors k le_rfl, hcursor]; exact hy),
      view_eq h.tree rfl hx, PlainEditor.backspace, if_neg (Nat.succ_ne_zero k)]
    rfl

theorem refines_deleteForward (h : Sound received s) (hs : s.cursor.hasSelection = false)
    (hc : command.type = .deleteForward) : ∃ s', s.handleEditorCommand command = .ok s' ∧
      s'.render = .ok s'.view.text ∧ s'.view = s.view.deleteForward.rememberColumn := by
  have hp : s.handler.Placed := ⟨h.tree, h.anchor⟩
  have hx : s.doc.anchors[s.handler.caret]? = some s.cursor.anchor := hp.getElem?_caret
  have hrun := InputHandler.deleteForward_eq hp hs
  rw [show s.handler.deleteForward = s.handler.processCommand command by
    rw [InputHandler.processCommand, hc]] at hrun
  have hremember : command.type ≠ .moveUp ∧ command.type ≠ .moveDown := by
    rw [hc]
    decide
  cases hn : s.handler.doc.anchors[s.handler.caret + 1]? with
  | none =>
    rw [hn] at hrun
    have hlen : s.doc.text.length ≤ s.handler.caret := by
      have := List.getElem?_eq_none_iff.mp hn
      rw [Document.IsTree.length_anchors] at this
      exact Nat.le_of_succ_le_succ this
    refine exists_view (t := s) hrun rfl h.tree h.anchor ?_
    have : s.view.deleteForward = s.view :=
      congrArg (fun text => { s.view with text := text }) (List.eraseIdx_of_length_le hlen)
    rw [if_pos hremember, this]
  | some x =>
    rw [hn] at hrun
    obtain ⟨t, ht, htsound, hrem⟩ := h.perform_remove
      (h.tree.mem_of_mem_anchors (List.mem_of_getElem? hn))
    obtain ⟨htext, hanchors⟩ := hrem.of_getElem? h.tree hn
    have hne : s.cursor.anchor ≠ x := fun he => by
      have := (List.getElem?_inj (List.getElem?_eq_some_iff.mp hx).1 h.tree.nodup_anchors).mp
        (hx.trans (he ▸ hn.symm))
      omega
    refine exists_view (t := t) hrun (by
      change [Operation.remove ⟨x⟩].foldlM perform s = _
      rw [List.foldlM_cons, ht]
      rfl) htsound.tree htsound.anchor ?_
    rw [if_pos hremember, view_eq (k := s.handler.caret) htsound.tree htext
      (by rw [hanchors _ le_rfl, hrem.cursor (Or.inl hne)]; exact hx), view_eq h.tree rfl hx]
    rfl

end Commands

/-- **A session refines a plain editor.**  Whatever commands and honest messages led to a session,
without a selection it renders the text of its view, and every command but typing a NUL returns and
does to the view what it does to a plain editor. -/
theorem handleEditorCommand_refines (hbar : bar ∉ clientId) (h : Reached clientId received s)
    (hs : s.cursor.hasSelection = false) (command : EditorCommand) (h0 : command.typed ≠ some 0)
    (hf : command.typed ≠ none → s.Fresh received) :
    s.render = .ok s.view.text ∧ ∃ s', s.handleEditorCommand command = .ok s' ∧
      s'.render = .ok s'.view.text ∧ s'.view = s.view.run command := by
  have hsound := h.sound hbar
  have hp : s.handler.Placed := ⟨hsound.tree, hsound.anchor⟩
  refine ⟨hsound.tree.render_eq_text, ?_⟩
  obtain ⟨type, character⟩ := command
  cases type with
  | insertCharacter =>
    exact refines_typed hsound rfl (fun he => h0 (congrArg some he))
      (hf (by simp [EditorCommand.typed]))
  | enter => exact refines_typed hsound rfl (by decide) (hf (by simp [EditorCommand.typed]))
  | backspace => exact refines_backspace hsound hs rfl
  | deleteForward => exact refines_deleteForward hsound hs rfl
  | moveLeft => exact refines_moves hsound (moves_moving moves_moveLeftImpl hp) rfl
  | moveRight => exact refines_moves hsound (moves_moving moves_moveRightImpl hp) rfl
  | moveUp => exact refines_moves hsound (moves_moving moves_moveUpImpl hp) rfl
  | moveDown => exact refines_moves hsound (moves_moving moves_moveDownImpl hp) rfl
  | shiftLeft => exact refines_moves hsound (moves_shifting moves_moveLeftImpl hp) rfl
  | shiftRight => exact refines_moves hsound (moves_shifting moves_moveRightImpl hp) rfl
  | shiftUp => exact refines_moves hsound (moves_shifting moves_moveUpImpl hp) rfl
  | shiftDown => exact refines_moves hsound (moves_shifting moves_moveDownImpl hp) rfl

/-- A character from another client, and one typed in front of it. -/
def sampleMessage : Message :=
  ⟨.operation, str "b", .operation (.insert ⟨rootId, ⟨1, str "b"⟩, 66⟩)⟩

def sampleReceived : EditorSession := ((start (str "a")).apply sampleMessage).state

def sampleTyped : EditorSession :=
  (sampleReceived.handleEditorCommand ⟨.insertCharacter, 65⟩).state

theorem reached_sampleTyped : Reached (str "a") sampleMessage.payload.operations sampleTyped := by
  have hreceived : (start (str "a")).apply sampleMessage = .ok sampleReceived :=
    Except.eq_ok_state (by decide +kernel)
  have htyped : sampleReceived.handleEditorCommand ⟨.insertCharacter, 65⟩ = .ok sampleTyped :=
    Except.eq_ok_state (by decide +kernel)
  refine .command (.message .start ⟨⟨fun a b ha hb _ => ?_, fun oper ho => ?_⟩, by decide⟩ hreceived)
    (by decide +kernel) (by decide +kernel) htyped
  · simp [history, start, OperationLog.empty, sampleMessage, MessagePayload.operations] at ha hb
    rw [ha, hb]
  · obtain rfl := Operation.insert.inj (List.mem_singleton.mp ho)
    decide

theorem handleEditorCommand_refines_sample :
    sampleTyped.render = .ok sampleTyped.view.text ∧
      ∃ s', sampleTyped.handleEditorCommand ⟨.enter, 0⟩ = .ok s' ∧
        s'.render = .ok s'.view.text ∧ s'.view = sampleTyped.view.run ⟨.enter, 0⟩ :=
  handleEditorCommand_refines (by decide) reached_sampleTyped (by decide +kernel) ⟨.enter, 0⟩
    (by decide) fun _ => by decide +kernel

end CrdtEditor.EditorSession
