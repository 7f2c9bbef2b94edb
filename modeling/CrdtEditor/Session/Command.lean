import CrdtEditor.Session.Replica

/-!
# Session/Command — a command on a steady session

The element a command inserts is new to everything the session has seen, so its operation is applied,
unless its text is another one's, and becomes the next anchor (`Steady.exists_insert`); the deletions are
removals of elements.  Whatever the command, it returns and leaves a steady session (`Steady.runs`).
-/

namespace CrdtEditor.EditorSession

open Text

variable {s : EditorSession} {received : List Operation} {command : EditorCommand}

/-- No operation received so far mentions the id the session draws next. -/
def Fresh (received : List Operation) (s : EditorSession) : Prop :=
  ∀ op ∈ received, s.gen.upcoming ∉ op.names

instance (received : List Operation) (s : EditorSession) : Decidable (s.Fresh received) :=
  inferInstanceAs (Decidable (∀ op ∈ received, s.gen.upcoming ∉ op.names))

/-- The insert of a character at the caret. -/
def typed (s : EditorSession) (c : UInt8) : InsertOperation := ⟨s.cursor.anchor, s.gen.upcoming, c⟩

/-- The text of the insert that a command makes has not been applied. -/
def Novel (s : EditorSession) (command : EditorCommand) : Prop :=
  ∀ c ∈ command.typed, (Operation.insert (s.typed c)).serialize ∉ s.appliedOperations

instance (s : EditorSession) : DecidablePred s.Novel := fun command =>
  inferInstanceAs (Decidable (∀ c ∈ command.typed, _ ∉ s.appliedOperations))

theorem Coherent.toNat_upcoming (h : Coherent received s) :
    s.gen.upcoming.lamport.toNat = s.gen.lamportClock.toNat + 1 := by
  have := h.bound
  rw [IdGenerator.upcoming, UInt64.toNat_add]
  exact Nat.mod_eq_of_lt (by simp; omega)

/-- The next id is above the clock. -/
theorem Coherent.lt_upcoming (h : Coherent received s) {l : UInt64} (hl : l ≤ s.gen.lamportClock) :
    l < s.gen.upcoming.lamport := by
  rw [UInt64.lt_iff_toNat_lt, h.toNat_upcoming]
  exact Nat.lt_succ_of_le (UInt64.le_iff_toNat_le.mp hl)

/-- The clock has passed every element. -/
theorem Coherent.lamport_le (h : Coherent received s) {x : ElementID} (hx : x ∈ s.doc.elements) :
    x.lamport ≤ s.gen.lamportClock := by
  by_cases hr : x = rootId
  · rw [hr]
    exact UInt64.le_iff_toNat_le.mpr (Nat.zero_le _)
  · obtain ⟨oper, ho, rfl, -⟩ := h.settling.source x hx hr
    exact h.clock oper ho

/-- An element of a replica has a site without a bar. -/
theorem Replica.bar_notMem (h : Replica received s) {x : ElementID} (hx : x ∈ s.doc.elements) :
    bar ∉ x.siteId := by
  by_cases hr : x = rootId
  · rw [hr]
    decide
  · obtain ⟨oper, ho, rfl, -⟩ := h.settling.source x hx hr
    exact h.avoids _ ho _ (by simp [Operation.sites])

/-- A removal of an element suits. -/
theorem Coherent.suits_remove (h : Coherent received s) {x : ElementID} (hx : x ∈ s.doc.elements) :
    Suits received s (.remove ⟨x⟩) where
  consistent := fun a b ha hb => h.consistent a b (ha.resolve_left (by simp))
    (hb.resolve_left (by simp))
  clock := by simp
  named := Or.inr fun y hy => by
    obtain rfl := List.mem_singleton.mp hy
    exact h.lamport_le hx

theorem Replica.avoids_remove (h : Replica received s) {x : ElementID} (hx : x ∈ s.doc.elements) :
    (Operation.remove ⟨x⟩).Avoids bar := fun site hs => by
  obtain rfl := List.mem_singleton.mp hs
  exact h.bar_notMem hx

/-! ## Typing -/

/-- Nothing applied so far mentions a fresh id. -/
theorem Coherent.upcoming_notMem_names (h : Coherent received s) (hf : s.Fresh received) :
    ∀ op ∈ s.history, s.gen.upcoming ∉ op.names := fun op hop hm =>
  (h.named op hop).elim (fun hr => hf op hr hm) fun hx =>
    lt_irrefl _ (h.lt_upcoming (hx _ hm))

theorem Coherent.typed_fits (h : Coherent received s) (hf : s.Fresh received) (c : UInt8) :
    Operation.Consistent (insert (.insert (s.typed c)) s.history) ∧
      (Operation.insert (s.typed c)) ∉ s.history := by
  have hnew : ∀ oper, .insert oper ∈ s.history → oper.ident ≠ s.gen.upcoming := fun oper ho he =>
    h.upcoming_notMem_names hf _ ho (by simp [Operation.names, he])
  refine ⟨?_, fun hm => hnew _ hm rfl⟩
  rintro a b (ha | ha) (hb | hb) he
  · exact (Operation.insert.inj ha).trans (Operation.insert.inj hb).symm
  · rw [Operation.insert.inj ha] at he
    exact absurd he.symm (hnew b hb)
  · rw [Operation.insert.inj hb] at he
    exact absurd he (hnew a ha)
  · exact h.consistent a b ha hb he

theorem Sound.avoids_typed (h : Sound received s) (c : UInt8) :
    (Operation.insert (s.typed c)).Avoids bar := fun site hs => by
  simp only [Operation.sites, List.mem_cons, List.not_mem_nil, or_false] at hs
  rcases hs with rfl | rfl
  exacts [h.bar_notMem (h.tree.mem_of_mem_anchors h.anchor), h.site]

/-- Without a bar in an id the insert of a fresh id is novel. -/
theorem Sound.novel (h : Sound received s) (hf : command.typed ≠ none → s.Fresh received) :
    s.Novel command := fun c hc hm =>
  (h.typed_fits (hf (by rw [hc]; simp)) c).2 ((h.mem_history (h.avoids_typed c)).mp hm)

/-- **A typed character becomes the anchor behind the caret.** -/
theorem Steady.exists_insert (h : Steady received s) (hf : s.Fresh received) (c : UInt8) :
    ∃ d a b, s.doc.apply (.insert (s.typed c)) = .ok d ∧ d.IsTree ∧
      s.doc.anchors = a ++ s.cursor.anchor :: b ∧
      d.anchors = a ++ s.cursor.anchor :: s.gen.upcoming :: b ∧
      (∀ y ∈ s.doc.anchors, d.charOf y = s.doc.charOf y) ∧ d.charOf s.gen.upcoming = c := by
  have hnames := h.upcoming_notMem_names hf
  have hid : s.gen.upcoming ∉ s.doc.elements := fun hm =>
    lt_irrefl _ (h.lt_upcoming (h.lamport_le hm))
  have hpar : s.cursor.anchor ∈ s.doc.elements := h.tree.mem_of_mem_anchors h.anchor
  have hgt : ∀ x ∈ s.doc.childrenOf s.cursor.anchor, x < s.gen.upcoming := fun x hx =>
    ElementID.lt_of_lamport_lt (h.lt_upcoming (h.lamport_le (h.tree.mem_of_mem_childrenOf hx)))
  have hdel : s.gen.upcoming ∉ s.doc.bufferedDeletes := fun hm =>
    hnames _ ((h.settling.mem_bufferedDeletes _).mp hm).1 (by simp [Operation.names])
  have hwait : s.doc.waiting s.gen.upcoming = [] := by
    -- a buffered insert is filed under its parent, which it mentions
    refine List.eq_nil_iff_forall_not_mem.mpr fun op hop => ?_
    have hS := h.settling.mem_of_waiting op
      (by simpa using UMap.mem_contents_of_mem_bucket hop)
    have hp : op.parent = s.gen.upcoming := Document.Filed.waiting h.buffer.filed hop
    exact hnames _ hS (by simp [Operation.names, hp])
  obtain ⟨d, hd, -, hs⟩ := h.settling.apply h.buffer (h.typed_fits hf c).1
  obtain ⟨helem, hchild⟩ := Document.apply_insert_of_waiting_eq_nil hid hpar hwait hd
  obtain ⟨a, b, hab⟩ := List.append_of_mem h.anchor
  have hchar : ∀ y, d.charOf y = if y = s.gen.upcoming then c else s.doc.charOf y := fun y => by
    have := Document.charOf_attach s.doc (s.typed c) y
    rwa [Document.charOf, ← helem, ← Document.charOf] at this
  refine ⟨d, a, b, hd, hs.tree, hab, ?_, fun y hy => ?_, ?_⟩
  · rw [Document.anchors_congr helem hchild]
    exact Document.anchors_attach h.tree hid hgt hdel hab
  · rw [hchar, if_neg fun he : y = s.gen.upcoming => hid (he ▸ h.tree.mem_of_mem_anchors hy)]
  · rw [hchar, if_pos rfl]

/-- The session that has typed a character, on the document `d` it led to. -/
def afterTyping (s : EditorSession) (c : UInt8) (d : Document) : EditorSession :=
  ((s.put (s.handler.insertCharacter c).1).admitted (.insert (s.typed c)) d).queueOutgoingMessage
    ⟨.operation, s.clientId, .operation (.insert (s.typed c))⟩

theorem Steady.perform_typed (h : Steady received s) {c : UInt8}
    (hn : (Operation.insert (s.typed c)).serialize ∉ s.appliedOperations) {d : Document}
    (hd : s.doc.apply (.insert (s.typed c)) = .ok d) :
    (s.put (s.handler.insertCharacter c).1).perform (.insert (s.typed c)) =
      .ok (s.afterTyping c d) := by
  have hne : (s.typed c).parent ≠ s.gen.upcoming := fun he : s.cursor.anchor = s.gen.upcoming =>
    lt_irrefl _ (h.lt_upcoming (he ▸ h.lamport_le (h.tree.mem_of_mem_anchors h.anchor)))
  have hcursor : (s.put (s.handler.insertCharacter c).1).cursor.updateOnInsert (s.typed c) =
      (s.put (s.handler.insertCharacter c).1).cursor := if_neg hne
  have happly := applyOperation_of_new (s := s.put (s.handler.insertCharacter c).1) (b := true) hn hd
  rw [if_pos rfl, Cursor.update, hcursor] at happly
  rw [perform, happly]
  rfl

/-- **Typing keeps a session steady** while the clock stays below its limit. -/
theorem Steady.afterTyping (h : Steady received s) (hf : s.Fresh received)
    (hb : s.gen.lamportClock.toNat + 1 < 2 ^ 64 - 1) {c : UInt8}
    (hn : (Operation.insert (s.typed c)).serialize ∉ s.appliedOperations) :
    ∃ d, (s.put (s.handler.insertCharacter c).1).perform (.insert (s.typed c)) =
      .ok (s.afterTyping c d) ∧ Steady received (s.afterTyping c d) := by
  obtain ⟨d, a, b, hd, -, -, hanchors, -⟩ := h.exists_insert hf c
  have hle : s.gen.lamportClock ≤ s.gen.upcoming.lamport := (h.lt_upcoming le_rfl).le
  have ht : Coherent received (s.put (s.handler.insertCharacter c).1) :=
    { h.toCoherent with
      clock := fun oper ho => (h.clock oper ho).trans hle
      bound := by
        change s.gen.upcoming.lamport.toNat < 2 ^ 64 - 1
        rw [h.toNat_upcoming]
        exact hb
      named := fun op ho => (h.named op ho).imp id fun hx x hm => (hx x hm).trans hle }
  have hsuits : Suits received (s.put (s.handler.insertCharacter c).1) (.insert (s.typed c)) :=
    { consistent := (h.typed_fits hf c).1
      clock := fun oper he => by
        obtain rfl := Operation.insert.inj he
        exact le_rfl
      named := Or.inr fun x hx => by
        simp only [Operation.names, List.mem_cons, List.not_mem_nil, or_false] at hx
        rcases hx with rfl | rfl
        · exact le_rfl
        · exact (h.lamport_le (h.tree.mem_of_mem_anchors h.anchor)).trans hle }
  obtain ⟨d', hd', hrep⟩ := ht.accept hsuits hn
  obtain rfl : d = d' := Except.ok.inj (hd.symm.trans hd')
  refine ⟨d, h.perform_typed hn hd, hrep.congr rfl rfl rfl rfl hrep.remote, ?_⟩
  change s.gen.upcoming ∈ d.anchors
  rw [hanchors]
  simp

/-! ## Every command -/

/-- Performing the removal of an element. -/
theorem Steady.perform_remove (h : Steady received s) {x : ElementID} (hx : x ∈ s.doc.elements) :
    ∃ t, s.perform (.remove ⟨x⟩) = .ok t ∧ Steady received t ∧ Removed ⟨x⟩ s t := by
  obtain ⟨t, ht, hsteady, hrem⟩ := h.applyRemove (h.suits_remove hx) true
  refine ⟨t.queueOutgoingMessage ⟨.operation, t.clientId, .operation (.remove ⟨x⟩)⟩, ?_,
    hsteady.queueOutgoingMessage _, hrem.gen, hrem.history, hrem.elements, hrem.anchors, hrem.charOf,
    hrem.cursor⟩
  rw [perform, ht]
  rfl

/-- Removals of elements are applied one by one. -/
theorem Steady.foldlM_perform : ∀ {ops : List Operation} {s : EditorSession}, Steady received s →
    (∀ op ∈ ops, ∃ x ∈ s.doc.elements, op = .remove ⟨x⟩) →
    ∃ s', ops.foldlM perform s = .ok s' ∧ Steady received s'
  | [], s, h, _ => ⟨s, rfl, h⟩
  | op :: ops, s, h, hops => by
      obtain ⟨x, hx, rfl⟩ := hops op List.mem_cons_self
      obtain ⟨t, ht, htsteady, hrem⟩ := h.perform_remove hx
      have hrest : ∀ op ∈ ops, ∃ y ∈ t.doc.elements, op = .remove ⟨y⟩ := fun op hop => by
        obtain ⟨y, hy, he⟩ := hops op (List.mem_cons_of_mem _ hop)
        exact ⟨y, hrem.elements y hy, he⟩
      obtain ⟨u, hu, husteady⟩ := htsteady.foldlM_perform hrest
      exact ⟨u, by rw [List.foldlM_cons, ht]; exact hu, husteady⟩

/-- The remembered column is the column of the caret. -/
theorem exists_rememberColumn (ht : s.doc.IsTree) (ha : s.cursor.anchor ∈ s.doc.anchors)
    (command : EditorCommand) :
    s.rememberColumn command = .ok (if command.type ≠ .moveUp ∧ command.type ≠ .moveDown then
      { s with cursor := s.cursor.setDesiredColumn s.handler.view.position.2 } else s) := by
  have hcol : s.cursor.getLineColumn s.doc = .ok s.handler.view.position :=
    InputHandler.Placed.getLineColumn_eq (h := s.handler) ⟨ht, ha⟩
  rw [rememberColumn]
  split
  · rw [Cursor.updateDesiredColumn, hcol]
    rfl
  · rfl

theorem Steady.rememberColumn (h : Steady received s) (command : EditorCommand) :
    ∃ s', s.rememberColumn command = .ok s' ∧ Steady received s' := by
  refine ⟨_, exists_rememberColumn h.tree h.anchor command, ?_⟩
  split
  · exact h.congr rfl rfl rfl rfl rfl h.anchor
  · exact h

/-- What the operations of a command are. -/
def Makes (s : EditorSession) (command : EditorCommand) (ops : List Operation)
    (t : EditorSession) : Prop :=
  (∃ c, command.typed = some c ∧ ops = [.insert (s.typed c)] ∧
    t.gen.lamportClock = s.gen.upcoming.lamport) ∨
  command.typed = none ∧ t.gen = s.gen ∧ ∀ op ∈ ops, ∃ x ∈ s.doc.elements, op = .remove ⟨x⟩

/-- **Every command but typing a NUL makes its operations**, applies them, announces them and keeps a
session steady, as long as the ids it draws are new. -/
theorem Steady.runs (h : Steady received s) (h0 : command.typed ≠ some 0) (hn : s.Novel command)
    (hf : command.typed ≠ none → s.Fresh received)
    (hb : command.typed ≠ none → s.gen.lamportClock.toNat + 1 < 2 ^ 64 - 1) :
    ∃ h' ops t, s.handler.processCommand command = .ok (h', ops) ∧
      s.handleEditorCommand command = .ok t ∧ Steady received t ∧ Does ops (s.announce ops) s t ∧
      s.Makes command ops t := by
  have hp : s.handler.Placed := ⟨h.tree, h.anchor⟩
  cases hc : command.typed with
  | some c =>
    have hne : command.typed ≠ none := by simp [hc]
    obtain ⟨d, hperform, hsteady⟩ := h.afterTyping (hf hne) (hb hne) (hn c hc)
    obtain ⟨t, ht, htsteady⟩ := hsteady.rememberColumn command
    have hrun : s.handler.processCommand command =
        .ok ((s.handler.insertCharacter c).1, [.insert (s.typed c)]) :=
      InputHandler.processCommand_of_typed hc fun he => h0 (hc.trans (congrArg some he))
    have hts : s.handleEditorCommand command = .ok t := by
      rw [handleEditorCommand_eq hrun, List.foldlM_cons, hperform]
      exact ht
    obtain ⟨hdoes, hgen⟩ := does_handleEditorCommand hrun rfl hts
    exact ⟨_, _, t, hrun, hts, htsteady, hdoes, Or.inl ⟨c, hc, rfl, by rw [hgen]; rfl⟩⟩
  | none =>
    obtain ⟨h', ops, hrun, hd, hg, ha, hops⟩ := InputHandler.keeps_processCommand hp hc
    have hd : h'.doc = s.doc := hd
    have hg : h'.gen = s.gen := hg
    have hput : Steady received (s.put h') := h.congr hd rfl hg rfl rfl ha
    have hpresent : ∀ op ∈ ops, ∃ x ∈ (s.put h').doc.elements, op = .remove ⟨x⟩ := by
      change ∀ op ∈ ops, ∃ x ∈ h'.doc.elements, op = .remove ⟨x⟩
      rw [hd]
      exact hops
    obtain ⟨u, hu, husteady⟩ := hput.foldlM_perform hpresent
    obtain ⟨t, ht, htsteady⟩ := husteady.rememberColumn command
    have hts : s.handleEditorCommand command = .ok t := by
      rw [handleEditorCommand_eq hrun, hu]
      exact ht
    obtain ⟨hdoes, hgen⟩ := does_handleEditorCommand hrun (by rw [hg]) hts
    exact ⟨h', ops, t, hrun, hts, htsteady, hdoes, Or.inr ⟨hc, hgen.trans hg, hops⟩⟩

/-- What a command makes holds no bar. -/
theorem Sound.avoids_makes {ops : List Operation} {t : EditorSession} (h : Sound received s)
    (hmakes : s.Makes command ops t) : ∀ op ∈ ops, op.Avoids bar := fun op hop => by
  obtain ⟨c, -, rfl, -⟩ | ⟨-, -, hall⟩ := hmakes
  · obtain rfl := List.mem_singleton.1 hop
    exact h.avoids_typed c
  · obtain ⟨x, hx, rfl⟩ := hall op hop
    exact h.avoids_remove hx

/-- **The same of a sound session.** -/
theorem Sound.runs (h : Sound received s) (h0 : command.typed ≠ some 0)
    (hf : command.typed ≠ none → s.Fresh received)
    (hb : command.typed ≠ none → s.gen.lamportClock.toNat + 1 < 2 ^ 64 - 1) :
    ∃ h' ops t, s.handler.processCommand command = .ok (h', ops) ∧
      s.handleEditorCommand command = .ok t ∧ Sound received t ∧ Does ops (s.announce ops) s t ∧
      s.Makes command ops t := by
  obtain ⟨h', ops, t, hrun, ht, hsteady, hdoes, hmakes⟩ := h.toSteady.runs h0 (h.novel hf) hf hb
  exact ⟨h', ops, t, hrun, ht, h.of_does hsteady hdoes (h.avoids_makes hmakes), hdoes, hmakes⟩

theorem Sound.handleEditorCommand (h : Sound received s) (h0 : command.typed ≠ some 0)
    (hf : command.typed ≠ none → s.Fresh received)
    (hb : command.typed ≠ none → s.gen.lamportClock.toNat + 1 < 2 ^ 64 - 1) :
    ∃ s', s.handleEditorCommand command = .ok s' ∧ Sound received s' := by
  obtain ⟨-, -, t, -, ht, hsound, -⟩ := h.runs h0 hf hb
  exact ⟨t, ht, hsound⟩

end CrdtEditor.EditorSession
