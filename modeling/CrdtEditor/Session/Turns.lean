import CrdtEditor.Session.Widget

/-!
# Session/Turns — what a sound session passes on

On a sound session every command and every flush returns, and its history grows by exactly the
operations it made or took (`Sound.runs`, `Sound.flushes`).  A `Turn` is either of them as the network
sees it.
-/

namespace CrdtEditor.EditorSession

open Text

open Except (leaving)

variable {s t u : EditorSession} {ops ops' : List Operation} {ms ms' : List Message}

/-- An id that names an element of the document, or will. -/
def Names (s : EditorSession) (x : ElementID) : Prop :=
  x = rootId ∨ ∃ oper, .insert oper ∈ s.history ∧ oper.ident = x

theorem Replica.names {received : List Operation} (h : Replica received s) {x : ElementID}
    (hx : x ∈ s.doc.elements) : s.Names x := by
  by_cases hr : x = rootId
  · exact Or.inl hr
  · obtain ⟨oper, ho, he, -⟩ := h.settling.source x hx hr
    exact Or.inr ⟨oper, ho, he⟩

theorem Names.mono {x : ElementID} (h : s.Names x) (hsub : s.history ⊆ t.history) : t.Names x :=
  h.imp id fun ⟨oper, ho, he⟩ => ⟨oper, hsub ho, he⟩

/-- What a sound session queues in a flush. -/
def Tells (t : EditorSession) (m : Message) : Prop :=
  m = ⟨.syncComplete, t.clientId, .monostate⟩ ∨
    ∃ x, t.Names x ∧ m = ⟨.cursorUpdate, t.clientId, .cursorUpdate x⟩

theorem Tells.takes {m : Message} {queued : List Message} (h : Tells t m)
    (ht : Takes ops queued t u) : Tells u m := by
  obtain he | ⟨x, hx, he⟩ := h
  · exact Or.inl (ht.clientId.symm ▸ he)
  · exact Or.inr ⟨x, hx.mono ht.sup, ht.clientId.symm ▸ he⟩

theorem Sound.tells {received : List Operation} (h : Sound received t) (m : Message) :
    ∀ r ∈ replies m t, t.Tells r := by
  intro r hr
  rw [replies] at hr
  split at hr
  case h_1 =>
    obtain rfl | rfl : _ ∨ _ := by simpa using hr
    · exact Or.inl rfl
    · exact Or.inr ⟨_, h.names (h.tree.mem_of_mem_anchors h.anchor), rfl⟩
  case h_2 => cases hr

/-- **The messages of a queue are taken in full.** -/
theorem Sound.flushes : ∀ {ms : List Message} {received : List Operation} {s : EditorSession},
    Sound received s → (∀ m ∈ ms, m.Formed) → s.Honest (ms.flatMap (·.payload.operations)) →
    ∃ t queued, ms.foldlM EditorSession.apply s = .ok t ∧
      Sound (received ++ ms.flatMap (·.payload.operations)) t ∧
      Takes (ms.flatMap (·.effective)) queued s t ∧ ∀ m ∈ queued, t.Tells m
  | [], _, s, h, _, _ =>
    ⟨s, [], rfl, by simpa using h, takes_refl s, fun _ hm => absurd hm List.not_mem_nil⟩
  | m :: ms, received, s, h, hm, hh => by
      have hhead : m.payload.operations ⊆ (m :: ms).flatMap (·.payload.operations) :=
        List.subset_append_left _ _
      have htail : ms.flatMap (·.payload.operations) ⊆ (m :: ms).flatMap (·.payload.operations) :=
        List.subset_append_right _ _
      obtain ⟨t, ht, htsound, hhist⟩ := h.exists_apply (hm m List.mem_cons_self)
        (hh.mono hhead Set.subset_union_left)
      have htakes := takes_apply s m
      rw [ht] at htakes
      replace htakes : Takes m.effective (replies m t) s t := htakes
      obtain ⟨u, queued, hu, husound, hutakes, htells⟩ := htsound.flushes
        (fun m' hm' => hm m' (List.mem_cons_of_mem _ hm'))
        (hh.mono htail (hhist.trans (Set.union_subset_union_right _ fun _ ho => hhead ho)))
      refine ⟨u, _, by rw [List.foldlM_cons, ht]; exact hu, ?_, htakes.trans hutakes, fun r hr => ?_⟩
      · rwa [List.flatMap_cons, ← List.append_assoc]
      rcases List.mem_append.1 hr with hr | hr
      · exact (htsound.tells m r hr).takes hutakes
      · exact htells r hr

/-! ## Turns -/

/-- **A turn of a sound session**: it took some operations from its queue, made some of its own and
queued messages that announce those or say where it is. -/
structure Turn (s : EditorSession) (taken own : List Operation) (ms : List Message)
    (t : EditorSession) : Prop where
  sound : Sound t.log.operationHistory t
  clientId : t.clientId = s.clientId
  site : t.gen.clientId = s.gen.clientId
  clock : s.gen.lamportClock ≤ t.gen.lamportClock
  history : t.history = s.history ∪ {op | op ∈ taken ∨ op ∈ own}
  incoming : t.incomingQueue = s.incomingQueue ∨
    t.incomingQueue = [] ∧ taken = s.incomingQueue.flatMap (·.payload.operations)
  outgoing : t.outgoingQueue = s.outgoingQueue ++ ms
  tells : ∀ m ∈ ms, m ∈ s.announce own ∨ t.Tells m
  announced : s.announce own ⊆ ms
  own : (∃ c, own = [.insert (s.typed c)] ∧ t.gen.lamportClock = s.gen.upcoming.lamport) ∨
    ∀ op ∈ own, ∃ x, s.Names x ∧ op = .remove ⟨x⟩

/-- What was received need not be told apart from what was applied. -/
theorem Sound.self {received : List Operation} (h : Sound received s) :
    Sound s.log.operationHistory s :=
  { h with named := fun _ hop => Or.inl hop }

theorem turn_refl (h : Sound s.log.operationHistory s) : Turn s [] [] [] s where
  sound := h
  clientId := rfl
  site := rfl
  clock := le_rfl
  history := by simp
  incoming := Or.inl rfl
  outgoing := (List.append_nil _).symm
  tells _ hm := absurd hm List.not_mem_nil
  announced := List.nil_subset _
  own := Or.inr fun _ hop => absurd hop List.not_mem_nil

/-- A turn that makes no operation. -/
theorem turn_of_does {received : List Operation} (hdoes : Does [] ms s t) (hgen : t.gen = s.gen)
    (h : Sound received t) (htells : ∀ m ∈ ms, t.Tells m) : Turn s [] [] ms t where
  sound := h.self
  clientId := hdoes.clientId
  site := hdoes.site
  clock := hgen ▸ le_rfl
  history := by
    refine (hdoes.history h.toReplica fun _ hop => absurd hop List.not_mem_nil).trans ?_
    simp
  incoming := Or.inl hdoes.incoming
  outgoing := hdoes.outgoing
  tells m hm := Or.inr (htells m hm)
  announced := List.nil_subset _
  own := Or.inr fun _ hop => absurd hop List.not_mem_nil

/-- The caret, announced. -/
theorem Sound.turn_queueCursorUpdate {received : List Operation} (h : Sound received s) :
    Turn s [] [] [⟨.cursorUpdate, s.clientId, .cursorUpdate s.cursor.anchor⟩] s.queueCursorUpdate :=
  turn_of_does (does_queueOutgoingMessage s _) rfl (h.queueOutgoingMessage _) fun m hm => by
    obtain rfl := List.mem_singleton.1 hm
    exact Or.inr ⟨_, h.names (h.tree.mem_of_mem_anchors h.anchor), rfl⟩

/-- A command. -/
theorem Sound.turn_command (h : Sound s.log.operationHistory s) {command : EditorCommand}
    (hf : command.typed ≠ none → s.Fresh s.log.operationHistory)
    (hb : command.typed ≠ none → s.gen.lamportClock.toNat + 1 < 2 ^ 64 - 1) :
    ∃ own, Turn s [] own (s.announce own) (s.handleEditorCommand command).state := by
  by_cases h0 : command.typed = some 0
  · refine ⟨[], ?_⟩
    rw [state_handleEditorCommand_nul h0]
    exact turn_refl h
  obtain ⟨-, own, t, -, ht, hsound, hdoes, hmakes⟩ := h.runs h0 hf hb
  have hown : (∃ c, own = [.insert (s.typed c)] ∧
      t.gen.lamportClock = s.gen.upcoming.lamport) ∨
      ∀ op ∈ own, ∃ x, s.Names x ∧ op = .remove ⟨x⟩ := by
    obtain ⟨c, -, he, hgen⟩ | ⟨-, -, hall⟩ := hmakes
    · exact Or.inl ⟨c, he, hgen⟩
    · refine Or.inr fun op hop => ?_
      obtain ⟨x, hx, he⟩ := hall op hop
      exact ⟨x, h.names hx, he⟩
  refine ⟨own, ?_⟩
  rw [ht]
  exact
    { sound := hsound.self
      clientId := hdoes.clientId
      site := hdoes.site
      clock := by
        obtain ⟨c, -, -, hgen⟩ | ⟨-, hgen, -⟩ := hmakes
        · exact hgen ▸ (h.lt_upcoming le_rfl).le
        · exact hgen ▸ le_rfl
      history := by
        refine (hdoes.history hsound.toReplica (h.avoids_makes hmakes)).trans ?_
        simp
      incoming := Or.inl hdoes.incoming
      outgoing := hdoes.outgoing
      tells := fun m hm => Or.inl hm
      announced := fun m hm => hm
      own := hown }

theorem turn_of_caret {received : List Operation} (h : Sound received t) (hgen : t.gen = s.gen)
    (hdoes : Does [] ms s t)
    (hms : ∀ m ∈ ms, m = ⟨.cursorUpdate, t.clientId, .cursorUpdate t.cursor.anchor⟩) :
    Turn s [] [] ms t :=
  turn_of_does hdoes hgen h fun m hm =>
    Or.inr ⟨_, h.names (h.tree.mem_of_mem_anchors h.anchor), hms m hm⟩

/-- A click. -/
theorem Sound.turn_mousePressEvent {received : List Operation} (h : Sound received s)
    (line column : ℕ) : ∃ ms, Turn s [] [] ms (s.mousePressEvent line column).state := by
  obtain ⟨c, hc, ht⟩ := h.toSteady.mousePressEvent line column
  have hmoved : Sound received { s with cursor := c } := h.congr rfl rfl rfl rfl rfl hc
  rw [ht]
  refine ⟨_, turn_of_caret (hmoved.queueOutgoingMessage _) rfl
    ((does_carets s c _ _).trans (does_queueOutgoingMessage _ _)) fun m hm => ?_⟩
  exact List.mem_singleton.1 hm

/-- A drag. -/
theorem Sound.turn_mouseMoveEvent {received : List Operation} (h : Sound received s)
    (line column : ℕ) : ∃ ms, Turn s [] [] ms (s.mouseMoveEvent line column).state := by
  obtain ⟨c, hc, ht⟩ := h.toSteady.mouseMoveEvent line column
  rw [ht]
  exact ⟨[], turn_of_caret (h.congr rfl rfl rfl rfl rfl hc) rfl (does_carets s c _ _) fun m hm =>
    absurd hm List.not_mem_nil⟩

/-- The timer. -/
theorem Sound.turn_flushIncoming (h : Sound s.log.operationHistory s)
    (hm : ∀ m ∈ s.incomingQueue, m.Formed)
    (heffective : ∀ m ∈ s.incomingQueue, m.effective = m.payload.operations)
    (hh : s.Honest (s.incomingQueue.flatMap (·.payload.operations))) :
    ∃ ms, Turn s (s.incomingQueue.flatMap (·.payload.operations)) [] ms s.flushIncoming.state := by
  have hempty : Sound s.log.operationHistory { s with incomingQueue := [] } :=
    h.congr rfl rfl rfl rfl rfl h.anchor
  obtain ⟨t, queued, ht, hsound, htakes, htells⟩ :=
    hempty.flushes hm ⟨⟨hh.consistent, hh.lamport⟩, hh.avoids⟩
  have hops : s.incomingQueue.flatMap (·.effective) =
      s.incomingQueue.flatMap (·.payload.operations) := List.flatMap_congr heffective
  rw [hops] at htakes
  rw [flushIncoming, ht]
  exact ⟨queued,
    { sound := hsound.self
      clientId := htakes.clientId
      site := htakes.site
      clock := htakes.clock
      history := by
        refine (htakes.toDoes.history hsound.toReplica hh.avoids).trans ?_
        simp only [List.not_mem_nil, or_false]
        rfl
      incoming := Or.inr ⟨htakes.incoming, rfl⟩
      outgoing := htakes.outgoing
      tells := fun m hm => Or.inr (htells m hm)
      announced := List.nil_subset _
      own := Or.inr fun _ hop => absurd hop List.not_mem_nil }⟩

end CrdtEditor.EditorSession
