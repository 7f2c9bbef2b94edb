import CrdtEditor.Session.State

/-!
# Session/Effects — what a call does to a session

Whatever a session holds, a call applies operations and queues messages (`Does`), and the clock never
falls behind an insert it took (`Takes`).  Nothing is assumed of the session, and a call that throws is
one of these too.
-/

namespace CrdtEditor

open Text

/-- The operations a session applies when it takes the message. -/
def Message.effective (m : Message) : List Operation :=
  match m.type with
  | .operation => m.payload.operations
  | .syncResponse => m.payload.operations
  | _ => []

/-- What a message makes the session apply is what it carries. -/
theorem Message.effective_subset (m : Message) : m.effective ⊆ m.payload.operations := by
  rw [effective]
  split <;> simp

/-- The operations that messages carry. -/
def operationsOf (ms : List Message) : List Operation := ms.flatMap (·.payload.operations)

@[simp] theorem operationsOf_nil : operationsOf [] = [] := rfl

@[simp] theorem operationsOf_append (ms ms' : List Message) :
    operationsOf (ms ++ ms') = operationsOf ms ++ operationsOf ms' :=
  List.flatMap_append

/-- An operation among several messages is in one of them. -/
theorem mem_operationsOf {ms : List Message} {op : Operation} :
    op ∈ operationsOf ms ↔ ∃ m ∈ ms, op ∈ m.payload.operations :=
  List.mem_flatMap

namespace EditorSession

open Except (leaving)

/-- The operations a session has applied. -/
def history (s : EditorSession) : Set Operation := {op | op ∈ s.log.operationHistory}

variable {s t u : EditorSession} {ops ops' : List Operation} {ms ms' : List Message}

/-- **What a call does**: `ops` were applied and `ms` queued. -/
structure Does (ops : List Operation) (ms : List Message) (s t : EditorSession) : Prop where
  clientId : t.clientId = s.clientId
  site : t.gen.clientId = s.gen.clientId
  incoming : t.incomingQueue = s.incomingQueue
  outgoing : t.outgoingQueue = s.outgoingQueue ++ ms
  sub : t.history ⊆ s.history ∪ {op | op ∈ ops}
  sup : s.history ⊆ t.history
  kept : s.appliedOperations ⊆ t.appliedOperations
  applied : ∀ op ∈ ops, op.serialize ∈ t.appliedOperations

/-- A call that takes operations from elsewhere moves the clock past them. -/
structure Takes (ops : List Operation) (ms : List Message) (s t : EditorSession) : Prop extends
    Does ops ms s t where
  clock : s.gen.lamportClock ≤ t.gen.lamportClock
  passed : ∀ oper, .insert oper ∈ ops → oper.ident.lamport ≤ t.gen.lamportClock

/-- Doing nothing. -/
theorem does_refl (s : EditorSession) : Does [] [] s s where
  clientId := rfl
  site := rfl
  incoming := rfl
  outgoing := (List.append_nil _).symm
  sub := Set.subset_union_left
  sup := subset_rfl
  kept := subset_rfl
  applied _ h := absurd h List.not_mem_nil

/-- One call after the other. -/
theorem Does.trans (h : Does ops ms s t) (h' : Does ops' ms' t u) :
    Does (ops ++ ops') (ms ++ ms') s u where
  clientId := h'.clientId.trans h.clientId
  site := h'.site.trans h.site
  incoming := h'.incoming.trans h.incoming
  outgoing := by rw [h'.outgoing, h.outgoing, List.append_assoc]
  sub op hop := by
    rcases h'.sub hop with hop | hop
    · exact (h.sub hop).imp id (List.mem_append_left _)
    · exact Or.inr (List.mem_append_right _ hop)
  sup := h.sup.trans h'.sup
  kept := h.kept.trans h'.kept
  applied op hop := by
    rcases List.mem_append.1 hop with hop | hop
    · exact h'.kept (h.applied op hop)
    · exact h'.applied op hop

/-- Taking nothing. -/
theorem takes_refl (s : EditorSession) : Takes [] [] s s :=
  ⟨does_refl s, le_rfl, fun _ h => absurd h List.not_mem_nil⟩

/-- One message after the other. -/
theorem Takes.trans (h : Takes ops ms s t) (h' : Takes ops' ms' t u) :
    Takes (ops ++ ops') (ms ++ ms') s u where
  toDoes := h.toDoes.trans h'.toDoes
  clock := h.clock.trans h'.clock
  passed oper hop := by
    rcases List.mem_append.1 hop with hop | hop
    · exact (h.passed oper hop).trans h'.clock
    · exact h'.passed oper hop

/-- A call that queues, and leaves the rest alone. -/
theorem does_queueOutgoingMessage (s : EditorSession) (m : Message) :
    Does [] [m] s (s.queueOutgoingMessage m) :=
  { does_refl s with outgoing := rfl }

/-- A change of the caret or of the carets of others. -/
theorem does_carets (s : EditorSession) (cursor : Cursor) (remote pending : UMap Str ElementID) :
    Does [] [] s { s with
      cursor := cursor, remoteCursors := remote, pendingCursorUpdates := pending } :=
  { does_refl s with }

/-! ## Applying -/

/-- The session that has recorded an operation and applied it to its document. -/
def admitted (s : EditorSession) (op : Operation) (d : Document) : EditorSession :=
  { s with
    appliedOperations := insert op.serialize s.appliedOperations
    log := s.log.record op
    doc := d }

/-- **What `apply_operation` does.**  A caret of another client moves only off a removed element. -/
structure Applies (op : Operation) (s t : EditorSession) : Prop extends Does [op] [] s t where
  gen : t.gen = s.gen
  pending : t.pendingCursorUpdates = s.pendingCursorUpdates
  remote : ∀ id, AList.lookup id t.remoteCursors = AList.lookup id s.remoteCursors ∨
    ∃ x, x ≠ rootId ∧ op = .remove ⟨x⟩ ∧ AList.lookup id s.remoteCursors = some x

/-- The carets of others move off the removed element, and only off it. -/
theorem applies_updateRemoteCursors {op : Operation} (h : Applies op s t)
    (hremote : t.remoteCursors = s.remoteCursors) :
    (t.updateRemoteCursors op).Ends (Applies op s) (Applies op s) := by
  cases op with
  | insert oper => exact h
  | remove oper =>
    refine Except.ends_foldlM (I := fun l u => (∀ e ∈ l, e ∈ s.remoteCursors.entries) ∧
      Applies (.remove oper) s u) (fun e l u hu => ?_) ⟨fun e he => hremote ▸ he, h⟩ |>.imp
      (fun _ hu => hu.2) fun _ hu => hu
    obtain ⟨hl, hu⟩ := hu
    have hrest := fun e' he' => hl e' (List.mem_cons_of_mem _ he')
    rw [updateRemoteCursor]
    refine Except.ends_ite (fun he => ?_) fun _ => ⟨hrest, hu⟩
    refine Except.ends_leaving_bind (fun y hy => ⟨hrest, ?_⟩) hu
    refine { hu with
      clientId := hu.clientId
      remote := fun id => ?_ }
    have hentry : AList.lookup e.1 s.remoteCursors = some oper.theTarget :=
      he ▸ UMap.mem_entries.1 (hl e List.mem_cons_self)
    rw [UMap.lookup_insert]
    split
    case isTrue hid =>
      subst hid
      by_cases hr : oper.theTarget = rootId
      · rw [Document.visiblePredecessor, if_pos hr] at hy
        obtain rfl := Except.ok.inj hy
        exact Or.inl (by rw [hentry, hr])
      · exact Or.inr ⟨oper.theTarget, hr, rfl, hentry⟩
    case isFalse => exact hu.remote id

/-- **`apply_operation`**, returned or thrown. -/
theorem applies_applyOperation (s : EditorSession) (op : Operation) (b : Bool) :
    (s.applyOperation op b).Ends (Applies op s) (Applies op s) := by
  rw [applyOperation]
  refine Except.ends_ite (fun hm => ?_) fun hn => ?_
  · refine { does_refl s with
      sub := Set.subset_union_left
      applied := fun o ho => List.mem_singleton.1 ho ▸ hm
      gen := rfl
      pending := rfl
      remote := fun _ => Or.inl rfl }
  have hrecord : ∀ o, o ∈ (s.log.record op).operationHistory → o ∈ s.log.operationHistory ∨ o = op :=
    fun o ho => by
      rw [OperationLog.record] at ho
      split at ho
      · exact Or.inl ho
      · exact (List.mem_append.1 ho).imp id List.mem_singleton.1
  have hold : ∀ o ∈ s.log.operationHistory, o ∈ (s.log.record op).operationHistory := fun o ho => by
    rw [OperationLog.record]
    split
    · exact ho
    · exact List.mem_append_left _ ho
  have hadmitted : ∀ d, Applies op s (s.admitted op d) := fun d =>
    { clientId := rfl
      site := rfl
      incoming := rfl
      outgoing := (List.append_nil _).symm
      sub := fun o ho => (hrecord o ho).imp id List.mem_singleton.2
      sup := fun o ho => hold o ho
      kept := Finset.subset_insert _ _
      applied := fun o ho => List.mem_singleton.1 ho ▸ Finset.mem_insert_self _ _
      gen := rfl
      pending := rfl
      remote := fun _ => Or.inl rfl }
  refine Except.Ends.bind (P := fun t => Applies op s t ∧ t.remoteCursors = s.remoteCursors) ?_
    fun t ht => Except.ends_leaving_bind (fun cursor _ => ?_) ht.1
  · unfold applyToDocument
    split
    · exact ⟨hadmitted _, rfl⟩
    · exact hadmitted _
  · exact applies_updateRemoteCursors { ht.1 with clientId := ht.1.clientId } ht.2

/-! ## Messages -/

/-- **One remote operation**, whether the document takes it or throws. -/
theorem takes_applyRemote (s : EditorSession) (op : Operation) :
    (s.applyRemote op).Ends (Takes [op] [] s) (Takes [op] [] s) := by
  have hsync : Takes [] [] s (s.syncClock op) ∧
      ∀ oper, op = .insert oper → oper.ident.lamport ≤ (s.syncClock op).gen.lamportClock := by
    cases op with
    | remove oper => exact ⟨takes_refl s, fun _ h => by cases h⟩
    | insert oper =>
      have hmax : (s.syncClock (.insert oper)).gen.lamportClock =
          max s.gen.lamportClock oper.ident.lamport := rfl
      refine ⟨{ takes_refl s with clientId := rfl, clock := ?_, passed := ?_ }, fun oper' he => ?_⟩
      · rw [hmax]
        exact le_max_left _ _
      · exact fun _ h => absurd h List.not_mem_nil
      · obtain rfl := Operation.insert.inj he
        rw [hmax]
        exact le_max_right _ _
  have happlied : ∀ t, Applies op (s.syncClock op) t → Takes [op] [] s t := fun t ht =>
    { toDoes := hsync.1.toDoes.trans ht.toDoes
      clock := ht.gen ▸ hsync.1.clock
      passed := fun oper ho => ht.gen ▸ hsync.2 oper (List.mem_singleton.1 ho).symm }
  exact (applies_applyOperation _ op false).imp happlied happlied

/-- A history: all of it, or what comes up to an exception. -/
theorem takes_foldlM_applyRemote : ∀ (ops : List Operation) (s : EditorSession),
    (ops.foldlM applyRemote s).Ends (Takes ops [] s) (fun t => ∃ ops' ⊆ ops, Takes ops' [] s t)
  | [], s => takes_refl s
  | op :: ops, s => by
      rw [List.foldlM_cons]
      have hfirst : [op] ⊆ op :: ops := List.cons_subset_cons op (List.nil_subset ops)
      refine ((takes_applyRemote s op).imp (fun _ ht => ht) fun t ht => ⟨_, hfirst, ht⟩).bind
        fun t ht => ?_
      refine (takes_foldlM_applyRemote ops t).imp (fun u hu => ht.trans hu) ?_
      rintro u ⟨ops', hsub, hu⟩
      exact ⟨op :: ops', List.cons_subset_cons op hsub, ht.trans hu⟩

/-- A change of the carets only. -/
theorem takes_carets (s : EditorSession) (cursor : Cursor) (remote pending : UMap Str ElementID) :
    Takes [] [] s { s with
      cursor := cursor, remoteCursors := remote, pendingCursorUpdates := pending } :=
  { does_carets s cursor remote pending with
    clock := le_rfl
    passed := fun _ h => absurd h List.not_mem_nil }

/-- Looking again for the elements of waiting carets takes nothing. -/
theorem takes_updatePendingCursorUpdates (s : EditorSession) :
    s.updatePendingCursorUpdates.Ends (Takes [] [] s) (Takes [] [] s) := by
  refine Except.ends_foldlM (I := fun _ => Takes [] [] s) (fun e _ t ht => ?_) (takes_refl s)
  rw [updatePendingCursor]
  refine Except.ends_leaving_bind (fun resolved _ => ?_) ht
  cases resolved with
  | none => exact ht
  | some _ => exact ht.trans (takes_carets t t.cursor _ _)

/-- Nor does a caret of another client. -/
theorem takes_receiveCursorUpdate (s : EditorSession) (clientId : Str) (position : ElementID) :
    (s.receiveCursorUpdate clientId position).Ends (Takes [] [] s) (Takes [] [] s) := by
  rw [receiveCursorUpdate]
  refine Except.ends_leaving_bind (fun resolved _ => ?_) (takes_refl s)
  cases resolved with
  | none => exact takes_carets s s.cursor s.remoteCursors _
  | some _ => exact takes_carets s s.cursor _ _

/-- What a session queues when it has taken a message. -/
def replies (m : Message) (t : EditorSession) : List Message :=
  match m.type with
  | .syncResponse => [⟨.syncComplete, t.clientId, .monostate⟩,
      ⟨.cursorUpdate, t.clientId, .cursorUpdate t.cursor.anchor⟩]
  | _ => []

/-- **`apply`**: a message is taken, or the session throws and queues nothing. -/
theorem takes_apply (s : EditorSession) (m : Message) :
    (s.apply m).Ends (fun t => Takes m.effective (replies m t) s t)
      (fun t => ∃ ops ⊆ m.effective, Takes ops [] s t) := by
  have hthrow : ∀ ops', ∃ ops ⊆ ops', Takes ops [] s s := fun ops' =>
    ⟨[], List.nil_subset ops', takes_refl s⟩
  rw [apply, Message.effective]
  unfold replies
  cases m.type with
  | operation =>
    refine Except.ends_leaving_bind (fun oper hoper => ?_) (hthrow _)
    have hops : m.payload.operations = [oper] := by
      cases hp : m.payload <;> rw [hp] at hoper <;> cases hoper
      rfl
    rw [hops]
    refine ((takes_applyRemote s oper).imp (fun _ ht => ht) fun t ht =>
      ⟨_, List.Subset.refl _, ht⟩).bind fun t ht => ?_
    exact (takes_updatePendingCursorUpdates t).imp (fun u hu => ht.trans hu)
      fun u hu => ⟨_, List.Subset.refl _, ht.trans hu⟩
  | syncResponse =>
    refine Except.ends_leaving_bind (fun history hhistory => ?_) (hthrow _)
    have hops : m.payload.operations = history := by
      cases hp : m.payload <;> rw [hp] at hhistory <;> cases hhistory
      rfl
    rw [hops, applyHistory]
    refine Except.Ends.bind (P := Takes history [] s) ?_ fun t ht => ?_
    · refine (takes_foldlM_applyRemote history s).bind fun t ht => ?_
      have hall (u : EditorSession) (hu : Takes [] [] t u) : Takes history [] s u := by
        have := ht.trans hu
        rwa [List.append_nil] at this
      exact (takes_updatePendingCursorUpdates t).imp hall
        fun u hu => ⟨_, List.Subset.refl _, hall u hu⟩
    · exact { ht with
        clientId := ht.clientId
        outgoing := by
          change (t.outgoingQueue ++ [_]) ++ [_] = _
          rw [ht.outgoing, List.append_nil, List.append_assoc]
          rfl }
  | cursorUpdate =>
    refine Except.ends_leaving_bind (fun position _ => ?_) (hthrow _)
    exact (takes_receiveCursorUpdate s m.sender position).imp (fun _ ht => ht)
      fun t ht => ⟨_, List.Subset.refl _, ht⟩
  | hello | helloAck | syncRequest | syncComplete | openDocument => exact takes_refl s

/-- **A flush**, whether it returns or throws. -/
theorem takes_foldlM_apply : ∀ (ms : List Message) (s : EditorSession),
    (ms.foldlM apply s).Ends (fun t => ∃ queued, Takes (ms.flatMap (·.effective)) queued s t)
      (fun t => ∃ ops queued, Takes ops queued s t)
  | [], s => ⟨[], takes_refl s⟩
  | m :: ms, s => by
      rw [List.foldlM_cons]
      refine ((takes_apply s m).imp (fun _ ht => ht) ?_).bind fun t ht => ?_
      · rintro t ⟨ops, -, ht⟩
        exact ⟨ops, [], ht⟩
      refine (takes_foldlM_apply ms t).imp ?_ ?_
      · rintro u ⟨queued, hu⟩
        exact ⟨_, ht.trans hu⟩
      · rintro u ⟨ops, queued, hu⟩
        exact ⟨_, _, ht.trans hu⟩

/-! ## Commands -/

/-- A command that the handler takes: its operations, one by one, then the column. -/
theorem handleEditorCommand_eq {command : EditorCommand} {h : InputHandler}
    {ops : List Operation} (hr : s.handler.processCommand command = .ok (h, ops)) :
    s.handleEditorCommand command =
      ops.foldlM perform (s.put h) >>= fun t => t.rememberColumn command := by
  rw [handleEditorCommand, processCommand, hr]
  rfl

/-- The messages that announce operations. -/
def announce (s : EditorSession) (ops : List Operation) : List Message :=
  ops.map fun op => ⟨.operation, s.clientId, .operation op⟩

/-- Every operation is announced in a message of its own. -/
theorem operationsOf_announce (s : EditorSession) (ops : List Operation) :
    operationsOf (s.announce ops) = ops := by
  rw [operationsOf, announce, List.flatMap_map]
  exact List.flatMap_singleton' ops

/-- **One local operation** is applied and queued. -/
theorem does_perform {op : Operation} (h : s.perform op = .ok t) :
    Does [op] (s.announce [op]) s t ∧ t.gen = s.gen := by
  have happlies := applies_applyOperation s op true
  obtain ⟨u, hu, h⟩ := Except.bind_eq_ok.mp h
  obtain rfl := Except.ok.inj h
  rw [hu] at happlies
  replace happlies : Applies op s u := happlies
  have hannounce : s.announce [op] = [⟨.operation, u.clientId, .operation op⟩] := by
    rw [announce, ← happlies.clientId]
    rfl
  rw [hannounce]
  exact ⟨happlies.toDoes.trans (does_queueOutgoingMessage u _), happlies.gen⟩

/-- Then those that the command asks for, in order. -/
theorem does_foldlM_perform : ∀ {ops : List Operation} {s t : EditorSession},
    ops.foldlM perform s = .ok t → Does ops (s.announce ops) s t ∧ t.gen = s.gen
  | [], s, t, h => by
      obtain rfl := Except.ok.inj h
      exact ⟨does_refl s, rfl⟩
  | op :: ops, s, t, h => by
      rw [List.foldlM_cons, Except.bind_eq_ok] at h
      obtain ⟨u, hu, h⟩ := h
      obtain ⟨hfirst, hgen⟩ := does_perform hu
      obtain ⟨hrest, hgen'⟩ := does_foldlM_perform h
      rw [announce, hfirst.clientId] at hrest
      exact ⟨hfirst.trans hrest, hgen'.trans hgen⟩

/-- Remembering the column sets nothing else. -/
theorem exists_of_rememberColumn {command : EditorCommand} (h : s.rememberColumn command = .ok t) :
    ∃ column, t = { s with cursor := { s.cursor with desiredColumn := column } } := by
  rw [rememberColumn] at h
  split at h
  case isTrue =>
    obtain ⟨cursor, hc, h⟩ := Except.bind_eq_ok.mp h
    obtain ⟨p, -, hp⟩ := Except.bind_eq_ok.mp (Except.leaving_eq_ok.mp hc)
    obtain rfl := Except.ok.inj hp
    exact ⟨some p.2, (Except.ok.inj h).symm⟩
  case isFalse => exact ⟨s.cursor.desiredColumn, (Except.ok.inj h).symm⟩

/-- Remembering the column touches the cursor only. -/
theorem does_rememberColumn {command : EditorCommand} (h : s.rememberColumn command = .ok t) :
    Does [] [] s t ∧ t.gen = s.gen := by
  obtain ⟨column, rfl⟩ := exists_of_rememberColumn h
  exact ⟨does_carets s _ _ _, rfl⟩

/-- What a command that returned did. -/
theorem does_handleEditorCommand {command : EditorCommand} {h : InputHandler}
    (hrun : s.handler.processCommand command = .ok (h, ops)) (hsite : h.gen.clientId = s.gen.clientId)
    (ht : s.handleEditorCommand command = .ok t) : Does ops (s.announce ops) s t ∧ t.gen = h.gen := by
  rw [handleEditorCommand_eq hrun, Except.bind_eq_ok] at ht
  obtain ⟨u, hu, ht⟩ := ht
  have hput : Does [] [] s (s.put h) := { does_refl s with site := hsite }
  obtain ⟨hperform, hgen⟩ := does_foldlM_perform hu
  obtain ⟨hcolumn, hgen'⟩ := does_rememberColumn ht
  have hdoes := (hput.trans hperform).trans hcolumn
  rw [List.nil_append, List.nil_append, List.append_nil, List.append_nil] at hdoes
  exact ⟨hdoes, hgen'.trans hgen⟩

/-- A NUL is not typed: the session stays as it is. -/
theorem state_handleEditorCommand_nul {command : EditorCommand} (h0 : command.typed = some 0) :
    (s.handleEditorCommand command).state = s := by
  obtain ⟨type, character⟩ := command
  cases type with
  | insertCharacter =>
    obtain rfl : character = 0 := Option.some.inj h0
    rfl
  | enter => exact absurd (Option.some.inj h0) (by decide)
  | _ => cases h0

end EditorSession

end CrdtEditor
