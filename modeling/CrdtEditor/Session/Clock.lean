import CrdtEditor.Document.Source
import CrdtEditor.Editor.Roaming
import CrdtEditor.Session.OperationLog
import CrdtEditor.Session.Tree
import CrdtEditor.Session.Turns
import CrdtEditor.Wire.Canonical

/-!
# Session/Clock — the ids a session draws

`Id_generator::next` counts a 64-bit clock up, and `sync_clock` lifts it to the clock value of every
insert received, whatever the value.  So the clock is the largest clock value that the session has met
(`Synced`), and an id drawn is above all of them until the clock stands at its limit, where it wraps
around to 0: `dominates_iff`.
-/

namespace CrdtEditor

open Text

open Except (leaving)

/-- The insert that an operation is. -/
def Operation.inserted : Operation → Option InsertOperation
  | insert oper => some oper
  | remove _ => none

/-- Below its limit the clock counts up. -/
theorem IdGenerator.clock_lt_upcoming {g : IdGenerator} (hroom : g.lamportClock.toNat + 1 < 2 ^ 64) :
    g.lamportClock < g.upcoming.lamport := by
  have hnext : g.upcoming.lamport.toNat = g.lamportClock.toNat + 1 := by
    rw [upcoming, UInt64.toNat_add]
    exact Nat.mod_eq_of_lt hroom
  rw [UInt64.lt_iff_toNat_lt, hnext]
  exact Nat.lt_succ_self _

theorem Cursor.anchor_of_updateDesiredColumn {d : Document} {c c' : Cursor}
    (h : c.updateDesiredColumn d = .ok c') : c'.anchor = c.anchor := by
  rw [updateDesiredColumn] at h
  cases hp : c.getLineColumn d with
  | error e =>
    rw [hp] at h
    cases h
  | ok p =>
    rw [hp] at h
    obtain rfl := Except.ok.inj h
    rfl

namespace EditorSession

variable {s t : EditorSession} {op : Operation} {drawn : List ElementID}

/-- The inserts that an input makes; `next` returned their ids. -/
def inserts (s : EditorSession) : Input → List InsertOperation
  | .command command =>
    match s.handler.processCommand command with
    | .ok (_, ops) => ops.filterMap Operation.inserted
    | .error _ => []
  | _ => []

/-- An input; a message that is received was read from a body. -/
abbrev ReadInput := {i : Input // ∀ m, i = .receive m → ∃ body, Message.deserialize body = .ok m}

/-- One input, on a session and the ids it has drawn. -/
def draw (c : EditorSession × List ElementID) (i : ReadInput) : EditorSession × List ElementID :=
  ((c.1.input i.1).state, c.2 ++ (c.1.inserts i.1).map (·.ident))

/-- An id that the session has applied or buffered. -/
def Seen (s : EditorSession) (x : ElementID) : Prop :=
  x ∈ s.doc.elements ∨ (∃ oper ∈ UMap.contents s.doc.bufferedInserts, oper.ident = x) ∨
    ∃ oper, .insert oper ∈ s.log.operationHistory ∧ oper.ident = x

/-- An id that is drawn is above everything seen or drawn before, and its element becomes the first child
of its parent. -/
def Dominates (c : EditorSession × List ElementID) (i : ReadInput) : Prop :=
  ∀ oper ∈ c.1.inserts i.1, (∀ x, c.1.Seen x ∨ x ∈ c.2 → x < oper.ident) ∧
    ((draw c i).1.doc.childrenOf oper.parent).head? = some oper.ident

/-- What is asked of an input: where it types a character, the clock is below its limit. -/
def Room (s : EditorSession) : Input → Prop
  | .command command =>
    (∃ c, command.typed = some c ∧ c ≠ 0) → s.gen.lamportClock.toNat + 1 < 2 ^ 64
  | _ => True

/-! ## What the clock keeps -/

/-- An insert without a bar in its ids, or with an id of this session. -/
def Legible (s : EditorSession) : Operation → Prop
  | .insert oper => (Operation.insert oper).Avoids bar ∨ oper.ident.siteId = s.gen.clientId
  | .remove _ => True

/-- The document is that of the log, the set of texts shadows the log, and the clock has passed it. -/
structure Logged (s : EditorSession) : Prop where
  doc : s.doc = .after s.log.operationHistory
  recorded : s.log.recordedOperations = s.appliedOperations
  shadowed : s.log.Shadowed
  legible : ∀ op ∈ s.history, s.Legible op
  clock : ∀ x, s.Names x → x.lamport ≤ s.gen.lamportClock

/-- The clock is a clock value met, and the caret is behind an element. -/
structure Synced (drawn : List ElementID) (s : EditorSession) : Prop extends Logged s where
  reached : ∃ x, s.Names x ∧ x.lamport = s.gen.lamportClock
  drawn : ∀ x ∈ drawn, s.Names x
  anchor : s.cursor.anchor ∈ s.doc.elements
  queued : ∀ m ∈ s.incomingQueue, ∀ op ∈ m.payload.operations, op.Avoids bar

theorem legible_of_avoids (h : op.Avoids bar) : s.Legible op := by
  cases op with
  | insert oper => exact Or.inl h
  | remove oper => exact trivial

theorem Legible.congr (h : s.Legible op) (hgen : t.gen.clientId = s.gen.clientId) : t.Legible op := by
  cases op with
  | insert oper => exact h.imp id fun hsite => hsite.trans hgen.symm
  | remove oper => exact trivial

namespace Logged

theorem tree (h : Logged s) : s.doc.IsTree := h.doc ▸ Document.isTree_after _

theorem sourced (h : Logged s) :
    s.doc.Sourced {x | ∃ oper, .insert oper ∈ s.log.operationHistory ∧ oper.ident = x} := by
  rw [h.doc]
  exact Document.sourced_after _

/-- What a session has seen is what its log names. -/
theorem seen_iff (h : Logged s) {x : ElementID} : s.Seen x ↔ s.Names x := by
  constructor
  · rintro (hx | ⟨oper, ho, rfl⟩ | hx)
    exacts [h.sourced.element x hx, Or.inr (h.sourced.buffered oper ho), Or.inr hx]
  · rintro (rfl | hx)
    exacts [Or.inl h.tree.root_mem, Or.inr (Or.inr hx)]

/-- The id of an insert whose text was applied before is known. -/
theorem names_of_applied (h : Logged s) {oper : InsertOperation} (hop : s.Legible (.insert oper))
    (hm : (Operation.insert oper).serialize ∈ s.appliedOperations) : s.Names oper.ident := by
  obtain ⟨op, hmem, he⟩ := h.shadowed.mem_recorded.mp (h.recorded ▸ hm)
  cases op with
  | remove oper' => exact absurd (Operation.eq_remove_of_serialize he.symm) (by simp)
  | insert oper' =>
    refine Or.inr ⟨oper', hmem, ?_⟩
    obtain hbar | hsite := hop
    · exact congrArg InsertOperation.ident
        (Operation.insert.inj (Operation.eq_of_serialize_eq hbar he.symm)).symm
    obtain hbar | hsite' := h.legible _ hmem
    · exact congrArg InsertOperation.ident (Operation.insert.inj (Operation.eq_of_serialize_eq hbar he))
    · exact Operation.ident_eq_of_serialize_eq (hsite'.trans hsite.symm) he

end Logged

/-! ## One operation -/

/-- An operation whose text is new goes into the log and to the document, and the caret stays behind an
element. -/
structure Admits (op : Operation) (s t : EditorSession) : Prop where
  doc : t.doc = (s.doc.apply op).state
  log : t.log = s.log.record op
  applied : t.appliedOperations = insert op.serialize s.appliedOperations
  gen : t.gen = s.gen
  incoming : t.incomingQueue = s.incomingQueue
  anchor : t.cursor.anchor ∈ t.doc.elements

/-- The caret of this client follows an operation from element to element. -/
theorem anchor_mem_of_update {d : Document} {c c' : Cursor} {b : Bool} (ht : d.IsTree)
    (hc : c.anchor ∈ d.elements)
    (hb : ∀ oper, op = .insert oper → b = true → oper.parent ≠ c.anchor)
    (h : (if b then c.update d op else c.updateOnRemote d op) = .ok c') : c'.anchor ∈ d.elements := by
  cases op with
  | insert oper =>
    obtain rfl : c = c' := by
      cases b with
      | false => exact Except.ok.inj h
      | true =>
        have hupdate : c.updateOnInsert oper = c := if_neg (hb oper rfl rfl)
        exact hupdate.symm.trans (Except.ok.inj h)
    exact hc
  | remove oper =>
    have h : c.updateOnDelete d oper = .ok c' := by
      cases b with
      | false => exact h
      | true => exact h
    obtain ⟨-, rfl⟩ | ⟨htarget, y, hy, rfl⟩ := Cursor.updateOnDelete_cases h
    · exact hc
    · exact ht.mem_of_visiblePredecessor (htarget ▸ hc) hy

theorem admits_applyOperation {b : Bool} (ht : s.doc.IsTree)
    (hn : op.serialize ∉ s.appliedOperations)
    (ha : s.cursor.anchor ∈ (s.doc.apply op).state.elements)
    (hb : ∀ oper, op = .insert oper → b = true → oper.parent ≠ s.cursor.anchor) :
    (s.applyOperation op b).Ends (Admits op s) (Admits op s) := by
  have hremote (t : EditorSession) (h : Admits op s t) (remote : UMap Str ElementID) :
      Admits op s { t with remoteCursors := remote } :=
    ⟨h.doc, h.log, h.applied, h.gen, h.incoming, h.anchor⟩
  rw [applyOperation]
  refine Except.ends_ite (fun hm => absurd hm hn) fun _ => ?_
  refine Except.Ends.bind (P := fun t => Admits op s t ∧ t.cursor = s.cursor) ?_ fun t hu =>
    Except.ends_leaving_bind (fun cursor hcursor => ?_) hu.1
  · rw [applyToDocument]
    cases hd : s.doc.apply op with
    | ok d =>
      rw [hd] at ha
      exact ⟨⟨by rw [hd]; rfl, rfl, rfl, rfl, rfl, ha⟩, rfl⟩
    | error e =>
      rw [hd] at ha
      exact ⟨by rw [hd]; rfl, rfl, rfl, rfl, rfl, ha⟩
  · have htree : t.doc.IsTree := hu.1.doc ▸ (ht.apply op).1
    have hmem := anchor_mem_of_update htree hu.1.anchor (hu.2 ▸ hb) hcursor
    have hmoved : Admits op s { t with cursor := cursor } :=
      ⟨hu.1.doc, hu.1.log, hu.1.applied, hu.1.gen, hu.1.incoming, hmem⟩
    cases op with
    | insert oper => exact hmoved
    | remove oper =>
      refine Except.ends_foldlM (I := fun _ => Admits _ s) (fun e _ u hu => ?_) hmoved
      exact Except.ends_ite
        (fun _ => Except.ends_leaving_bind (fun _ _ => hremote u hu _) hu) fun _ => hu

/-- **A new operation stays on record.** -/
theorem Logged.admit (h : Logged s) (hop : s.Legible op)
    (hclock : ∀ oper, op = .insert oper → oper.ident.lamport ≤ s.gen.lamportClock)
    (hn : op.serialize ∉ s.appliedOperations) (ht : Admits op s t) :
    Logged t ∧ t.history = insert op s.history := by
  have hlog : t.log.operationHistory = s.log.operationHistory ++ [op] := by
    rw [ht.log, OperationLog.record, if_neg (h.recorded ▸ hn)]
  have hhistory : t.history = insert op s.history := by
    ext op'
    simp [history, hlog, or_comm]
  have hsite : t.gen.clientId = s.gen.clientId := by rw [ht.gen]
  refine ⟨⟨?_, ?_, ?_, ?_, ?_⟩, hhistory⟩
  · rw [ht.doc, hlog, Document.after_append_singleton, ← h.doc]
  · rw [ht.log, OperationLog.record, if_neg (h.recorded ▸ hn), ht.applied, h.recorded]
  · rw [ht.log]
    exact h.shadowed.record op
  · rw [hhistory]
    rintro op' (rfl | hop')
    exacts [hop.congr hsite, (h.legible _ hop').congr hsite]
  · rw [ht.gen]
    rintro x (rfl | ⟨oper, ho, rfl⟩)
    · exact h.clock _ (Or.inl rfl)
    · rw [hhistory] at ho
      obtain he | ho := ho
      exacts [hclock oper he.symm, h.clock _ (Or.inr ⟨oper, ho, rfl⟩)]

/-- What `apply_operation` does to a session with its caret behind an element. -/
structure Absorbs (op : Operation) (s t : EditorSession) : Prop where
  logged : Logged t
  sub : s.history ⊆ t.history
  names : ∀ oper, op = .insert oper → t.Names oper.ident
  gen : t.gen = s.gen
  incoming : t.incomingQueue = s.incomingQueue
  anchor : t.cursor.anchor ∈ t.doc.elements

/-- **A removal, or an operation from elsewhere, is absorbed.** -/
theorem Logged.applyOperation {b : Bool} (h : Logged s) (ha : s.cursor.anchor ∈ s.doc.elements)
    (hop : s.Legible op)
    (hclock : ∀ oper, op = .insert oper → b = false ∧ oper.ident.lamport ≤ s.gen.lamportClock) :
    (s.applyOperation op b).Ends (Absorbs op s) (Absorbs op s) := by
  by_cases hm : op.serialize ∈ s.appliedOperations
  · rw [applyOperation_of_applied hm]
    refine ⟨h, subset_rfl, fun oper he => ?_, rfl, rfl, ha⟩
    subst he
    exact h.names_of_applied hop hm
  · have habsorbs (t : EditorSession) (ht : Admits op s t) : Absorbs op s t := by
      obtain ⟨hlogged, hhistory⟩ := h.admit hop (fun oper he => (hclock oper he).2) hm ht
      refine ⟨hlogged, ?_, fun oper he => ?_, ht.gen, ht.incoming, ht.anchor⟩
      · rw [hhistory]
        exact Set.subset_insert _ _
      · exact Or.inr ⟨oper, by rw [hhistory, he]; exact Set.mem_insert _ _, rfl⟩
    have hkept : s.cursor.anchor ∈ (s.doc.apply op).state.elements := (h.tree.apply op).2.mem ha
    refine (admits_applyOperation h.tree hm hkept fun oper he hb => ?_).imp habsorbs habsorbs
    rw [(hclock oper he).1] at hb
    cases hb

namespace Synced

/-- A session that goes on from a synced one. -/
theorem follow (h : Synced drawn s) (ht : Logged t) (hsub : s.history ⊆ t.history)
    (hreached : t.gen.lamportClock = s.gen.lamportClock ∨
      ∃ x, t.Names x ∧ x.lamport = t.gen.lamportClock)
    (ha : t.cursor.anchor ∈ t.doc.elements)
    (hq : ∀ m ∈ t.incomingQueue, ∀ op ∈ m.payload.operations, op.Avoids bar) : Synced drawn t := by
  refine ⟨ht, ?_, fun x hx => (h.drawn x hx).mono hsub, ha, hq⟩
  obtain he | hx := hreached
  · obtain ⟨x, hx, hclock⟩ := h.reached
    exact ⟨x, hx.mono hsub, hclock.trans he.symm⟩
  · exact hx

/-- Two sessions that differ in their carets or their queues. -/
theorem congr (h : Synced drawn s) (hdoc : t.doc = s.doc) (hlog : t.log = s.log) (hgen : t.gen = s.gen)
    (happ : t.appliedOperations = s.appliedOperations) (ha : t.cursor.anchor ∈ s.doc.elements)
    (hq : ∀ m ∈ t.incomingQueue, ∀ op ∈ m.payload.operations, op.Avoids bar) : Synced drawn t := by
  have hhistory : t.history = s.history := by rw [history, history, hlog]
  refine h.follow ⟨?_, ?_, hlog ▸ h.shadowed, fun op hop => ?_, fun x hx => ?_⟩ hhistory.symm.subset
    (Or.inl (by rw [hgen])) (hdoc ▸ ha) hq
  · rw [hdoc, hlog, h.doc]
  · rw [hlog, happ, h.recorded]
  · exact (h.legible op (hhistory ▸ hop)).congr (by rw [hgen])
  · rw [hgen]
    exact h.clock x (hx.mono hhistory.subset)

/-- A removal, of this client or another. -/
theorem applyOperation_remove (h : Synced drawn s) (oper : RemoveOperation) (b : Bool) :
    (s.applyOperation (.remove oper) b).Ends (Synced drawn) (Synced drawn) := by
  have hstep : (s.applyOperation (.remove oper) b).Ends (Absorbs (.remove oper) s)
      (Absorbs (.remove oper) s) :=
    h.toLogged.applyOperation h.anchor trivial fun _ he => by cases he
  have hsynced (t : EditorSession) (ht : Absorbs (.remove oper) s t) : Synced drawn t :=
    h.follow ht.logged ht.sub (Or.inl (by rw [ht.gen])) ht.anchor (ht.incoming ▸ h.queued)
  exact hstep.imp hsynced hsynced

theorem applyRemote (h : Synced drawn s) (hop : op.Avoids bar) :
    (s.applyRemote op).Ends (Synced drawn) (Synced drawn) := by
  cases op with
  | remove oper => exact h.applyOperation_remove oper false
  | insert oper =>
    have hsync : Logged (s.syncClock (.insert oper)) :=
      { h.toLogged with
        doc := h.doc
        legible := fun op hop => (h.legible op hop).congr rfl
        clock := fun x hx => (h.clock x hx).trans (le_max_left _ _) }
    have hstep := hsync.applyOperation (b := false) h.anchor (legible_of_avoids hop) fun oper' he => by
      obtain rfl := Operation.insert.inj he
      exact ⟨rfl, le_max_right _ _⟩
    have hsynced (t : EditorSession) (ht : Absorbs (.insert oper) (s.syncClock (.insert oper)) t) :
        Synced drawn t := by
      have hgen : t.gen.lamportClock = max s.gen.lamportClock oper.ident.lamport := by
        rw [ht.gen]
        rfl
      refine h.follow ht.logged ht.sub ?_ ht.anchor (ht.incoming ▸ h.queued)
      rw [hgen]
      obtain he | he := max_choice s.gen.lamportClock oper.ident.lamport
      · exact Or.inl he
      · exact Or.inr ⟨oper.ident, ht.names oper rfl, he.symm⟩
    exact hstep.imp hsynced hsynced

theorem flushIncoming (h : Synced drawn s) :
    s.flushIncoming.Ends (Synced drawn) (Synced drawn) := by
  have hempty : Synced drawn { s with incomingQueue := [] } :=
    h.congr rfl rfl rfl rfl h.anchor fun _ hm => absurd hm List.not_mem_nil
  refine (Except.ends_foldlM (I := fun ms t => (∀ m ∈ ms, ∀ op ∈ m.payload.operations,
    op.Avoids bar) ∧ Synced drawn t) (fun m ms t ht => ?_) ⟨h.queued, hempty⟩).imp
    (fun _ ht => ht.2) fun _ ht => ht
  refine (ends_apply (G := fun op => op.Avoids bar) (fun _ _ hu hop => hu.applyRemote hop)
    (fun u _ _ hu => hu.congr rfl rfl rfl rfl hu.anchor hu.queued)
    (fun u _ hu => hu.congr rfl rfl rfl rfl hu.anchor hu.queued) ht.2
    (ht.1 m List.mem_cons_self)).imp
    (fun u hu => ⟨fun m' hm' => ht.1 m' (List.mem_cons_of_mem m hm'), hu⟩) fun _ hu => hu

theorem rememberColumn (h : Synced drawn s) (command : EditorCommand) :
    (s.rememberColumn command).Ends (fun t => Synced drawn t ∧ t.doc = s.doc)
      fun t => Synced drawn t ∧ t.doc = s.doc := by
  refine Except.ends_ite (fun _ => Except.ends_leaving_bind (fun cursor hc => ?_) ⟨h, rfl⟩) fun _ =>
    ⟨h, rfl⟩
  have hanchor : cursor.anchor = s.cursor.anchor := Cursor.anchor_of_updateDesiredColumn hc
  exact ⟨h.congr rfl rfl rfl rfl (hanchor ▸ h.anchor) h.queued, rfl⟩

/-- A removal that this client makes. -/
theorem perform_remove (h : Synced drawn s) (oper : RemoveOperation) :
    (s.perform (.remove oper)).Ends (Synced drawn) (Synced drawn) :=
  (h.applyOperation_remove oper true).bind fun t ht =>
    ht.congr (t := t.queueOutgoingMessage _) rfl rfl rfl rfl ht.anchor ht.queued

/-- A command that types nothing. -/
theorem command_of_typed_eq_none (h : Synced drawn s) {command : EditorCommand}
    (hc : command.typed = none) :
    s.inserts (.command command) = [] ∧
      (s.handleEditorCommand command).Ends (Synced drawn) (Synced drawn) := by
  have hroams : s.handler.Roams (s.handler.processCommand command) :=
    InputHandler.Near.processCommand h.tree ⟨rfl, rfl, h.anchor⟩ hc
  have hput (g : InputHandler) (hg : s.handler.Near g) : Synced drawn (s.put g) :=
    h.congr hg.doc rfl hg.gen rfl hg.anchor h.queued
  rw [inserts, EditorSession.handleEditorCommand, processCommand]
  cases hr : s.handler.processCommand command with
  | error e =>
    rw [hr] at hroams
    exact ⟨rfl, hput e.2 hroams⟩
  | ok r =>
    rw [hr] at hroams
    obtain ⟨g, ops⟩ := r
    refine ⟨List.filterMap_eq_nil_iff.mpr fun op hop => ?_, ?_⟩
    · obtain ⟨oper, rfl, -⟩ := hroams.2 op hop
      rfl
    change (ops.foldlM perform (s.put g) >>= fun t => t.rememberColumn command).Ends _ _
    refine Except.Ends.bind (P := Synced drawn) ?_ fun t ht =>
      (ht.rememberColumn command).imp (fun _ hu => hu.1) fun _ hu => hu.1
    have hremoves : ∀ op ∈ ops, ∃ oper, op = .remove oper := fun op hop =>
      (hroams.2 op hop).imp fun _ he => he.1
    refine (Except.ends_foldlM (I := fun ops t => (∀ op ∈ ops, ∃ oper, op = .remove oper) ∧
      Synced drawn t) (fun op ops t ht => ?_) ⟨hremoves, hput g hroams.1⟩).imp (fun _ ht => ht.2)
      fun _ ht => ht
    obtain ⟨oper, rfl⟩ := ht.1 op List.mem_cons_self
    exact (ht.2.perform_remove oper).imp
      (fun u hu => ⟨fun o ho => ht.1 o (List.mem_cons_of_mem _ ho), hu⟩) fun _ hu => hu

/-! ## Typing -/

theorem lt_upcoming (h : Synced drawn s) (hroom : s.gen.lamportClock.toNat + 1 < 2 ^ 64)
    {x : ElementID} (hx : s.Names x) : x < s.gen.upcoming :=
  ElementID.lt_of_lamport_lt ((h.clock x hx).trans_lt (IdGenerator.clock_lt_upcoming hroom))

/-- At its limit the clock wraps around, and the id drawn is not above the last. -/
theorem not_lt_upcoming (h : Synced drawn s) (hroom : ¬ s.gen.lamportClock.toNat + 1 < 2 ^ 64) :
    ∃ x, s.Names x ∧ ¬ x < s.gen.upcoming := by
  obtain ⟨x, hx, hclock⟩ := h.reached
  refine ⟨x, hx, fun hlt => ?_⟩
  have hmax : s.gen.lamportClock.toNat = 2 ^ 64 - 1 := by
    have := s.gen.lamportClock.toNat_lt
    omega
  have hwrap : s.gen.upcoming.lamport.toNat = 0 := by
    rw [IdGenerator.upcoming, UInt64.toNat_add, hmax]
    rfl
  rw [ElementID.lt_iff, UInt64.lt_iff_toNat_lt, ← UInt64.toNat_inj, hwrap, hclock, hmax] at hlt
  omega

/-- **A character is typed**, whether the call returns or throws: its insert goes into the log and to the
document, and its id is known from then on. -/
theorem command_of_typed_eq_some (h : Synced drawn s)
    (hroom : s.gen.lamportClock.toNat + 1 < 2 ^ 64) {command : EditorCommand} {c : UInt8}
    (hc : command.typed = some c) (h0 : c ≠ 0) :
    let P (t : EditorSession) : Prop := Synced (drawn ++ [s.gen.upcoming]) t ∧
      t.doc = (s.doc.apply (.insert (s.typed c))).state
    (s.handleEditorCommand command).Ends P P := by
  intro P
  let u := s.put (s.handler.insertCharacter c).1
  have hfresh : ¬ s.Names s.gen.upcoming := fun hx => lt_irrefl _ (h.lt_upcoming hroom hx)
  have hid : s.gen.upcoming ∉ s.doc.elements := fun hx => hfresh (h.sourced.element _ hx)
  have hchild : s.gen.upcoming ∈
      (s.doc.apply (.insert (s.typed c))).state.childrenOf s.cursor.anchor :=
    h.tree.mem_childrenOf_apply hid h.anchor
  have hmem : s.gen.upcoming ∈ (s.doc.apply (.insert (s.typed c))).state.elements :=
    (h.tree.apply _).1.mem_of_mem_childrenOf hchild
  have hlogged : Logged u :=
    { h.toLogged with
      doc := h.doc
      legible := fun op hop => (h.legible op hop).congr rfl
      clock := fun x hx => (h.clock x hx).trans (IdGenerator.clock_lt_upcoming hroom).le }
  have hnew : (Operation.insert (s.typed c)).serialize ∉ u.appliedOperations := fun hm =>
    hfresh (h.names_of_applied (Or.inr rfl) hm)
  have hlegible : u.Legible (.insert (s.typed c)) := Or.inr rfl
  have hclock : ∀ oper, Operation.insert (s.typed c) = .insert oper →
      oper.ident.lamport ≤ u.gen.lamportClock := fun oper he => by
    obtain rfl := Operation.insert.inj he
    exact le_rfl
  have hsynced (t : EditorSession) (ht : Admits (.insert (s.typed c)) u t) : P t := by
    obtain ⟨htlogged, hhistory⟩ := hlogged.admit hlegible hclock hnew ht
    have hsub : s.history ⊆ t.history := by
      rw [hhistory]
      exact Set.subset_insert _ _
    have hx : t.Names s.gen.upcoming :=
      Or.inr ⟨s.typed c, by rw [hhistory]; exact Set.mem_insert _ _, rfl⟩
    refine ⟨⟨htlogged, ⟨_, hx, by rw [ht.gen]; rfl⟩, fun x hm => ?_, ht.anchor,
      ht.incoming ▸ h.queued⟩, ht.doc⟩
    obtain hm | hm := List.mem_append.mp hm
    · exact (h.drawn x hm).mono hsub
    · exact List.mem_singleton.mp hm ▸ hx
  have happly : (u.applyOperation (.insert (s.typed c)) true).Ends P P := by
    refine (admits_applyOperation (s := u) h.tree hnew hmem fun oper he _ => ?_).imp hsynced hsynced
    obtain rfl := Operation.insert.inj he
    exact fun he : s.cursor.anchor = s.gen.upcoming => hid (he ▸ h.anchor)
  have hrun : s.handler.processCommand command =
      .ok ((s.handler.insertCharacter c).1, [.insert (s.typed c)]) :=
    InputHandler.processCommand_of_typed hc h0
  rw [handleEditorCommand_eq hrun, List.foldlM_cons]
  refine Except.Ends.bind (P := P) ?_ fun t ht => ?_
  · refine Except.Ends.bind (P := P) (happly.bind fun t ht => ?_) fun t ht => ht
    exact ⟨ht.1.congr rfl rfl rfl rfl ht.1.anchor ht.1.queued, ht.2⟩
  · exact (ht.1.rememberColumn command).imp (fun v hv => ⟨hv.1, hv.2.trans ht.2⟩)
      fun v hv => ⟨hv.1, hv.2.trans ht.2⟩

/-- The element typed is the first child of its parent. -/
theorem head?_childrenOf_typed (h : Synced drawn s)
    (hroom : s.gen.lamportClock.toNat + 1 < 2 ^ 64) (c : UInt8) :
    ((s.doc.apply (.insert (s.typed c))).state.childrenOf s.cursor.anchor).head? =
      some s.gen.upcoming := by
  have hid : s.gen.upcoming ∉ s.doc.elements := fun hx =>
    lt_irrefl _ (h.lt_upcoming hroom (h.sourced.element _ hx))
  have hbefore : s.doc.Sourced {x | s.Names x ∨ x = s.gen.upcoming} :=
    h.sourced.mono fun _ hx => Or.inl (Or.inr hx)
  have hown : (s.typed c).ident ∈ {x | s.Names x ∨ x = s.gen.upcoming} := Or.inr rfl
  have hsourced : (s.doc.apply (.insert (s.typed c))).state.Sourced _ :=
    (hbefore.applyInsert _ hown).state
  refine h.tree.head?_childrenOf_apply hid h.anchor fun x hx => ?_
  obtain rfl | hx | rfl := hsourced.element x hx
  exacts [(h.lt_upcoming hroom (Or.inl rfl)).le, (h.lt_upcoming hroom hx).le, le_rfl]

/-! ## The mouse -/

theorem mem_of_anchorNear (h : Synced drawn s) {line column : ℕ} {x : ElementID}
    (hx : s.anchorNear line column = .ok (some x)) : x ∈ s.doc.elements := by
  rw [anchorNear] at hx
  cases hp : s.doc.clampPosition line column with
  | error e =>
    rw [hp] at hx
    cases hx
  | ok p =>
    rw [hp] at hx
    exact h.tree.mem_of_getAnchorAt hx

theorem mousePressEvent (h : Synced drawn s) (line column : ℕ) :
    (s.mousePressEvent line column).Ends (Synced drawn) (Synced drawn) := by
  refine Except.ends_leaving_bind (fun anchor hx => ?_) h
  cases anchor with
  | none => exact h
  | some x =>
    have hmem := h.mem_of_anchorNear hx
    have hmoved : Synced drawn { s with cursor := s.cursor.setAnchor x } :=
      h.congr rfl rfl rfl rfl hmem h.queued
    refine Except.Ends.bind (P := Synced drawn) ?_ fun t ht =>
      ht.congr rfl rfl rfl rfl ht.anchor ht.queued
    refine Except.ends_leaving_bind (fun cursor hc => ?_) hmoved
    have hanchor : cursor.anchor = x := Cursor.anchor_of_updateDesiredColumn hc
    exact h.congr rfl rfl rfl rfl (hanchor ▸ hmem) h.queued

theorem mouseMoveEvent (h : Synced drawn s) (line column : ℕ) :
    (s.mouseMoveEvent line column).Ends (Synced drawn) (Synced drawn) := by
  refine Except.ends_leaving_bind (fun anchor hx => ?_) h
  cases anchor with
  | none => exact h
  | some x => exact h.congr rfl rfl rfl rfl (h.mem_of_anchorNear hx) h.queued

/-! ## Every input -/

/-- What a message that was read carries has no bar in its ids. -/
theorem receive (h : Synced drawn s) {m : Message} (hm : ∃ body, Message.deserialize body = .ok m) :
    Synced drawn { s with incomingQueue := s.incomingQueue ++ [m] } := by
  refine h.congr rfl rfl rfl rfl h.anchor fun m' hm' op hop => ?_
  obtain hm' | hm' := List.mem_append.mp hm'
  · exact h.queued m' hm' op hop
  · obtain rfl := List.mem_singleton.mp hm'
    obtain ⟨body, hbody⟩ := hm
    obtain ⟨line, -, hdec⟩ := Message.operations_of_deserialize hbody op hop
    exact (Operation.avoids_of_deserialize hdec).1

end Synced

/-- An input that draws no id. -/
theorem step_of_inserts_eq_nil {i : ReadInput} (hnil : s.inserts i.1 = []) (hroom : s.Room i.1)
    (hi : Synced drawn (s.input i.1).state) :
    (Dominates (s, drawn) i ↔ s.Room i.1) ∧
      (s.Room i.1 → Synced (draw (s, drawn) i).2 (draw (s, drawn) i).1) := by
  refine ⟨iff_of_true (fun oper ho => ?_) hroom, fun _ => ?_⟩
  · exact absurd (hnil ▸ ho) List.not_mem_nil
  · rw [draw, hnil, List.map_nil, List.append_nil]
    exact hi

theorem inserts_of_typed {command : EditorCommand} {c : UInt8} (hc : command.typed = some c)
    (h0 : c ≠ 0) : s.inserts (.command command) = [s.typed c] := by
  rw [inserts, InputHandler.processCommand_of_typed hc h0]
  rfl

/-- A NUL draws no id. -/
theorem inserts_nul {command : EditorCommand} (h0 : command.typed = some 0) :
    s.inserts (.command command) = [] := by
  obtain ⟨type, character⟩ := command
  cases type with
  | insertCharacter =>
    obtain rfl : character = 0 := Option.some.inj h0
    rfl
  | enter => exact absurd (Option.some.inj h0) (by decide)
  | _ => cases h0

/-- **One input**: the id it draws dominates if and only if there is room for it, and then the clock goes
on. -/
theorem Synced.step {c : EditorSession × List ElementID} (h : Synced c.2 c.1) (i : ReadInput) :
    (Dominates c i ↔ c.1.Room i.1) ∧ (c.1.Room i.1 → Synced (draw c i).2 (draw c i).1) := by
  obtain ⟨s, drawn⟩ := c
  obtain ⟨i, hread⟩ := i
  cases i with
  | queueCursorUpdate =>
    exact step_of_inserts_eq_nil rfl trivial (h.congr rfl rfl rfl rfl h.anchor h.queued)
  | mousePress line column =>
    exact step_of_inserts_eq_nil rfl trivial (h.mousePressEvent line column).state
  | mouseMove line column =>
    exact step_of_inserts_eq_nil rfl trivial (h.mouseMoveEvent line column).state
  | receive m => exact step_of_inserts_eq_nil rfl trivial (h.receive (hread m rfl))
  | flush => exact step_of_inserts_eq_nil rfl trivial h.flushIncoming.state
  | command command =>
    have hquiet (hnot : ¬ ∃ c, command.typed = some c ∧ c ≠ 0) : s.Room (.command command) :=
      fun hc => absurd hc hnot
    cases hc : command.typed with
    | none =>
      obtain ⟨hnil, hends⟩ := h.command_of_typed_eq_none hc
      exact step_of_inserts_eq_nil hnil (hquiet (by simp [hc])) hends.state
    | some c =>
      by_cases h0 : c = 0
      · subst h0
        refine step_of_inserts_eq_nil (inserts_nul hc) (hquiet (by simp [hc])) ?_
        change Synced drawn (s.handleEditorCommand command).state
        rw [state_handleEditorCommand_nul hc]
        exact h
      have hinserts := inserts_of_typed (s := s) hc h0
      have hroom : s.Room (.command command) ↔ s.gen.lamportClock.toNat + 1 < 2 ^ 64 :=
        ⟨fun hr => hr ⟨c, hc, h0⟩, fun hlt _ => hlt⟩
      refine ⟨⟨fun hd => hroom.mpr ?_, fun hr oper ho => ?_⟩, fun hr => ?_⟩
      · by_contra hlimit
        obtain ⟨x, hx, hnot⟩ := h.not_lt_upcoming hlimit
        exact hnot ((hd (s.typed c) (by rw [hinserts]; exact List.mem_cons_self)).1 x
          (Or.inl (h.seen_iff.mpr hx)))
      · rw [hinserts] at ho
        obtain rfl := List.mem_singleton.mp ho
        have hlt := hroom.mp hr
        refine ⟨fun x hx => h.lt_upcoming hlt (hx.elim h.seen_iff.mp (h.drawn x)), ?_⟩
        have hdoc := (h.command_of_typed_eq_some hlt hc h0).state.2
        change ((s.handleEditorCommand command).state.doc.childrenOf s.cursor.anchor).head? = _
        rw [hdoc]
        exact h.head?_childrenOf_typed hlt c
      · rw [draw, hinserts]
        exact (h.command_of_typed_eq_some (hroom.mp hr) hc h0).state.1

theorem synced_start (clientId : Str) : Synced [] (start clientId) where
  doc := rfl
  recorded := rfl
  shadowed := OperationLog.shadowed_empty
  legible _ h := absurd h List.not_mem_nil
  clock x hx := by
    obtain rfl | ⟨oper, ho, -⟩ := hx
    · exact le_rfl
    · exact absurd ho List.not_mem_nil
  reached := ⟨rootId, Or.inl rfl, rfl⟩
  drawn _ h := absurd h List.not_mem_nil
  anchor := Document.mem_empty_elements.mpr rfl
  queued _ h := absurd h List.not_mem_nil

/-- **When the ids drawn dominate**, along every run: each is above all that was applied, buffered or
drawn before, and its element the first child of its parent, if and only if no character is typed while
the clock stands at its limit. -/
theorem dominates_iff (clientId : Str) (inputs : List ReadInput) :
    Along draw Dominates (start clientId, []) inputs ↔
      Along draw (fun c i => c.1.Room i.1) (start clientId, []) inputs :=
  Along.iff_of_invariant (fun c i (hc : Synced c.2 c.1) => (hc.step i).1)
    (fun _ i hc hi => (hc.step i).2 hi) (synced_start clientId)

/-- An insert with the largest clock value. -/
def limitMessage : Message :=
  ⟨.operation, str "b", .operation (.insert ⟨rootId, ⟨18446744073709551615, str "b"⟩, 66⟩)⟩

theorem exists_limitMessage : ∃ body, Message.deserialize body = .ok limitMessage :=
  ⟨_, Message.deserialize_serialize ⟨by decide, by decide, by decide⟩⟩

/-- The insert is received and applied, and a character typed after it. -/
def limitInputs : List ReadInput :=
  [⟨.receive limitMessage, fun _ h => Input.receive.inj h ▸ exists_limitMessage⟩,
    ⟨.flush, fun _ h => by cases h⟩, ⟨.command ⟨.insertCharacter, 65⟩, fun _ h => by cases h⟩]

/-- The id of the character is smaller than the one received. -/
theorem not_dominates_limitInputs : ¬ Along draw Dominates (start (str "a"), []) limitInputs := by
  intro h
  have hlt := (h.2.2.1 ⟨rootId, ⟨0, str "a"⟩, 65⟩ (by decide +kernel)).1
    ⟨18446744073709551615, str "b"⟩ (Or.inl (Or.inl (by decide +kernel)))
  exact absurd hlt (by decide)

end EditorSession

end CrdtEditor
