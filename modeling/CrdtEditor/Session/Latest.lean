import CrdtEditor.Session.Carets

/-!
# Session/Latest — the latest cursor update wins

A run of commands, clicks and messages, one message at a time as `flush_incoming` takes them.  `Watch`
records beside the session what every other client reported last and with which report its entry of
`remote_cursors` was last written; nothing of the session reads it.

`Settles` says what one act does to the entries, `latest_wins` what every run leaves: whoever reported
an element that is present is shown there, or where the removals have moved the report since.
-/

namespace CrdtEditor

open Text

open Except (leaving)

/-- One more insert makes present what it inserts, unless something waited for it. -/
theorem Document.Rooted.of_union {S own : Set Operation}
    (hown : ∀ oper, .insert oper ∈ own → ∀ op ∈ S, oper.ident ∉ op.names) {x : ElementID}
    (h : Rooted (S ∪ own) x) : (∃ oper, .insert oper ∈ own ∧ oper.ident = x) ∨ Rooted S x := by
  induction h with
  | root => exact Or.inr .root
  | @insert oper ho hp ih =>
    rcases ho with ho | ho
    · obtain ⟨oper', ho', he⟩ | hrooted := ih
      · exact absurd (by rw [he]; simp [Operation.names]) (hown oper' ho' _ ho)
      · exact Or.inr (.insert ho hrooted)
    · exact Or.inl ⟨oper, ho, rfl⟩

namespace EditorSession

/-- What happens between two boundaries: a command, the mouse, a message that is taken. -/
inductive Act
  | command (command : EditorCommand)
  | mousePress (line column : ℕ)
  | mouseMove (line column : ℕ)
  | message (message : Message)

def act (s : EditorSession) : Act → Result
  | .command command => s.handleEditorCommand command
  | .mousePress line column => s.mousePressEvent line column
  | .mouseMove line column => s.mouseMoveEvent line column
  | .message message => s.apply message

/-- The operations a message brings. -/
def Act.operations : Act → List Operation
  | .message m => m.payload.operations
  | _ => []

/-- The position that a message reports of a client. -/
def Act.reports (id : Str) : Act → Option ElementID
  | .message m => m.cursorOf id
  | _ => none

/-- **The report an act wrote the entry of a client with**: the one it brought or the one that waited
before, unless one waits after it. -/
def wrote (a : Act) (s t : EditorSession) (id : Str) : Option ElementID :=
  if id ∈ t.pendingCursorUpdates then none
  else (a.reports id).or (AList.lookup id s.pendingCursorUpdates)

variable {s t : EditorSession} {received : List Operation} {a : Act}

/-- **What one act does to the entries of the others.**  An entry holds the report it was written with,
or falls from what it held. -/
structure Settles (a : Act) (s t : EditorSession) : Prop where
  waits : ∀ id p, AList.lookup id t.pendingCursorUpdates = some p →
    (a.reports id).or (AList.lookup id s.pendingCursorUpdates) = some p
  absent : ∀ id p, AList.lookup id t.pendingCursorUpdates = some p → p ∉ t.doc.elements
  written : ∀ id p, wrote a s t id = some p → AList.lookup id t.remoteCursors = some p
  kept : ∀ id, wrote a s t id = none →
    EntryFalls t.history (AList.lookup id s.remoteCursors) (AList.lookup id t.remoteCursors)

/-- Nobody waits for an element that is present. -/
def Absent (s : EditorSession) : Prop :=
  ∀ id p, AList.lookup id s.pendingCursorUpdates = some p → p ∉ s.doc.elements

/-- An act that releases nothing. -/
theorem Drifts.settles (h : Drifts t.history s t) (ha : ∀ id, a.reports id = none)
    (habsent : ∀ id p, AList.lookup id s.pendingCursorUpdates = some p → p ∉ t.doc.elements) :
    Settles a s t where
  waits id p hp := by
    rw [ha, Option.none_or, ← h.pending]
    exact hp
  absent id p hp := habsent id p (h.pending ▸ hp)
  written id p hp := by
    rw [wrote] at hp
    split at hp
    case isTrue => cases hp
    case isFalse hn =>
      rw [ha, Option.none_or, ← h.pending, AList.lookup_eq_none.2 hn] at hp
      cases hp
  kept id _ := h.remote id

/-- A command makes the element that it inserts present, and no other. -/
theorem Sound.mem_elements_of_makes (h : Sound received s) (ht : Sound received t)
    {command : EditorCommand} {ops : List Operation} (hf : command.typed ≠ none → s.Fresh received)
    (hhistory : t.history = s.history ∪ {op | op ∈ ops}) (hmakes : s.Makes command ops t)
    {x : ElementID} (hx : x ∈ t.doc.elements) :
    x ∈ s.doc.elements ∨ command.typed ≠ none ∧ x = s.gen.upcoming := by
  rw [ht.settling.mem_elements ht.buffer, hhistory] at hx
  obtain ⟨c, hc, rfl, -⟩ | ⟨-, -, hops⟩ := hmakes
  · have hne : command.typed ≠ none := by simp [hc]
    obtain ⟨oper, ho, rfl⟩ | hrooted := Document.Rooted.of_union (fun oper ho op hop hm => by
        obtain rfl := Operation.insert.inj (List.mem_singleton.1 ho)
        exact h.upcoming_notMem_names (hf hne) op hop hm) hx
    · obtain rfl := Operation.insert.inj (List.mem_singleton.1 ho)
      exact Or.inr ⟨hne, rfl⟩
    · exact Or.inl ((h.settling.mem_elements h.buffer x).2 hrooted)
  · have hremoves : ∀ oper, .insert oper ∉ {op | op ∈ ops} := fun oper ho => by
      obtain ⟨y, -, he⟩ := hops _ ho
      cases he
    obtain ⟨oper, ho, -⟩ | hrooted := Document.Rooted.of_union
      (fun oper ho => absurd ho (hremoves oper)) hx
    · exact absurd ho (hremoves oper)
    · exact Or.inl ((h.settling.mem_elements h.buffer x).2 hrooted)

/-- What is asked of an act: an id drawn is new to what was received and to who waits, and below the
largest; a message is formed, and its operations honest. -/
def Permits (received : List Operation) (s : EditorSession) : Act → Prop
  | .command command => command.typed ≠ none → s.Fresh received ∧
      s.gen.lamportClock.toNat + 1 < 2 ^ 64 - 1 ∧
      ∀ e ∈ s.pendingCursorUpdates.entries, e.2 ≠ s.gen.upcoming
  | .message message => message.Formed ∧ s.Honest message.payload.operations
  | _ => True

instance Permits.decidable (received : List Operation) (s : EditorSession) :
    DecidablePred (Permits received s)
  | .command command => inferInstanceAs (Decidable (command.typed ≠ none → s.Fresh received ∧
      s.gen.lamportClock.toNat + 1 < 2 ^ 64 - 1 ∧
      ∀ e ∈ s.pendingCursorUpdates.entries, e.2 ≠ s.gen.upcoming))
  | .message message =>
    inferInstanceAs (Decidable (message.Formed ∧ s.Honest message.payload.operations))
  | .mousePress _ _ => .isTrue trivial
  | .mouseMove _ _ => .isTrue trivial

/-- **A command** settles. -/
theorem Sound.settles_command (h : Sound received s) (habsent : s.Absent) {command : EditorCommand}
    (hp : Permits received s (.command command)) :
    Sound received (s.handleEditorCommand command).state ∧
      s.history ⊆ (s.handleEditorCommand command).state.history ∧
      Settles (.command command) s (s.handleEditorCommand command).state := by
  by_cases h0 : command.typed = some 0
  · rw [state_handleEditorCommand_nul h0]
    exact ⟨h, subset_rfl, (drifts_of_eq rfl rfl).settles (fun _ => rfl) habsent⟩
  obtain ⟨h', ops, t, hrun, ht, hsound, hdoes, hmakes⟩ := h.runs h0 (fun hne => (hp hne).1)
    fun hne => (hp hne).2.1
  have hdrifts := drifts_handleEditorCommand s command
  rw [ht] at hdrifts ⊢
  have hhistory := hdoes.history hsound.toReplica (h.avoids_makes hmakes)
  have hmade : s.madeBy command ⊆ t.history := by
    rintro op ⟨h'', ops', hrun', hop⟩
    obtain ⟨rfl, rfl⟩ := Prod.mk.inj (Except.ok.inj (hrun.symm.trans hrun'))
    rw [hhistory]
    exact Or.inr hop
  refine ⟨hsound, hdoes.sup, (Drifts.mono hdrifts hmade).settles (fun _ => rfl) fun id p hid hx => ?_⟩
  obtain hx | ⟨hne, rfl⟩ := h.mem_elements_of_makes hsound (fun hne => (hp hne).1) hhistory hmakes hx
  · exact habsent id p hid hx
  · exact (hp hne).2.2 ⟨id, s.gen.upcoming⟩ (UMap.mem_entries.2 hid) rfl

/-- An act that changes nothing but the caret and the queues. -/
theorem Sound.settles_of_eq (habsent : s.Absent) (ht : Sound received t)
    (hdoc : t.doc = s.doc) (hlog : t.log = s.log)
    (hpending : t.pendingCursorUpdates = s.pendingCursorUpdates)
    (hremote : t.remoteCursors = s.remoteCursors) (ha : ∀ id, a.reports id = none) :
    Sound received t ∧ s.history ⊆ t.history ∧ Settles a s t := by
  refine ⟨ht, ?_, (drifts_of_eq hpending hremote).settles ha fun id p hp => hdoc ▸ habsent id p hp⟩
  rw [history, history, hlog]

theorem reports_cursorUpdate (sender : Str) (x : ElementID) (id : Str) :
    (Act.message ⟨.cursorUpdate, sender, .cursorUpdate x⟩).reports id =
      if sender = id then some x else none := rfl

/-- A report of a present element is stored, and nothing waits any more. -/
theorem Absent.settles_stored (habsent : s.Absent) (sender : Str) (x : ElementID) :
    Settles (.message ⟨.cursorUpdate, sender, .cursorUpdate x⟩) s { s with
      remoteCursors := AList.insert sender x s.remoteCursors
      pendingCursorUpdates := AList.erase sender s.pendingCursorUpdates } := by
  refine ⟨fun id p hp => ?_, fun id p hp => ?_, fun id p hp => ?_, fun id hnone => ?_⟩
  · change AList.lookup id (AList.erase sender s.pendingCursorUpdates) = some p at hp
    rw [UMap.lookup_erase] at hp
    split at hp
    case isTrue => cases hp
    case isFalse hid => rw [reports_cursorUpdate, if_neg (Ne.symm hid), Option.none_or, hp]
  · change AList.lookup id (AList.erase sender s.pendingCursorUpdates) = some p at hp
    rw [UMap.lookup_erase] at hp
    split at hp
    case isTrue => cases hp
    case isFalse => exact habsent id p hp
  · change AList.lookup id (AList.insert sender x s.remoteCursors) = some p
    rw [wrote, reports_cursorUpdate] at hp
    split at hp
    case isTrue => cases hp
    case isFalse hn =>
      by_cases hid : sender = id
      · rw [if_pos hid, Option.some_or] at hp
        rw [UMap.lookup_insert, if_pos hid.symm, hp]
      · have hn : id ∉ s.pendingCursorUpdates := fun hm =>
          hn (AList.mem_erase.2 ⟨fun he => hid he.symm, hm⟩)
        rw [if_neg hid, Option.none_or, AList.lookup_eq_none.2 hn] at hp
        cases hp
  · change EntryFalls _ _ (AList.lookup id (AList.insert sender x s.remoteCursors))
    by_cases hid : sender = id
    · have hn : id ∉ AList.erase sender s.pendingCursorUpdates := fun hm =>
        (AList.mem_erase.1 hm).1 hid.symm
      rw [wrote, reports_cursorUpdate, if_neg hn, if_pos hid, Option.some_or] at hnone
      cases hnone
    · rw [UMap.lookup_insert, if_neg (Ne.symm hid)]
      exact entryFalls_refl _ _

/-- A report of an absent element waits. -/
theorem Absent.settles_waiting (habsent : s.Absent) (sender : Str) {x : ElementID}
    (hx : x ∉ s.doc.elements) :
    Settles (.message ⟨.cursorUpdate, sender, .cursorUpdate x⟩) s { s with
      pendingCursorUpdates := AList.insert sender x s.pendingCursorUpdates } := by
  refine ⟨fun id p hp => ?_, fun id p hp => ?_, fun id p hp => ?_, fun id _ => entryFalls_refl _ _⟩
  · change AList.lookup id (AList.insert sender x s.pendingCursorUpdates) = some p at hp
    rw [UMap.lookup_insert] at hp
    split at hp
    case isTrue hid => rw [reports_cursorUpdate, if_pos hid.symm, Option.some_or, hp]
    case isFalse hid => rw [reports_cursorUpdate, if_neg (Ne.symm hid), Option.none_or, hp]
  · change AList.lookup id (AList.insert sender x s.pendingCursorUpdates) = some p at hp
    rw [UMap.lookup_insert] at hp
    split at hp
    case isTrue => exact Option.some.inj hp ▸ hx
    case isFalse => exact habsent id p hp
  · rw [wrote, reports_cursorUpdate] at hp
    split at hp
    case isTrue => cases hp
    case isFalse hn =>
      have hn : ¬ (id = sender ∨ id ∈ s.pendingCursorUpdates) := fun hm =>
        hn ((AList.mem_insert _).2 hm)
      rw [if_neg fun he => hn (Or.inl he.symm), Option.none_or,
        AList.lookup_eq_none.2 fun hm => hn (Or.inr hm)] at hp
      cases hp

/-- **A report** is stored, or waits. -/
theorem Sound.settles_report (h : Sound received s) (habsent : s.Absent) (sender : Str)
    (x : ElementID) :
    (s.receiveCursorUpdate sender x).Ends
      (fun t => t.log = s.log ∧
        Settles (.message ⟨.cursorUpdate, sender, .cursorUpdate x⟩) s t) fun _ => False := by
  rw [receiveCursorUpdate]
  by_cases hx : x ∈ s.doc.elements
  · obtain ⟨y, -, hy⟩ := h.tree.exists_resolveCursorAnchor hx
    rw [hy]
    exact ⟨rfl, habsent.settles_stored sender x⟩
  · rw [h.tree.resolveCursorAnchor_of_notMem hx]
    exact ⟨rfl, habsent.settles_waiting sender hx⟩

/-- **An operation or a history** releases who waited for what it brings. -/
theorem Settles.of_touches {m : Message} (hm : m.type = .operation ∨ m.type = .syncResponse)
    (ht : t.doc.IsTree) (htouches : Touches m s t) (hwaits : t.Waits)
    (heffective : {op | op ∈ m.effective} ⊆ t.history) : Settles (.message m) s t := by
  have hne : m.type ≠ .cursorUpdate := by
    obtain hm | hm := hm <;> rw [hm] <;> decide
  have hreport : ∀ id, (Act.message m).reports id = none := fun id => by
    cases hc : m.cursorOf id with
    | none => exact hc
    | some x => exact absurd (Message.cursorOf_eq_some.1 hc).1 hne
  have hentry := htouches.effect hne
  refine ⟨fun id p hp => ?_, fun id p hp hx => ?_, fun id p hp => ?_, fun id hnone => ?_⟩
  · obtain ⟨hsame, -⟩ | ⟨-, -, hgone, -⟩ := hentry id
    · rw [hreport, Option.none_or, ← hsame, hp]
    · rw [hgone] at hp
      cases hp
  · obtain ⟨y, -, hy⟩ := ht.exists_resolveCursorAnchor hx
    rw [hwaits id p hp] at hy
    cases hy
  · rw [wrote, hreport] at hp
    split at hp
    case isTrue => cases hp
    case isFalse hn =>
      rw [Option.none_or] at hp
      obtain ⟨hsame, -⟩ | ⟨p', hp', -, hshown⟩ := hentry id
      · rw [AList.lookup_eq_none.2 hn, hp] at hsame
        cases hsame
      · rw [hshown, ← hp', hp]
  · obtain ⟨-, hfalls⟩ | ⟨p, hp, hgone, -⟩ := hentry id
    · exact hfalls.mono heffective
    · rw [wrote, if_neg (AList.lookup_eq_none.1 hgone), hreport, Option.none_or, hp] at hnone
      cases hnone

/-- **A message** settles. -/
theorem Sound.settles_message (h : Sound received s) (habsent : s.Absent) {m : Message}
    (hm : Permits received s (.message m)) :
    Sound (received ++ m.payload.operations) (s.apply m).state ∧
      s.history ⊆ (s.apply m).state.history ∧ Settles (.message m) s (s.apply m).state := by
  obtain ⟨t, ht, hsound, -⟩ := h.exists_apply hm.1 hm.2
  have htakes := takes_apply s m
  have htouches := touches_apply s m
  have hwaits := fun htype => waits_apply s (m := m) htype
  rw [ht] at htakes htouches hwaits ⊢
  replace htakes : Takes m.effective (replies m t) s t := htakes
  refine ⟨hsound, htakes.sup, ?_⟩
  have heffective : {op | op ∈ m.effective} ⊆ t.history := by
    rw [htakes.history hsound.toReplica fun op hop => hm.2.avoids op (m.effective_subset hop)]
    exact Set.subset_union_right
  have hother : m.type ≠ .operation → m.type ≠ .syncResponse → m.type ≠ .cursorUpdate →
      Settles (.message m) s t := fun hop hsync hne => by
    have hts : s.apply m = .ok s := by
      rw [EditorSession.apply]
      cases hm : m.type <;> simp_all
    obtain rfl := Except.ok.inj (hts.symm.trans ht)
    refine (drifts_of_eq rfl rfl).settles (fun id => ?_) habsent
    cases hc : m.cursorOf id with
    | none => exact hc
    | some x => exact absurd (Message.cursorOf_eq_some.1 hc).1 hne
  by_cases hop : m.type = .operation
  · exact .of_touches (Or.inl hop) hsound.tree htouches (hwaits (Or.inl hop)) heffective
  by_cases hsync : m.type = .syncResponse
  · exact .of_touches (Or.inr hsync) hsound.tree htouches (hwaits (Or.inr hsync)) heffective
  by_cases hcursor : m.type = .cursorUpdate
  · obtain ⟨type, sender, payload⟩ := m
    obtain rfl : type = .cursorUpdate := hcursor
    obtain ⟨x, rfl⟩ : ∃ x, payload = .cursorUpdate x := by
      have hformed : payload.getCursorUpdate.toBool = true := hm.1
      cases payload with
      | cursorUpdate x => exact ⟨x, rfl⟩
      | _ => cases hformed
    have hreport := h.settles_report habsent sender x
    have happly : s.receiveCursorUpdate sender x = .ok t := ht
    rw [happly] at hreport
    exact hreport.2
  · exact hother hop hsync hcursor

/-- **Every act settles** the entries of the others, and leaves a sound session. -/
theorem Sound.settles (h : Sound received s) (habsent : s.Absent) (ha : Permits received s a) :
    Sound (received ++ a.operations) (s.act a).state ∧ s.history ⊆ (s.act a).state.history ∧
      Settles a s (s.act a).state := by
  have hnone : received ++ ([] : List Operation) = received := List.append_nil _
  cases a with
  | command command =>
    change Sound (received ++ []) _ ∧ _
    rw [hnone]
    exact h.settles_command habsent ha
  | message m => exact h.settles_message habsent ha
  | mousePress line column =>
    change Sound (received ++ []) _ ∧ _
    rw [hnone]
    obtain ⟨c, hc, ht⟩ := h.toSteady.mousePressEvent line column
    have hmoved : Sound received { s with cursor := c } := h.congr rfl rfl rfl rfl rfl hc
    have hact : s.act (.mousePress line column) = _ := ht
    rw [hact]
    exact Sound.settles_of_eq habsent (hmoved.queueOutgoingMessage _) rfl rfl rfl rfl fun _ => rfl
  | mouseMove line column =>
    change Sound (received ++ []) _ ∧ _
    rw [hnone]
    obtain ⟨c, hc, ht⟩ := h.toSteady.mouseMoveEvent line column
    have hact : s.act (.mouseMove line column) = _ := ht
    rw [hact]
    exact Sound.settles_of_eq habsent (h.congr rfl rfl rfl rfl rfl hc) rfl rfl rfl rfl fun _ => rfl

/-! ## Runs -/

/-- A session with what was received: the operations, the latest report of every client, and the report
its entry was last written with. -/
structure Watch where
  session : EditorSession
  received : List Operation
  latest : Str → Option ElementID
  written : Str → Option ElementID

namespace Watch

def start (clientId : Str) : Watch := ⟨.start clientId, [], fun _ => none, fun _ => none⟩

/-- One act, and what it adds to the record. -/
def act (w : Watch) (a : Act) : Watch where
  session := (w.session.act a).state
  received := w.received ++ a.operations
  latest id := (a.reports id).or (w.latest id)
  written id := (wrote a w.session (w.session.act a).state id).or (w.written id)

/-- **The latest report wins.** -/
structure Current (w : Watch) : Prop where
  shown : ∀ id x, AList.lookup id w.session.remoteCursors = some x → x ∈ w.session.doc.elements
  absent : ∀ id p, AList.lookup id w.session.pendingCursorUpdates = some p →
    p ∉ w.session.doc.elements
  latest : ∀ id p, w.latest id = some p → p ∈ w.session.doc.elements →
    id ∉ w.session.pendingCursorUpdates ∧ w.written id = some p ∧
      ∃ x, AList.lookup id w.session.remoteCursors = some x ∧ Falls w.session.history p x

/-- The invariant: a client waits for its latest report, or is shown where that was written. -/
structure Watched (w : Watch) : Prop where
  sound : Sound w.received w.session
  absent : w.session.Absent
  waits : ∀ id p, AList.lookup id w.session.pendingCursorUpdates = some p → w.latest id = some p
  latest : ∀ id p, w.latest id = some p → id ∈ w.session.pendingCursorUpdates ∨ w.written id = some p
  written : ∀ id p, w.written id = some p →
    ∃ x, AList.lookup id w.session.remoteCursors = some x ∧ Falls w.session.history p x

theorem watched_start {clientId : Str} (hbar : bar ∉ clientId) : (start clientId).Watched where
  sound := sound_start hbar
  absent id p hp := by simp [start, EditorSession.start] at hp
  waits id p hp := by simp [start, EditorSession.start] at hp
  latest id p hp := by simp [start] at hp
  written id p hp := by simp [start] at hp

variable {w : Watch}

theorem Watched.current (h : w.Watched) : w.Current where
  shown := h.sound.remote
  absent := h.absent
  latest id p hp hx := by
    have hn : id ∉ w.session.pendingCursorUpdates := fun hm => by
      obtain ⟨p', hp'⟩ := UMap.mem_iff_lookup.1 hm
      obtain rfl : p' = p := Option.some.inj ((h.waits id p' hp').symm.trans hp)
      exact h.absent id p' hp' hx
    have hw := (h.latest id p hp).resolve_left hn
    exact ⟨hn, hw, h.written id p hw⟩

/-- **One act.** -/
theorem Watched.act (h : w.Watched) (ha : Permits w.received w.session a) :
    (w.act a).Watched ∧ Settles a w.session (w.act a).session := by
  obtain ⟨hsound, hsub, hsettles⟩ := h.sound.settles h.absent ha
  refine ⟨⟨hsound, hsettles.absent, fun id p hp => ?_, fun id p hp => ?_, fun id p hp => ?_⟩, hsettles⟩
  · change (a.reports id).or (w.latest id) = some p
    have hwaits := hsettles.waits id p hp
    cases hr : a.reports id with
    | some x => rwa [hr, Option.some_or] at hwaits
    | none =>
      rw [hr, Option.none_or] at hwaits
      exact h.waits id p hwaits
  · change (a.reports id).or (w.latest id) = some p at hp
    by_cases hm : id ∈ (w.session.act a).state.pendingCursorUpdates
    · exact Or.inl hm
    refine Or.inr ?_
    change (wrote a w.session _ id).or (w.written id) = some p
    rw [wrote, if_neg hm]
    cases hr : a.reports id with
    | some x =>
      rw [hr, Option.some_or] at hp
      rw [Option.some_or, Option.some_or, hp]
    | none =>
      rw [hr, Option.none_or] at hp
      rw [Option.none_or]
      cases hl : AList.lookup id w.session.pendingCursorUpdates with
      | some x => rw [Option.some_or, ← h.waits id x hl, hp]
      | none =>
        rw [Option.none_or]
        exact (h.latest id p hp).resolve_left (AList.lookup_eq_none.1 hl)
  · change (wrote a w.session _ id).or (w.written id) = some p at hp
    cases hw : wrote a w.session (w.session.act a).state id with
    | some x =>
      rw [hw, Option.some_or] at hp
      exact ⟨p, hsettles.written id p (hw.trans hp), .refl⟩
    | none =>
      rw [hw, Option.none_or] at hp
      obtain ⟨x, hx, hfalls⟩ := h.written id p hp
      have hkept := hsettles.kept id hw
      rw [hx] at hkept
      cases hy : AList.lookup id (w.session.act a).state.remoteCursors with
      | none => rw [hy] at hkept; cases hkept
      | some y =>
        rw [hy] at hkept
        cases hkept with
        | some hxy => exact ⟨y, hy, (hfalls.mono hsub).trans hxy⟩

/-- **The latest cursor update wins**, at every boundary of every run; and each act writes the entries
as `Settles` says. -/
theorem latest_wins {clientId : Str} (hbar : bar ∉ clientId) {acts : List Act}
    (h : Along act (fun w a => Permits w.received w.session a) (start clientId) acts) :
    Along act (fun w a => w.Current ∧ Settles a w.session (w.act a).session ∧ (w.act a).Current)
      (start clientId) acts := by
  have hstep : ∀ (w : Watch) (a : Act), w.Watched → Permits w.received w.session a →
      (w.Current ∧ Settles a w.session (w.act a).session ∧ (w.act a).Current) ∧ (w.act a).Watched :=
    fun w a hw ha =>
      ⟨⟨hw.current, (hw.act ha).2, (hw.act ha).1.current⟩, (hw.act ha).1⟩
  exact Along.of_invariant hstep (watched_start hbar) h

/-- A report ahead of the element it names, a newer one that overtakes it, removals under the caret, and
a local insert in between. -/
def reports : List Act :=
  let near (x : ElementID) : Act := .message ⟨.cursorUpdate, str "b", .cursorUpdate x⟩
  let op (oper : Operation) : Act := .message ⟨.operation, str "b", .operation oper⟩
  [near ⟨2, str "b"⟩, .command ⟨.insertCharacter, 65⟩,
    op (.insert ⟨⟨1, str "b"⟩, ⟨2, str "b"⟩, 66⟩), near ⟨1, str "b"⟩,
    .message ⟨.syncResponse, str "server", .history [.insert ⟨rootId, ⟨1, str "b"⟩, 67⟩,
      .remove ⟨⟨2, str "b"⟩⟩]⟩,
    .mousePress 0 1, op (.remove ⟨⟨1, str "b"⟩⟩), near ⟨7, str "c"⟩, .command ⟨.backspace, 0⟩]

theorem latest_wins_sample :
    Along act (fun w a => w.Current ∧ Settles a w.session (w.act a).session ∧ (w.act a).Current)
      (start (str "a")) reports :=
  latest_wins (by decide) (by decide +kernel)

end Watch

end EditorSession

end CrdtEditor
