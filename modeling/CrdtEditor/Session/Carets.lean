import CrdtEditor.Session.Turns

/-!
# Session/Carets — the carets of the others

A session keeps the position that every other client reported last: in `remote_cursors`, or in
`pending_cursor_updates` as long as the element it names has not arrived.  Four paths write these maps.
A report is stored or left waiting, an operation and a history release what they waited for, a removal
moves a caret off its element.

`Touches` says what a message changes in the entries of whom, of any session.  On sound ones the
position shown is the one reported last, whatever the order of arrival (`Session/Latest`).
-/

namespace CrdtEditor.EditorSession

open Text

open Except (leaving)

variable {s t u : EditorSession} {op : Operation} {H K : Set Operation}

/-! ## Deletes -/

/-- From an anchor to another one, each step off an element that `H` removes. -/
def Falls (H : Set Operation) : ElementID → ElementID → Prop :=
  Relation.ReflTransGen fun x _ => .remove ⟨x⟩ ∈ H

theorem Falls.mono {x y : ElementID} (h : Falls H x y) (hsub : H ⊆ K) : Falls K x y :=
  Relation.ReflTransGen.mono (fun _ _ hx => hsub hx) _ _ h

/-- The entry of a client before and after some removals. -/
def EntryFalls (H : Set Operation) : Option ElementID → Option ElementID → Prop :=
  Option.Rel (Falls H)

theorem entryFalls_refl (H : Set Operation) : ∀ x, EntryFalls H x x
  | none => .none
  | some _ => .some .refl

theorem EntryFalls.trans {x y z : Option ElementID} (h : EntryFalls H x y) (h' : EntryFalls H y z) :
    EntryFalls H x z := by
  cases h with
  | none => exact h'
  | some hx =>
    cases h' with
    | some hy => exact .some (Relation.ReflTransGen.trans hx hy)

theorem EntryFalls.mono {x y : Option ElementID} (h : EntryFalls H x y) (hsub : H ⊆ K) :
    EntryFalls K x y := by
  cases h with
  | none => exact .none
  | some hx => exact .some (hx.mono hsub)

/-- **Only removals wrote the carets of the others**, and none was released. -/
structure Drifts (H : Set Operation) (s t : EditorSession) : Prop where
  pending : t.pendingCursorUpdates = s.pendingCursorUpdates
  remote : ∀ id, EntryFalls H (AList.lookup id s.remoteCursors) (AList.lookup id t.remoteCursors)

theorem drifts_of_eq (hpending : t.pendingCursorUpdates = s.pendingCursorUpdates)
    (hremote : t.remoteCursors = s.remoteCursors) : Drifts H s t :=
  ⟨hpending, fun id => by rw [hremote]; exact entryFalls_refl H _⟩

theorem Drifts.trans (h : Drifts H s t) (h' : Drifts H t u) : Drifts H s u :=
  ⟨h'.pending.trans h.pending, fun id => (h.remote id).trans (h'.remote id)⟩

theorem Drifts.mono (h : Drifts H s t) (hsub : H ⊆ K) : Drifts K s t :=
  ⟨h.pending, fun id => (h.remote id).mono hsub⟩

/-- No client loses its entry. -/
theorem keeps_applyOperation (s : EditorSession) (op : Operation) (b : Bool) :
    (s.applyOperation op b).Ends (fun t => ∀ id ∈ s.remoteCursors, id ∈ t.remoteCursors)
      (fun t => ∀ id ∈ s.remoteCursors, id ∈ t.remoteCursors) := by
  rw [applyOperation]
  refine Except.ends_ite (fun _ id hid => hid) fun _ => ?_
  refine Except.Ends.bind (P := fun t => t.remoteCursors = s.remoteCursors) ?_ fun t ht =>
    Except.ends_leaving_bind (fun cursor _ => ?_) fun id hid => ht ▸ hid
  · unfold applyToDocument
    split
    · rfl
    · exact fun id hid => hid
  · cases op with
    | insert oper => exact fun id hid => ht ▸ hid
    | remove oper =>
      have hstart : ∀ id ∈ s.remoteCursors, id ∈ { t with cursor := cursor }.remoteCursors :=
        fun id hid => ht ▸ hid
      refine Except.ends_foldlM
        (I := fun _ (u : EditorSession) => ∀ id ∈ s.remoteCursors, id ∈ u.remoteCursors)
        (fun e _ u hu => ?_) hstart
      rw [updateRemoteCursor]
      refine Except.ends_ite (fun _ => ?_) fun _ => hu
      exact Except.ends_leaving_bind
        (fun y _ id hid => (AList.mem_insert _).2 (Or.inr (hu id hid))) hu

/-- **`apply_operation`** moves carets off a removed element. -/
theorem drifts_applyOperation (s : EditorSession) (op : Operation) (b : Bool) :
    (s.applyOperation op b).Ends (Drifts {op} s) (Drifts {op} s) := by
  have hall : ∀ t, (∀ id ∈ s.remoteCursors, id ∈ t.remoteCursors) → Applies op s t →
      Drifts {op} s t := by
    refine fun t hkeeps happlies => ⟨happlies.pending, fun id => ?_⟩
    obtain he | ⟨x, -, rfl, hx⟩ := happlies.remote id
    · rw [he]
      exact entryFalls_refl _ _
    · obtain ⟨y, hy⟩ := UMap.mem_iff_lookup.1 (hkeeps id (UMap.mem_of_lookup hx))
      rw [hx, hy]
      exact .some (.single rfl)
  exact ((keeps_applyOperation s op b).and (applies_applyOperation s op b)).imp
    (fun t ht => hall t ht.1 ht.2) fun t ht => hall t ht.1 ht.2

theorem drifts_applyRemote (s : EditorSession) (op : Operation) :
    (s.applyRemote op).Ends (Drifts {op} s) (Drifts {op} s) := by
  have hsync : Drifts {op} s (s.syncClock op) := by
    cases op <;> exact drifts_of_eq rfl rfl
  exact (drifts_applyOperation _ op false).imp (fun _ ht => hsync.trans ht) fun _ ht => hsync.trans ht

/-- The same of a loop over operations. -/
theorem drifts_foldlM {f : EditorSession → Operation → Result}
    (hf : ∀ s op, (f s op).Ends (Drifts {op} s) (Drifts {op} s)) {ops : List Operation}
    (hops : ∀ op ∈ ops, op ∈ H) (s : EditorSession) :
    (ops.foldlM f s).Ends (Drifts H s) (Drifts H s) := by
  refine (Except.ends_foldlM (Q := Drifts H s) (I := fun l t => (∀ op ∈ l, op ∈ H) ∧ Drifts H s t)
    (fun op l t ht => ?_) ⟨hops, drifts_of_eq rfl rfl⟩).imp (fun _ ht => ht.2) fun _ ht => ht
  obtain ⟨hl, ht⟩ := ht
  have hop : {op} ⊆ H := Set.singleton_subset_iff.2 (hl op List.mem_cons_self)
  exact (hf t op).imp
    (fun u hu => ⟨fun o ho => hl o (List.mem_cons_of_mem _ ho), ht.trans (hu.mono hop)⟩)
    fun u hu => ht.trans (hu.mono hop)

theorem drifts_perform (s : EditorSession) (op : Operation) :
    (s.perform op).Ends (Drifts {op} s) (Drifts {op} s) :=
  (drifts_applyOperation s op true).bind fun _ ht => ht.trans (drifts_of_eq rfl rfl)

/-- The operations that a command makes. -/
def madeBy (s : EditorSession) (command : EditorCommand) : Set Operation :=
  {op | ∃ h ops, s.handler.processCommand command = .ok (h, ops) ∧ op ∈ ops}

/-- **A command** releases nothing. -/
theorem drifts_handleEditorCommand (s : EditorSession) (command : EditorCommand) :
    (s.handleEditorCommand command).Ends (Drifts (s.madeBy command) s)
      (Drifts (s.madeBy command) s) := by
  cases hr : s.handler.processCommand command with
  | error e =>
    rw [handleEditorCommand, processCommand, hr]
    exact drifts_of_eq rfl rfl
  | ok p =>
    rw [handleEditorCommand_eq hr]
    have hput : Drifts (s.madeBy command) s (s.put p.1) := drifts_of_eq rfl rfl
    refine (drifts_foldlM (H := s.madeBy command) drifts_perform (fun op hop => ⟨p.1, p.2, hr, hop⟩) (s.put p.1)).imp
      (fun _ ht => hput.trans ht) (fun _ ht => hput.trans ht) |>.bind fun t ht => ?_
    rw [rememberColumn]
    refine Except.ends_ite (fun _ => ?_) fun _ => ht
    exact Except.ends_leaving_bind (fun _ _ => ht.trans (drifts_of_eq rfl rfl)) ht

/-! ## Releases -/

/-- The entries of a client are left alone. -/
def Untouched (id : Str) (s t : EditorSession) : Prop :=
  AList.lookup id t.pendingCursorUpdates = AList.lookup id s.pendingCursorUpdates ∧
    AList.lookup id t.remoteCursors = AList.lookup id s.remoteCursors

/-- What a client waited for is shown. -/
def Released (id : Str) (s t : EditorSession) : Prop :=
  ∃ p, AList.lookup id s.pendingCursorUpdates = some p ∧
    AList.lookup id t.pendingCursorUpdates = none ∧ AList.lookup id t.remoteCursors = some p

/-- Nobody waits for an element that is present. -/
def Waits (s : EditorSession) : Prop :=
  ∀ id p, AList.lookup id s.pendingCursorUpdates = some p → s.doc.resolveCursorAnchor p = .ok none

/-- **`update_pending_cursor_updates`**, returned or thrown; when it returns, it looked at everybody. -/
theorem ends_updatePendingCursorUpdates (s : EditorSession) :
    s.updatePendingCursorUpdates.Ends
      (fun t => t.doc = s.doc ∧ (∀ id, Untouched id s t ∨ Released id s t) ∧ t.Waits)
      fun t => ∀ id, Untouched id s t ∨ Released id s t := by
  -- the invariant of the loop: who still waits is still to come, or waits for good
  refine (Except.ends_foldlM (Q := fun t => ∀ id, Untouched id s t ∨ Released id s t)
    (I := fun l (t : EditorSession) => (∀ e ∈ l, e ∈ s.pendingCursorUpdates.entries) ∧
      t.doc = s.doc ∧ (∀ id, Untouched id s t ∨ Released id s t) ∧
      ∀ id p, AList.lookup id t.pendingCursorUpdates = some p →
        (⟨id, p⟩ : Sigma fun _ : Str => ElementID) ∈ l ∨ s.doc.resolveCursorAnchor p = .ok none)
    (fun e l t ht => ?_)
    ⟨fun _ he => he, rfl, fun _ => Or.inl ⟨rfl, rfl⟩, fun _ _ hp => Or.inl (UMap.mem_entries.2 hp)⟩).imp
      (fun t ht => ⟨ht.2.1, ht.2.2.1, fun id p hp => ?_⟩) fun _ ht => ht
  case refine_2 =>
    rw [ht.2.1]
    exact (ht.2.2.2 id p hp).resolve_left List.not_mem_nil
  obtain ⟨hl, hdoc, hentry, hleft⟩ := ht
  have hrest := fun e' he' => hl e' (List.mem_cons_of_mem _ he')
  rw [updatePendingCursor]
  refine Except.ends_leaving_bind (fun resolved hresolved => ?_) hentry
  rw [hdoc] at hresolved
  cases resolved with
  | none =>
    refine ⟨hrest, hdoc, hentry, fun id p hp => ?_⟩
    obtain hm | hwaits := hleft id p hp
    · obtain rfl | hm := List.mem_cons.1 hm
      · exact Or.inr hresolved
      · exact Or.inl hm
    · exact Or.inr hwaits
  | some x =>
    refine ⟨hrest, hdoc, fun id => ?_, fun id p hp => ?_⟩
    · by_cases hid : id = e.1
      · subst hid
        exact Or.inr ⟨e.2, UMap.mem_entries.1 (hl e List.mem_cons_self), AList.lookup_erase _ _,
          AList.lookup_insert _⟩
      · have hpending : AList.lookup id (AList.erase e.1 t.pendingCursorUpdates) =
            AList.lookup id t.pendingCursorUpdates := AList.lookup_erase_ne hid
        have hremote : AList.lookup id (AList.insert e.1 e.2 t.remoteCursors) =
            AList.lookup id t.remoteCursors := AList.lookup_insert_ne hid
        obtain ⟨hp, hr⟩ | ⟨p, hs, hp, hr⟩ := hentry id
        · exact Or.inl ⟨hpending.trans hp, hremote.trans hr⟩
        · exact Or.inr ⟨p, hs, hpending.trans hp, hremote.trans hr⟩
    · change AList.lookup id (AList.erase e.1 t.pendingCursorUpdates) = some p at hp
      rw [UMap.lookup_erase] at hp
      split at hp
      case isTrue => cases hp
      case isFalse hid =>
        refine (hleft id p hp).imp (fun hm => ?_) fun hwaits => hwaits
        exact (List.mem_cons.1 hm).resolve_left fun he => hid (by rw [← he])

/-- The entry of a client that reported nothing: it may have fallen, or it was released. -/
def Rewritten (H : Set Operation) (id : Str) (s t : EditorSession) : Prop :=
  (AList.lookup id t.pendingCursorUpdates = AList.lookup id s.pendingCursorUpdates ∧
    EntryFalls H (AList.lookup id s.remoteCursors) (AList.lookup id t.remoteCursors)) ∨
  Released id s t

theorem Drifts.rewritten (h : Drifts H s t) (id : Str) : Rewritten H id s t :=
  Or.inl ⟨by rw [h.pending], h.remote id⟩

theorem Drifts.releases (h : Drifts H s t) {id : Str} (hu : Untouched id t u ∨ Released id t u) :
    Rewritten H id s u := by
  obtain ⟨hp, hr⟩ | ⟨p, ht, hp, hr⟩ := hu
  · rw [h.pending] at hp
    exact Or.inl ⟨hp, hr ▸ h.remote id⟩
  · rw [h.pending] at ht
    exact Or.inr ⟨p, ht, hp, hr⟩

/-- **What a message changes in the entries of whom.** -/
structure Touches (m : Message) (s t : EditorSession) : Prop where
  report : m.type = .cursorUpdate → ∀ id, id ≠ m.sender → Untouched id s t
  effect : m.type ≠ .cursorUpdate → ∀ id, Rewritten {op | op ∈ m.effective} id s t

theorem touches_of_effective {m : Message} {ops : List Operation} (hm : m.effective = ops)
    (htype : m.type ≠ .cursorUpdate) (h : ∀ id, Rewritten {op | op ∈ ops} id s t) : Touches m s t :=
  ⟨fun ht => absurd ht htype, fun _ => hm ▸ h⟩

theorem untouched_receiveCursorUpdate (s : EditorSession) (clientId : Str) (position : ElementID) :
    (s.receiveCursorUpdate clientId position).Ends
      (fun t => ∀ id, id ≠ clientId → Untouched id s t)
      fun t => ∀ id, id ≠ clientId → Untouched id s t := by
  rw [receiveCursorUpdate]
  refine Except.ends_leaving_bind (fun resolved _ => ?_) fun _ _ => ⟨rfl, rfl⟩
  cases resolved with
  | none => exact fun id hid => ⟨AList.lookup_insert_ne hid, rfl⟩
  | some _ => exact fun id hid => ⟨AList.lookup_erase_ne hid, AList.lookup_insert_ne hid⟩

/-- **`apply`**, of any message by any session: a report changes the entry of its sender only, an
operation moves carets off what it removes and releases what waited. -/
theorem touches_apply (s : EditorSession) (m : Message) :
    (s.apply m).Ends (Touches m s) (Touches m s) := by
  have hsame : m.type ≠ .cursorUpdate → Touches m s s := fun htype =>
    touches_of_effective rfl htype (drifts_of_eq rfl rfl : Drifts _ s s).rewritten
  have hrelease : ∀ {ops : List Operation} (t : EditorSession), Drifts {op | op ∈ ops} s t →
      t.updatePendingCursorUpdates.Ends (fun u => ∀ id, Rewritten {op | op ∈ ops} id s u)
        fun u => ∀ id, Rewritten {op | op ∈ ops} id s u := fun t ht =>
    (ends_updatePendingCursorUpdates t).imp (fun u hu id => ht.releases (hu.2.1 id))
      fun u hu id => ht.releases (hu id)
  rw [apply]
  cases htype : m.type with
  | operation =>
    have hne : m.type ≠ .cursorUpdate := by rw [htype]; decide
    refine Except.ends_leaving_bind (fun oper hoper => ?_) (hsame hne)
    have hops : m.effective = [oper] := by
      rw [Message.effective, htype]
      cases hp : m.payload <;> rw [hp] at hoper <;> cases hoper
      rfl
    have hset : ({oper} : Set Operation) ⊆ {op | op ∈ [oper]} :=
      Set.singleton_subset_iff.2 (List.mem_singleton_self oper)
    refine ((drifts_applyRemote s oper).imp (fun _ ht => ht.mono hset) fun t ht =>
      touches_of_effective hops hne (ht.mono hset).rewritten).bind fun t ht => ?_
    exact (hrelease t ht).imp (fun _ hu => touches_of_effective hops hne hu)
      fun _ hu => touches_of_effective hops hne hu
  | syncResponse =>
    have hne : m.type ≠ .cursorUpdate := by rw [htype]; decide
    refine Except.ends_leaving_bind (fun history hhistory => ?_) (hsame hne)
    have hops : m.effective = history := by
      rw [Message.effective, htype]
      cases hp : m.payload <;> rw [hp] at hhistory <;> cases hhistory
      rfl
    rw [applyHistory]
    refine Except.Ends.bind (P := fun u => ∀ id, Rewritten {op | op ∈ history} id s u) ?_ fun u hu =>
      touches_of_effective hops hne hu
    refine ((drifts_foldlM drifts_applyRemote (fun op hop => hop) s).imp (fun _ ht => ht)
      fun t ht => touches_of_effective hops hne (Drifts.rewritten ht)).bind fun t ht => ?_
    exact (hrelease t ht).imp (fun _ hu => hu) fun _ hu => touches_of_effective hops hne hu
  | cursorUpdate =>
    have hreport : ∀ t, (∀ id, id ≠ m.sender → Untouched id s t) → Touches m s t := fun t ht =>
      ⟨fun _ => ht, fun hno => absurd htype hno⟩
    refine Except.ends_leaving_bind (fun position _ => ?_) (hreport s fun _ _ => ⟨rfl, rfl⟩)
    exact (untouched_receiveCursorUpdate s m.sender position).imp hreport hreport
  | hello | helloAck | syncRequest | syncComplete | openDocument =>
    exact hsame (by rw [htype]; decide)

/-- After an operation and after a history nobody waits for an element that is present. -/
theorem waits_apply (s : EditorSession) {m : Message}
    (hm : m.type = .operation ∨ m.type = .syncResponse) :
    (s.apply m).Ends Waits fun _ => True := by
  have hrelease : ∀ t : EditorSession, t.updatePendingCursorUpdates.Ends Waits fun _ => True :=
    fun t => (ends_updatePendingCursorUpdates t).imp (fun _ hu => hu.2.2) fun _ _ => trivial
  have htrue : ∀ r : Result, r.Ends (fun _ => True) fun _ => True := fun r => by
    cases r <;> exact trivial
  obtain hm | hm := hm
  · rw [apply, hm]
    exact Except.ends_leaving_bind (fun oper _ => (htrue _).bind fun t _ => hrelease t) trivial
  · rw [apply, hm]
    refine Except.ends_leaving_bind (fun history _ => ?_) trivial
    rw [applyHistory]
    exact ((htrue _).bind fun t _ => hrelease t).bind fun u hu => hu

end CrdtEditor.EditorSession
