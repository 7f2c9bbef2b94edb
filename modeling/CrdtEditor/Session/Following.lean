import CrdtEditor.Document.Changes
import CrdtEditor.Session.Marked

/-!
# Session/Following — what arrives, as edits of a marked editor

The other half of the refinement of `Session/Marked`.  Every operation of the messages that a flush applies
is a list of positional edits, and the marked editor of the session follows them: the text takes the edits,
the caret and the mark are carried along, and a mark whose element is taken out is lost
(`followed_along`).  The column that is remembered stays.
-/

open scoped List

namespace CrdtEditor

open Text

open Except (leaving)

/-! ## A marked editor under edits -/

/-- The mark of a selection through one edit. -/
def Mark.follow (mark : Mark) (c : TextEdit UInt8) : Mark :=
  match mark with
  | .behind k => (TextEdit.track k c).elim .lost .behind
  | .unset => .unset
  | .lost => .lost

/-- A mark behind a character follows it until it is erased. -/
theorem Mark.foldl_follow_behind (k : ℕ) (edits : List (TextEdit UInt8)) :
    edits.foldl Mark.follow (.behind k) = (edits.foldlM TextEdit.track k).elim .lost .behind := by
  have hlost : ∀ edits : List (TextEdit UInt8), edits.foldl Mark.follow .lost = .lost := by
    intro edits
    induction edits with
    | nil => rfl
    | cons c edits ih => exact ih
  induction edits generalizing k with
  | nil => rfl
  | cons c edits ih =>
    rw [List.foldl_cons, List.foldlM_cons, Mark.follow]
    cases TextEdit.track k c with
    | none => exact hlost edits
    | some k' => exact ih k'

/-- One that is unset or lost stays so. -/
theorem Mark.foldl_follow_of_ne {mark : Mark} (h : ∀ k, mark ≠ .behind k)
    (edits : List (TextEdit UInt8)) : edits.foldl Mark.follow mark = mark := by
  induction edits with
  | nil => rfl
  | cons c edits ih =>
    rw [List.foldl_cons, show mark.follow c = mark by
      cases mark with
      | behind k => exact absurd rfl (h k)
      | unset => rfl
      | lost => rfl]
    exact ih

namespace MarkedEditor

/-- An edit made elsewhere. -/
def edit (e : MarkedEditor) (c : TextEdit UInt8) : MarkedEditor where
  text := TextEdit.apply e.text c
  caret := TextEdit.carry e.caret c
  column := e.column
  mark := e.mark.follow c

/-- A list of edits, one after the other. -/
def follow (e : MarkedEditor) (edits : List (TextEdit UInt8)) : MarkedEditor := edits.foldl edit e

/-- More edits. -/
theorem follow_append (e : MarkedEditor) (edits more : List (TextEdit UInt8)) :
    e.follow (edits ++ more) = (e.follow edits).follow more :=
  List.foldl_append

/-- **Text, caret and mark follow separately.** -/
theorem follow_eq (e : MarkedEditor) (edits : List (TextEdit UInt8)) :
    e.follow edits = ⟨⟨edits.foldl TextEdit.apply e.text, edits.foldl TextEdit.carry e.caret, e.column⟩,
      edits.foldl Mark.follow e.mark⟩ := by
  induction edits generalizing e with
  | nil => rfl
  | cons c edits ih => exact ih (e.edit c)

end MarkedEditor

/-! ## One operation -/

/-- What a remote operation leaves of a cursor besides its anchor. -/
theorem Cursor.updateOnRemote_kept {c c' : Cursor} {d : Document} {op : Operation}
    (h : c.updateOnRemote d op = .ok c') :
    c'.selectionAnchor = c.selectionAnchor ∧ c'.desiredColumn = c.desiredColumn := by
  cases op with
  | insert oper =>
    obtain rfl := Except.ok.inj h
    exact ⟨rfl, rfl⟩
  | remove oper =>
    obtain ⟨-, rfl⟩ | ⟨-, y, -, rfl⟩ := updateOnDelete_cases h
    · exact ⟨rfl, rfl⟩
    · exact ⟨rfl, rfl⟩

namespace Document.IsTree

variable {d d' : Document} {op : Operation} {x : ElementID}

/-- A tombstone stays one. -/
theorem notMem_anchors_apply (h : d.IsTree) (hd : d.apply op = .ok d') (hx : x ∈ d.elements)
    (hn : x ∉ d.anchors) : x ∉ d'.anchors := by
  obtain ⟨h', hext⟩ := h.apply op
  rw [hd] at h' hext
  have h' : d'.IsTree := h'
  have hext : Extends d d' := hext
  obtain ⟨hroot, hinvisible⟩ := not_or.mp (mt h.mem_anchors.mpr hn)
  obtain ⟨c, hc⟩ := UMap.mem_iff_lookup.mp hx
  obtain ⟨c', hc', -, hdeleted⟩ := hext.element x c hc
  rw [isVisible_of_lookup hroot hc] at hinvisible
  refine mt h'.mem_anchors.mp (not_or.mpr ⟨hroot, ?_⟩)
  rw [isVisible_of_lookup hroot hc', hdeleted (by simpa using hinvisible)]
  exact Bool.false_ne_true

/-- **The caret is carried by the edits of a remote operation.** -/
theorem carry_updateOnRemote (h : d.IsTree) (hd : d.apply op = .ok d') {c c' : Cursor}
    (hc : c.anchor ∈ d.anchors) (hu : c.updateOnRemote d' op = .ok c') :
    (d.changes d').foldl TextEdit.carry (d.anchors.idxOf c.anchor) = d'.anchors.idxOf c'.anchor := by
  have haligned := h.aligned_apply op
  rw [hd] at haligned
  have haligned : Aligned d d' := haligned
  have hstays (hmem : c.anchor ∈ d'.anchors) :
      (d.changes d').foldl TextEdit.carry (d.anchors.idxOf c.anchor) = d'.anchors.idxOf c.anchor :=
    TextEdit.foldl_carry_of_foldlM_track (haligned.track hc hmem)
  cases op with
  | insert oper =>
    obtain rfl := Except.ok.inj hu
    have hsub := h.anchors_sublist_insert oper
    rw [hd] at hsub
    exact hstays (hsub.subset hc)
  | remove oper =>
    obtain rfl : d.applyDelete oper = d' := Except.ok.inj hd
    obtain ⟨htarget, rfl⟩ | ⟨htarget, y, hy, rfl⟩ := Cursor.updateOnDelete_cases hu
    · exact hstays (mem_anchors_applyDelete.mpr ⟨hc, Or.inr (Ne.symm htarget)⟩)
    · have hcarry := h.carry_remove (htarget ▸ hc) hy
      rw [htarget] at hcarry
      exact hcarry

end Document.IsTree

namespace InputHandler

/-- **A remote operation on a handler** is a list of edits of its marked editor. -/
theorem Placed.marked_updateOnRemote {h g : InputHandler} (hp : h.Placed) {op : Operation}
    (hd : h.doc.apply op = .ok g.doc) (hu : h.cursor.updateOnRemote g.doc op = .ok g.cursor)
    (hmark : ∀ a, h.cursor.selectionAnchor = some a → a ∈ h.doc.elements) :
    g.marked = h.marked.follow (h.doc.changes g.doc) := by
  have haligned := hp.tree.aligned_apply op
  rw [hd] at haligned
  have haligned : h.doc.Aligned g.doc := haligned
  obtain ⟨hselection, hcolumn⟩ := Cursor.updateOnRemote_kept hu
  have hcaret : (h.doc.changes g.doc).foldl TextEdit.carry h.caret = g.caret :=
    hp.tree.carry_updateOnRemote hd hp.anchor hu
  have hmarks : g.mark = (h.doc.changes g.doc).foldl Mark.follow h.mark := by
    cases ha : h.cursor.selectionAnchor with
    | none =>
      rw [mark_of_none ha, mark_of_none (hselection.trans ha), Mark.foldl_follow_of_ne (by simp)]
    | some a =>
      by_cases hmem : a ∈ h.doc.anchors
      · rw [mark_of_mem ha hmem, Mark.foldl_follow_behind]
        by_cases hmem' : a ∈ g.doc.anchors
        · rw [mark_of_mem (hselection.trans ha) hmem', haligned.track hmem hmem']
          rfl
        · rw [mark_of_notMem (hselection.trans ha) hmem', haligned.track_of_notMem hmem hmem']
          rfl
      · have hmem' := hp.tree.notMem_anchors_apply hd (hmark a ha) hmem
        rw [mark_of_notMem ha hmem, mark_of_notMem (hselection.trans ha) hmem',
          Mark.foldl_follow_of_ne (by simp)]
  rw [MarkedEditor.follow_eq, marked, view, hmarks, hcolumn, ← hcaret, ← haligned.text]
  rfl

end InputHandler

namespace EditorSession

variable {s t : EditorSession} {received : List Operation} {op : Operation}

/-- The document is a tree, and what the selection began at is one of its elements. -/
structure Anchored (s : EditorSession) : Prop where
  tree : s.doc.IsTree
  mark : ∀ a, s.cursor.selectionAnchor = some a → a ∈ s.doc.elements

/-- Neither the log nor the queues matter. -/
theorem Anchored.congr (h : s.Anchored) (hdoc : t.doc = s.doc)
    (hcursor : t.cursor.selectionAnchor = s.cursor.selectionAnchor) : t.Anchored :=
  ⟨hdoc ▸ h.tree, fun a ha => hdoc ▸ h.mark a (hcursor ▸ ha)⟩

/-- The carets of other clients are not part of the document or the cursor. -/
theorem updateRemoteCursors_kept (h : s.updateRemoteCursors op = .ok t) :
    t.doc = s.doc ∧ t.cursor = s.cursor := by
  have hends : (s.updateRemoteCursors op).Ends (fun t => t.doc = s.doc ∧ t.cursor = s.cursor)
      fun _ => True := by
    cases op with
    | insert oper => exact ⟨rfl, rfl⟩
    | remove oper =>
      refine Except.ends_foldlM (I := fun _ (t : EditorSession) => t.doc = s.doc ∧ t.cursor = s.cursor)
        (fun e l u hu => ?_) ⟨rfl, rfl⟩
      rw [updateRemoteCursor]
      exact Except.ends_ite (fun _ => Except.ends_leaving_bind (fun _ _ => hu) trivial) fun _ => hu
  rw [h] at hends
  exact hends

/-- What an operation that is applied does to the document and the cursor: nothing if it was applied
before. -/
theorem applyOperation_cases {b : Bool} (h : s.applyOperation op b = .ok t) :
    (t.doc = s.doc ∧ t.cursor = s.cursor) ∨ (s.doc.apply op = .ok t.doc ∧
      (if b then s.cursor.update t.doc op else s.cursor.updateOnRemote t.doc op) = .ok t.cursor) := by
  let P : EditorSession → Prop := fun t =>
    (t.doc = s.doc ∧ t.cursor = s.cursor) ∨ (s.doc.apply op = .ok t.doc ∧
      (if b then s.cursor.update t.doc op else s.cursor.updateOnRemote t.doc op) = .ok t.cursor)
  have hends : (s.applyOperation op b).Ends P fun _ => True := by
    rw [applyOperation]
    refine Except.ends_ite (fun _ => Or.inl ⟨rfl, rfl⟩) fun _ => ?_
    refine Except.Ends.bind (P := fun u => u.cursor = s.cursor ∧ s.doc.apply op = .ok u.doc) ?_
      fun u hu => ?_
    · rw [applyToDocument]
      split
      case _ d hd => exact ⟨rfl, hd⟩
      case _ => exact trivial
    refine Except.ends_leaving_bind (fun cursor hcursor => ?_) trivial
    rw [hu.1] at hcursor
    cases hr : ({ u with cursor := cursor } : EditorSession).updateRemoteCursors op with
    | error e => exact trivial
    | ok v =>
      obtain ⟨hdoc, hkept⟩ := updateRemoteCursors_kept hr
      have hdoc : v.doc = u.doc := hdoc
      have hkept : v.cursor = cursor := hkept
      refine Or.inr ⟨?_, ?_⟩
      · rw [hdoc]
        exact hu.2
      · rw [hdoc, hkept]
        exact hcursor
  rw [h] at hends
  exact hends

/-- **One operation** keeps every element, hence that of the selection. -/
theorem Anchored.applyOperation (h : s.Anchored) {b : Bool} (ht : s.applyOperation op b = .ok t) :
    t.Anchored := by
  obtain ⟨hdoc, hcursor⟩ | ⟨hdoc, hcursor⟩ := applyOperation_cases ht
  · exact h.congr hdoc (by rw [hcursor])
  obtain ⟨htree, hext⟩ := h.tree.apply op
  rw [hdoc] at htree hext
  have hselection : t.cursor.selectionAnchor = s.cursor.selectionAnchor := by
    cases b with
    | true => exact Cursor.selectionAnchor_update hcursor
    | false => exact (Cursor.updateOnRemote_kept hcursor).1
  exact ⟨htree, fun a ha => Document.Extends.mem hext (h.mark a (hselection ▸ ha))⟩

/-- **A remote operation is a list of edits** of the marked editor that a session is. -/
theorem marked_applyRemote (h : s.Anchored) (hanchor : s.cursor.anchor ∈ s.doc.anchors)
    (ht : s.applyRemote op = .ok t) :
    t.marked = s.marked.follow (s.doc.changes t.doc) ∧ t.Anchored := by
  have hsync : (s.syncClock op).doc = s.doc ∧ (s.syncClock op).cursor = s.cursor := by
    cases op <;> exact ⟨rfl, rfl⟩
  have hanchored : (s.syncClock op).Anchored := h.congr hsync.1 (by rw [hsync.2])
  refine ⟨?_, hanchored.applyOperation ht⟩
  obtain ⟨hdoc, hcursor⟩ | ⟨hdoc, hcursor⟩ := applyOperation_cases ht
  · rw [hsync.1] at hdoc
    rw [hsync.2] at hcursor
    rw [hdoc, Document.changes_self, marked, handler, hdoc, hcursor]
    rfl
  · rw [hsync.1] at hdoc
    rw [hsync.2] at hcursor
    exact InputHandler.Placed.marked_updateOnRemote (h := s.handler) (g := t.handler)
      ⟨h.tree, hanchor⟩ hdoc hcursor h.mark

/-! ## Messages -/

/-- The edits of operations that are applied one after the other. -/
def remoteEdits : EditorSession → List Operation → List (TextEdit UInt8)
  | _, [] => []
  | s, op :: ops =>
    s.doc.changes (s.applyRemote op).state.doc ++ remoteEdits (s.applyRemote op).state ops

/-- The edits of messages. -/
def messageEdits : EditorSession → List Message → List (TextEdit UInt8)
  | _, [] => []
  | s, m :: ms => s.remoteEdits m.effective ++ messageEdits (s.apply m).state ms

/-- **What a flush brings.** -/
def arriving (s : EditorSession) : List (TextEdit UInt8) :=
  messageEdits { s with incomingQueue := [] } s.incomingQueue

/-- A session whose text, cursor and selection are those of another that followed some edits. -/
structure Follows (edits : List (TextEdit UInt8)) (s t : EditorSession) : Prop where
  marked : t.marked = s.marked.follow edits
  anchored : t.Anchored

/-- Neither the log nor the queues matter. -/
theorem Follows.congr {edits : List (TextEdit UInt8)} {u : EditorSession} (h : Follows edits s t)
    (hdoc : u.doc = t.doc) (hcursor : u.cursor = t.cursor) : Follows edits s u := by
  refine ⟨?_, h.anchored.congr hdoc (by rw [hcursor])⟩
  rw [← h.marked, EditorSession.marked, EditorSession.marked, handler, handler, hdoc, hcursor]
  rfl

/-- **A list of operations** is a list of edits. -/
theorem Steady.follows_applyRemote : ∀ {ops : List Operation} {s t : EditorSession},
    Steady received s → s.Anchored → ops ⊆ received → s.Fair ops →
    ops.foldlM EditorSession.applyRemote s = .ok t → Follows (s.remoteEdits ops) s t
  | [], s, t, _, ha, _, _, ht => by
      obtain rfl := Except.ok.inj ht
      exact ⟨rfl, ha⟩
  | op :: ops, s, t, h, ha, hsub, hf, ht => by
      have hhead : [op] ⊆ op :: ops := List.cons_subset_cons op (List.nil_subset ops)
      obtain ⟨u, hu, hsteady⟩ := h.applyRemote (hsub List.mem_cons_self)
        (hf.mono hhead Set.subset_union_left)
      have htakes := takes_applyRemote s op
      rw [hu] at htakes
      have hhist : u.history ⊆ s.history ∪ {o | o ∈ op :: ops} :=
        (Takes.toDoes htakes).sub.trans (Set.union_subset_union_right _ fun _ ho => hhead ho)
      obtain ⟨hmarked, hanchored⟩ := marked_applyRemote ha h.anchor hu
      have hrest : ops.foldlM EditorSession.applyRemote u = .ok t := by
        rw [List.foldlM_cons, hu] at ht
        exact ht
      obtain ⟨hfollow, hlast⟩ := hsteady.follows_applyRemote hanchored
        (fun o ho => hsub (List.mem_cons_of_mem _ ho)) (hf.mono (List.subset_cons_self op ops) hhist)
        hrest
      have hstate : (s.applyRemote op).state = u := by rw [hu]; rfl
      rw [remoteEdits, hstate]
      exact ⟨by rw [hfollow, hmarked, MarkedEditor.follow_append], hlast⟩

/-- A message: its operations one after the other; the carets of others are written beside. -/
theorem Steady.follows_apply (h : Steady received s) (ha : s.Anchored) {m : Message}
    (hf : s.Fair m.payload.operations) (ht : s.apply m = .ok t) :
    Follows (s.remoteEdits m.effective) s t := by
  have hm := formed_of_apply ht
  have h' := h.mono (List.subset_append_left received m.payload.operations)
  have hself : Follows (s.remoteEdits []) s s := ⟨rfl, ha⟩
  obtain ⟨type, sender, payload⟩ := m
  have hskip (he : s = t) : Follows (s.remoteEdits []) s t := he ▸ hself
  cases type with
  | operation =>
    obtain ⟨op, rfl⟩ : ∃ op, payload = .operation op := by
      cases payload <;> first | exact ⟨_, rfl⟩ | cases hm
    have hmem : [op] ⊆ received ++ [op] := List.subset_append_right _ _
    obtain ⟨u, hu, hsteady⟩ := h'.foldlM_applyRemote hmem hf
    have hfollow := h'.follows_applyRemote ha hmem hf hu
    obtain ⟨remote, pending, hpending, -⟩ := exists_updatePendingCursorUpdates hsteady.tree hsteady.remote
    have hu : s.applyRemote op = .ok u := by
      rw [List.foldlM_cons, Except.bind_eq_ok] at hu
      obtain ⟨v, hv, hu⟩ := hu
      exact Except.ok.inj hu ▸ hv
    have hlast : t = { u with remoteCursors := remote, pendingCursorUpdates := pending } := by
      rw [EditorSession.apply] at ht
      simp only [MessagePayload.getOperation, leaving, bind, Except.bind, hu, hpending] at ht
      exact (Except.ok.inj ht).symm
    exact hfollow.congr (by rw [hlast]) (by rw [hlast])
  | syncResponse =>
    obtain ⟨ops, rfl⟩ : ∃ ops, payload = .history ops := by
      cases payload <;> first | exact ⟨_, rfl⟩ | cases hm
    have hmem : ops ⊆ received ++ ops := List.subset_append_right _ _
    obtain ⟨u, hu, hsteady⟩ := h'.foldlM_applyRemote hmem hf
    have hfollow := h'.follows_applyRemote ha hmem hf hu
    obtain ⟨remote, pending, hpending, -⟩ := exists_updatePendingCursorUpdates hsteady.tree hsteady.remote
    have hlast : t.doc = u.doc ∧ t.cursor = u.cursor := by
      rw [EditorSession.apply] at ht
      simp only [applyHistory, MessagePayload.getHistory, leaving, bind, Except.bind, hu, hpending] at ht
      rw [← Except.ok.inj ht]
      exact ⟨rfl, rfl⟩
    exact hfollow.congr hlast.1 hlast.2
  | cursorUpdate =>
    obtain ⟨x, rfl⟩ : ∃ x, payload = .cursorUpdate x := by
      cases payload <;> first | exact ⟨_, rfl⟩ | cases hm
    have hends : (s.receiveCursorUpdate sender x).Ends (fun t => t.doc = s.doc ∧ t.cursor = s.cursor)
        fun _ => True := by
      refine Except.ends_leaving_bind (fun resolved _ => ?_) trivial
      cases resolved <;> exact ⟨rfl, rfl⟩
    have ht : s.receiveCursorUpdate sender x = .ok t := ht
    rw [ht] at hends
    exact hself.congr hends.1 hends.2
  | hello => exact hskip (Except.ok.inj ht)
  | helloAck => exact hskip (Except.ok.inj ht)
  | syncRequest => exact hskip (Except.ok.inj ht)
  | syncComplete => exact hskip (Except.ok.inj ht)
  | openDocument => exact hskip (Except.ok.inj ht)

/-- **A list of messages** too. -/
theorem Steady.follows_foldlM_apply : ∀ {ms : List Message} {received : List Operation}
    {s t : EditorSession}, Steady received s → s.Anchored →
    s.Fair (ms.flatMap (·.payload.operations)) → ms.foldlM EditorSession.apply s = .ok t →
    Follows (s.messageEdits ms) s t
  | [], _, s, t, _, ha, _, ht => by
      obtain rfl := Except.ok.inj ht
      exact ⟨rfl, ha⟩
  | m :: ms, received, s, t, h, ha, hf, ht => by
      have hhead : m.payload.operations ⊆ (m :: ms).flatMap (·.payload.operations) :=
        List.subset_append_left _ _
      have htail : ms.flatMap (·.payload.operations) ⊆ (m :: ms).flatMap (·.payload.operations) :=
        List.subset_append_right _ _
      have hfirst := hf.mono hhead Set.subset_union_left
      rw [List.foldlM_cons, Except.bind_eq_ok] at ht
      obtain ⟨u, hu, ht⟩ := ht
      obtain ⟨hmarked, hanchored⟩ := h.follows_apply ha hfirst hu
      obtain ⟨v, hv, hsteady⟩ := h.exists_apply (formed_of_apply hu) hfirst
      obtain rfl : u = v := Except.ok.inj (hu.symm.trans hv)
      have htakes := takes_apply s m
      rw [hu] at htakes
      have hhist : u.history ⊆ s.history ∪ {o | o ∈ (m :: ms).flatMap (·.payload.operations)} :=
        (Takes.toDoes htakes).sub.trans (Set.union_subset_union_right _ fun _ ho =>
          hhead (m.effective_subset ho))
      obtain ⟨hfollow, hlast⟩ := hsteady.follows_foldlM_apply hanchored (hf.mono htail hhist) ht
      have hstate : (s.apply m).state = u := by rw [hu]; rfl
      rw [messageEdits, hstate]
      exact ⟨by rw [hfollow, hmarked, MarkedEditor.follow_append], hlast⟩

/-- **A flush is a list of edits.** -/
theorem Sound.follows_flushIncoming (h : Sound received s) (ha : s.Anchored)
    (hh : s.Honest (s.incomingQueue.flatMap (·.payload.operations))) (ht : s.flushIncoming = .ok t) :
    Follows s.arriving s t := by
  have hempty : Sound received { s with incomingQueue := [] } :=
    h.congr rfl rfl rfl rfl rfl h.anchor
  have hfair : ({ s with incomingQueue := [] } : EditorSession).Fair
      (s.incomingQueue.flatMap (·.payload.operations)) := ⟨hh.consistent, hh.lamport⟩
  have hanchored : ({ s with incomingQueue := [] } : EditorSession).Anchored := ha.congr rfl rfl
  obtain ⟨hmarked, hlast⟩ := hempty.toSteady.follows_foldlM_apply hanchored hfair ht
  exact ⟨hmarked, hlast⟩

end EditorSession

/-! ## The selection begins at an element -/

namespace InputHandler

variable {h : InputHandler}

/-- The call threw, or left a selection that was begun before or that begins at the caret. -/
def Begins (h : InputHandler) : Handling → Prop
  | .ok r => ∀ a, r.1.cursor.selectionAnchor = some a →
      h.cursor.selectionAnchor = some a ∨ a = h.cursor.anchor
  | .error _ => True

/-- A call that leaves the selection it found, or one that begins at the caret. -/
theorem Selects.begins {b : Option ElementID} {r : Handling} (hr : Selects b r)
    (hb : ∀ a, b = some a → h.cursor.selectionAnchor = some a ∨ a = h.cursor.anchor) : h.Begins r := by
  cases r with
  | ok r => exact fun a ha => hb a (hr.symm.trans ha)
  | error e => exact trivial

/-- A plain move gives the selection up. -/
theorem begins_moving {impl : InputHandler → Handling}
    (himpl : ∀ {g : InputHandler} {s}, g.cursor.selectionAnchor = s → Selects s (impl g)) :
    h.Begins (moving impl h) :=
  (selects_moving himpl).begins fun _ ha => by cases ha

/-- A shifted move begins one at the caret, or carries it on. -/
theorem begins_shifting {impl : InputHandler → Handling}
    (himpl : ∀ {g : InputHandler} {s}, g.cursor.selectionAnchor = s → Selects s (impl g)) :
    h.Begins (shifting impl h) :=
  (selects_shifting himpl).begins fun a ha => by
    split at ha
    · exact Or.inl ha
    · exact Or.inr (Option.some.inj ha).symm

/-- A deletion gives it up, or finds nothing to delete. -/
theorem begins_deleteSelection (h : InputHandler) : h.Begins h.deleteSelection := by
  have hkeep : ∀ {ops}, h.Begins (.ok (h, ops)) := fun a ha => Or.inl ha
  have hleaving : ∀ {α : Type} {r : Except Exn α} {f : α → Handling}, (∀ x, h.Begins (f x)) →
      h.Begins (leaving h r >>= f) := fun {_ r _} hf => by
    cases r with
    | ok x => exact hf x
    | error e => exact trivial
  rw [deleteSelection]
  split
  · exact hkeep
  refine hleaving fun range => ?_
  cases range with
  | none => exact hkeep
  | some range =>
    refine hleaving fun ids => ?_
    cases ids with
    | nil => exact fun a ha => by cases ha
    | cons first rest => exact hleaving fun y a ha => by cases ha

/-- **Every command** carries a selection on, begins one at the caret, or gives it up. -/
theorem begins_processCommand (h : InputHandler) (command : EditorCommand) :
    h.Begins (h.processCommand command) := by
  have hnone : ∀ {r}, Selects none r → h.Begins r := fun hr => hr.begins fun _ ha => by cases ha
  have hkeep : ∀ {r}, Selects h.cursor.selectionAnchor r → h.Begins r := fun hr =>
    hr.begins fun _ ha => Or.inl ha
  rw [processCommand]
  cases command.type with
  | insertCharacter => exact hnone (selects_leaving_bind fun _ => rfl)
  | enter => exact hnone rfl
  | moveLeft => exact begins_moving selects_moveLeftImpl
  | moveRight => exact begins_moving selects_moveRightImpl
  | moveUp => exact begins_moving selects_moveUpImpl
  | moveDown => exact begins_moving selects_moveDownImpl
  | shiftLeft => exact begins_shifting selects_moveLeftImpl
  | shiftRight => exact begins_shifting selects_moveRightImpl
  | shiftUp => exact begins_shifting selects_moveUpImpl
  | shiftDown => exact begins_shifting selects_moveDownImpl
  | backspace =>
    change h.Begins h.backspace
    rw [backspace]
    split
    · exact h.begins_deleteSelection
    · exact hkeep (selects_leaving_bind fun _ => rfl)
  | deleteForward =>
    change h.Begins h.deleteForward
    rw [deleteForward]
    split
    · exact h.begins_deleteSelection
    · refine hkeep (selects_leaving_bind fun next => ?_)
      cases next <;> rfl

end InputHandler

namespace EditorSession

variable {s t : EditorSession} {received : List Operation}

/-- **The operations of a command** keep the element of the selection. -/
theorem Anchored.foldlM_perform : ∀ {ops : List Operation} {s t : EditorSession}, s.Anchored →
    ops.foldlM perform s = .ok t → t.Anchored
  | [], s, t, h, ht => by
      obtain rfl := Except.ok.inj ht
      exact h
  | op :: ops, s, t, h, ht => by
      rw [List.foldlM_cons, Except.bind_eq_ok] at ht
      obtain ⟨u, hu, ht⟩ := ht
      obtain ⟨v, hv, hu⟩ := Except.bind_eq_ok.mp hu
      obtain rfl := Except.ok.inj hu
      have hqueued : (v.queueOutgoingMessage ⟨.operation, v.clientId, .operation op⟩).Anchored :=
        (h.applyOperation hv).congr rfl rfl
      exact hqueued.foldlM_perform ht

/-- **The selection of a session began at an element of its document**, whatever happens. -/
theorem Anchored.input (h : s.Anchored) (hanchor : s.cursor.anchor ∈ s.doc.anchors)
    {i : Input} (hflush : i ≠ .flush) (ht : s.input i = .ok t) : t.Anchored := by
  have hcaret := h.tree.mem_of_mem_anchors hanchor
  cases i with
  | command command =>
    have ht : s.handleEditorCommand command = .ok t := ht
    have hreads := s.handler.reads_processCommand command
    have hbegins := s.handler.begins_processCommand command
    cases hrun : s.handler.processCommand command with
    | error e =>
      rw [handleEditorCommand, processCommand, hrun] at ht
      cases ht
    | ok r =>
      obtain ⟨g, ops⟩ := r
      rw [hrun] at hreads hbegins
      obtain ⟨u, hu, hdoc, -, hselection⟩ := handleEditorCommand_cases hrun ht
      have hput : (s.put g).Anchored := by
        have hg : g.doc = s.doc := hreads
        have htree : g.doc.IsTree := by
          rw [hg]
          exact h.tree
        refine ⟨htree, fun a ha => ?_⟩
        change a ∈ g.doc.elements
        rw [hg]
        exact (hbegins a ha).elim (h.mark a) fun he => he ▸ hcaret
      exact (hput.foldlM_perform hu).congr hdoc
        (hselection.trans (selectionAnchor_foldlM_perform hu).symm)
  | queueCursorUpdate =>
    obtain rfl := Except.ok.inj ht
    exact h.congr rfl rfl
  | mousePress line column =>
    obtain ⟨x, hx, hnear⟩ := exists_anchorNear h.tree line column
    have ht : s.mousePressEvent line column = .ok t := ht
    rw [mousePressEvent_eq h.tree hnear hx] at ht
    obtain rfl := Except.ok.inj ht
    exact h.congr rfl rfl
  | mouseMove line column =>
    obtain ⟨x, hx, hnear⟩ := exists_anchorNear h.tree line column
    have ht : s.mouseMoveEvent line column = .ok t := ht
    rw [mouseMoveEvent_eq hnear] at ht
    obtain rfl := Except.ok.inj ht
    refine ⟨h.tree, fun a ha => ?_⟩
    have ha : (s.dragged x).selectionAnchor = some a := ha
    rw [dragged] at ha
    split at ha
    · exact h.mark a ha
    · exact Option.some.inj ha ▸ hcaret
  | receive message =>
    obtain rfl := Except.ok.inj ht
    exact h.congr rfl rfl
  | flush => exact absurd rfl hflush

/-- **What arrives is followed**: in every honest run a flush does to the text, the caret, the remembered
column and the selection what the edits of the messages in the queue do to the marked editor, one message
and one operation after the other. -/
theorem followed_along {clientId : Str} (hbar : bar ∉ clientId) {inputs : List Input}
    (h : Along step Allows (start clientId, []) inputs) :
    Along step (fun c i => i = .flush → ∃ t, c.1.flushIncoming = .ok t ∧
      t.marked = c.1.marked.follow c.1.arriving) (start clientId, []) inputs := by
  suffices hstep : ∀ (c : EditorSession × List Operation) (i : Input),
      Sound c.2 c.1 ∧ c.1.Anchored → Allows c i →
      (i = .flush → ∃ t, c.1.flushIncoming = .ok t ∧ t.marked = c.1.marked.follow c.1.arriving) ∧
        Sound (step c i).2 (step c i).1 ∧ (step c i).1.Anchored from
    Along.of_invariant hstep ⟨sound_start hbar, Document.isTree_empty, fun _ ha => by cases ha⟩ h
  intro c i ⟨hc, ha⟩ hi
  obtain ⟨t, ht, hsound⟩ := hc.input hi
  have hstep : step c i = (t, c.2 ++ c.1.taken i) := step_of_ok ht
  rw [hstep]
  by_cases hflush : i = .flush
  · subst hflush
    obtain ⟨hmarked, hanchored⟩ := hc.follows_flushIncoming ha hi.2 ht
    exact ⟨fun _ => ⟨t, ht, hmarked⟩, hsound, hanchored⟩
  · exact ⟨fun he => absurd he hflush, hsound, ha.input hc.anchor hflush ht⟩

/-- A character whose parent is missing, the parent, and removals of what the mark and the caret stand
behind. -/
def followedInputs : List Input :=
  let remote (op : Operation) : Input := .receive ⟨.operation, str "b", .operation op⟩
  [.command ⟨.insertCharacter, 65⟩, .command ⟨.insertCharacter, 66⟩, .command ⟨.shiftLeft, 0⟩,
    remote (.insert ⟨⟨8, str "b"⟩, ⟨9, str "b"⟩, 90⟩), remote (.insert ⟨rootId, ⟨8, str "b"⟩, 89⟩),
    remote (.remove ⟨⟨2, str "a"⟩⟩), remote (.remove ⟨⟨1, str "a"⟩⟩), .flush]

theorem followed_along_drained :
    Along step (fun c i => i = .flush → ∃ t, c.1.flushIncoming = .ok t ∧
        t.marked = c.1.marked.follow c.1.arriving) (start (str "a"), []) followedInputs ∧
      (followedInputs.dropLast.foldl step (start (str "a"), [])).1.arriving =
        [.insert 0 89, .insert 1 90, .erase 3, .erase 2] :=
  ⟨followed_along (by decide) (by decide +kernel), by decide +kernel⟩

end EditorSession

end CrdtEditor
