import CrdtEditor.Document.Edit
import CrdtEditor.Editor.PlainEditor
import CrdtEditor.Session.Effects

/-!
# Session/Replica — what every session keeps

Fed with consistent operations, a session holds the document its log amounts to, every remote caret
on an element, its own caret behind an anchor and its clock at the largest insert it has seen
(`Steady`).  Every operation that fits keeps this (`Steady.applyRemote`, `Steady.applyRemove`), and so
do a message (`Steady.exists_apply`) and a command (`Steady.handleEditorCommand`).

An operation whose text was applied before is dropped.  Without a bar in the ids it was applied itself,
so the history is all that the session took (`Sound`).
-/

namespace CrdtEditor

open Text

/-- The ids an operation mentions. -/
def Operation.names : Operation → List ElementID
  | insert oper => [oper.ident, oper.parent]
  | remove oper => [oper.theTarget]

/-- The text of a removal is the text of nothing else. -/
theorem Operation.eq_remove_of_serialize {op : Operation} {oper : RemoveOperation}
    (h : op.serialize = (remove oper).serialize) : op = remove oper := by
  match op, h with
  | insert oper', h =>
    have hi : str "INSERT|" <+: (insert oper').serialize := by
      simp only [serialize, InsertOperation.serialize, List.append_assoc]
      exact List.prefix_append _ _
    rw [h] at hi
    exact absurd (List.prefix_of_prefix_length_le hi
      (List.prefix_append (str "REMOVE|") oper.theTarget.serialize) (by decide)) (by decide)
  | remove oper', h =>
    have hids : oper'.theTarget.serialize = oper.theTarget.serialize := List.append_cancel_left h
    have hread := ElementID.deserialize_serialize oper'.theTarget
    rw [hids, ElementID.deserialize_serialize] at hread
    cases oper
    cases oper'
    exact congrArg (fun x => remove ⟨x⟩) (Except.ok.inj hread).symm

namespace EditorSession

/-- The document, the log, the clock and the remote carets fit together; what the session did not
receive mentions no id above the clock. -/
structure Coherent (received : List Operation) (s : EditorSession) : Prop where
  settling : Document.Settling s.history s.doc []
  buffer : s.doc.BufferSound
  consistent : Operation.Consistent s.history
  applied : ∀ t, t ∈ s.appliedOperations ↔ ∃ op ∈ s.history, op.serialize = t
  recorded : s.log.recordedOperations = s.appliedOperations
  remote : ∀ id x, AList.lookup id s.remoteCursors = some x → x ∈ s.doc.elements
  clock : ∀ oper, .insert oper ∈ s.history → oper.ident.lamport ≤ s.gen.lamportClock
  bound : s.gen.lamportClock.toNat < 2 ^ 64 - 1
  named : ∀ op ∈ s.history, op ∈ received ∨ ∀ x ∈ op.names, x.lamport ≤ s.gen.lamportClock

/-- With its caret behind an anchor. -/
structure Steady (received : List Operation) (s : EditorSession) : Prop extends
    Coherent received s where
  anchor : s.cursor.anchor ∈ s.doc.anchors

/-- A coherent session without a bar in an id. -/
structure Replica (received : List Operation) (s : EditorSession) : Prop extends
    Coherent received s where
  avoids : ∀ op ∈ s.history, op.Avoids bar
  site : bar ∉ s.gen.clientId

/-- A replica with its caret behind an anchor. -/
structure Sound (received : List Operation) (s : EditorSession) : Prop extends
    Replica received s, Steady received s

/-- An operation a coherent session can apply. -/
structure Suits (received : List Operation) (s : EditorSession) (op : Operation) : Prop where
  consistent : Operation.Consistent (insert op s.history)
  clock : ∀ oper, op = .insert oper → oper.ident.lamport ≤ s.gen.lamportClock
  named : op ∈ received ∨ ∀ x ∈ op.names, x.lamport ≤ s.gen.lamportClock

variable {s t : EditorSession} {received : List Operation} {op : Operation}

theorem Steady.sound (h : Steady received s) (havoids : ∀ op ∈ s.history, op.Avoids bar)
    (hsite : bar ∉ s.gen.clientId) : Sound received s :=
  { h with avoids := havoids, site := hsite }

theorem steady_start (clientId : Str) : Steady [] (start clientId) where
  settling := by
    have hempty : history (start clientId) = ∅ :=
      Set.ext fun op => by simp [history, start, OperationLog.empty]
    rw [hempty]
    exact Document.settling_empty
  buffer := Document.bufferSound_empty
  consistent := fun a _ ha => absurd ha List.not_mem_nil
  applied := fun t => by simp [start, history, OperationLog.empty]
  recorded := rfl
  remote := fun id x h => absurd h (by simp [start])
  clock := fun _ h => absurd h List.not_mem_nil
  bound := (by decide : (0 : UInt64).toNat < 2 ^ 64 - 1)
  named := fun _ h => absurd h List.not_mem_nil
  anchor := List.mem_cons_self

theorem sound_start {clientId : Str} (hbar : bar ∉ clientId) : Sound [] (start clientId) :=
  (steady_start clientId).sound (fun _ h => absurd h List.not_mem_nil) hbar

/-! ## The loops over the carets -/

/-- The remote carets fall back onto elements. -/
theorem exists_updateRemoteCursors (ht : s.doc.IsTree)
    (hrem : ∀ id x, AList.lookup id s.remoteCursors = some x → x ∈ s.doc.elements)
    (op : Operation) : ∃ m, s.updateRemoteCursors op = .ok { s with remoteCursors := m } ∧
      ∀ id x, AList.lookup id m = some x → x ∈ s.doc.elements := by
  cases op with
  | insert oper => exact ⟨s.remoteCursors, rfl, hrem⟩
  | remove oper =>
    have hloop : ∀ (es : List (Sigma fun _ : Str => ElementID)) (m : UMap Str ElementID),
        (∀ e ∈ es, e.2 ∈ s.doc.elements) →
        (∀ id x, AList.lookup id m = some x → x ∈ s.doc.elements) →
        ∃ m', es.foldlM (updateRemoteCursor oper.theTarget) { s with remoteCursors := m } =
            .ok { s with remoteCursors := m' } ∧
          ∀ id x, AList.lookup id m' = some x → x ∈ s.doc.elements := by
      intro es
      induction es with
      | nil => exact fun m _ hm => ⟨m, rfl, hm⟩
      | cons e es ih =>
        intro m hes hm
        have hrest : ∀ e' ∈ es, e'.2 ∈ s.doc.elements := fun e' he' =>
          hes e' (List.mem_cons_of_mem _ he')
        rw [List.foldlM_cons, updateRemoteCursor]
        by_cases he : e.2 = oper.theTarget
        · obtain ⟨y, hy, hok, -⟩ :=
            ht.exists_visiblePredecessor (he ▸ hes e List.mem_cons_self)
          rw [if_pos he, hok]
          refine ih _ hrest fun id x hx => ?_
          rw [UMap.lookup_insert] at hx
          split at hx
          · exact Option.some.inj hx ▸ ht.mem_of_mem_anchors hy
          · exact hm id x hx
        · rw [if_neg he]
          exact ih m hrest hm
    exact hloop _ _ (fun e he => hrem e.1 e.2 (UMap.mem_entries.mp he)) hrem

/-- Pending carets that resolve become remote carets, on elements. -/
theorem exists_updatePendingCursorUpdates (ht : s.doc.IsTree)
    (hrem : ∀ id x, AList.lookup id s.remoteCursors = some x → x ∈ s.doc.elements) :
    ∃ m p, s.updatePendingCursorUpdates =
        .ok { s with remoteCursors := m, pendingCursorUpdates := p } ∧
      ∀ id x, AList.lookup id m = some x → x ∈ s.doc.elements := by
  have hloop : ∀ (es : List (Sigma fun _ : Str => ElementID)) (m p : UMap Str ElementID),
      (∀ id x, AList.lookup id m = some x → x ∈ s.doc.elements) →
      ∃ m' p', es.foldlM updatePendingCursor
          { s with remoteCursors := m, pendingCursorUpdates := p } =
          .ok { s with remoteCursors := m', pendingCursorUpdates := p' } ∧
        ∀ id x, AList.lookup id m' = some x → x ∈ s.doc.elements := by
    intro es
    induction es with
    | nil => exact fun m p hm => ⟨m, p, rfl, hm⟩
    | cons e es ih =>
      intro m p hm
      rw [List.foldlM_cons, updatePendingCursor]
      by_cases he : e.2 ∈ s.doc.elements
      · obtain ⟨y, -, hok⟩ := ht.exists_resolveCursorAnchor he
        rw [hok]
        refine ih _ _ fun id x hx => ?_
        rw [UMap.lookup_insert] at hx
        split at hx
        · exact Option.some.inj hx ▸ he
        · exact hm id x hx
      · rw [ht.resolveCursorAnchor_of_notMem he]
        exact ih m p hm
  exact hloop _ _ _ hrem

/-! ## One operation -/

namespace Coherent

theorem tree (h : Coherent received s) : s.doc.IsTree := h.settling.tree

/-- Two sessions with one document, one log and one generator. -/
theorem congr (h : Coherent received s) (hdoc : t.doc = s.doc) (hlog : t.log = s.log)
    (hgen : t.gen = s.gen) (happ : t.appliedOperations = s.appliedOperations)
    (hrem : ∀ id x, AList.lookup id t.remoteCursors = some x → x ∈ s.doc.elements) :
    Coherent received t := by
  have hhist : t.history = s.history := by rw [history, history, hlog]
  constructor
  · rw [hhist, hdoc]; exact h.settling
  · rw [hdoc]; exact h.buffer
  · rw [hhist]; exact h.consistent
  · rw [hhist, happ]; exact h.applied
  · rw [hlog, happ]; exact h.recorded
  · rw [hdoc]; exact hrem
  · rw [hhist, hgen]; exact h.clock
  · rw [hgen]; exact h.bound
  · rw [hhist, hgen]; exact h.named

theorem mono (h : Coherent received s) {more : List Operation} (hsub : received ⊆ more) :
    Coherent more s :=
  { h with named := fun op hop => (h.named op hop).imp (fun hr => hsub hr) id }

/-- A removal is applied once. -/
theorem remove_mem {oper : RemoveOperation} (h : Coherent received s)
    (hm : (Operation.remove oper).serialize ∈ s.appliedOperations) : .remove oper ∈ s.history := by
  obtain ⟨op, hop, he⟩ := (h.applied _).mp hm
  exact Operation.eq_remove_of_serialize he ▸ hop

theorem history_admitted (h : Coherent received s) (hn : op.serialize ∉ s.appliedOperations)
    (d : Document) : (s.admitted op d).history = insert op s.history := by
  ext op'
  simp [history, admitted, OperationLog.record, h.recorded, hn, or_comm]

/-- **An operation that suits and is new is applied.** -/
theorem accept (h : Coherent received s) (ha : Suits received s op)
    (hn : op.serialize ∉ s.appliedOperations) :
    ∃ d, s.doc.apply op = .ok d ∧ Coherent received (s.admitted op d) := by
  obtain ⟨d, hd, hb, hs⟩ := h.settling.apply h.buffer ha.consistent
  have hext := (h.tree.apply op).2
  rw [hd] at hext
  have hhist := h.history_admitted hn d
  refine ⟨d, hd, ?_, hb, ?_, fun t => ?_, ?_, ?_, ?_, h.bound, ?_⟩
  · rw [hhist]; exact hs
  · rw [hhist]; exact ha.consistent
  · rw [hhist]
    simp [admitted, h.applied, eq_comm]
  · simp [admitted, OperationLog.record, h.recorded, hn]
  · exact fun id x hx => hext.mem (h.remote id x hx)
  · rw [hhist]
    rintro oper (he | hop')
    exacts [ha.clock oper he.symm, h.clock oper hop']
  · rw [hhist]
    rintro op' (rfl | hop')
    exacts [ha.named, h.named op' hop']

/-- An element is visible unless it is the root or removed. -/
theorem isVisible_iff (h : Coherent received s) {x : ElementID} :
    s.doc.isVisible x = true ↔ x ≠ rootId ∧ x ∈ s.doc.elements ∧ .remove ⟨x⟩ ∉ s.history := by
  by_cases hr : x = rootId
  · simp [hr, Document.isVisible_root]
  by_cases hx : x ∈ s.doc.elements
  · obtain ⟨c, hc⟩ := UMap.mem_iff_lookup.mp hx
    rw [Document.isVisible_of_lookup hr hc, ← h.settling.deleted x c hc]
    simp [hr, hx]
  · have hv : s.doc.isVisible x = false :=
      Bool.eq_false_iff.mpr fun hv => hx (Document.mem_of_isVisible hv)
    simp [hx, hv]

end Coherent

/-- Operations without a bar are applied once. -/
theorem Replica.mem_history (h : Replica received s) (hop : op.Avoids bar) :
    op.serialize ∈ s.appliedOperations ↔ op ∈ s.history := by
  rw [h.applied]
  refine ⟨?_, fun hm => ⟨op, hm, rfl⟩⟩
  rintro ⟨op', hm, he⟩
  exact Operation.serialize_injOn (h.avoids op' hm) hop he ▸ hm

/-- What was applied is in the history, on a session without a bar in an id. -/
theorem Does.history {ops : List Operation} {ms : List Message} (h : Does ops ms s t)
    (ht : Replica received t) (hbar : ∀ op ∈ ops, op.Avoids bar) :
    t.history = s.history ∪ {op | op ∈ ops} :=
  h.sub.antisymm (Set.union_subset h.sup fun op hop =>
    (ht.mem_history (hbar op hop)).1 (h.applied op hop))

/-- **A sound session stays sound** where it stays steady and applies operations without a bar. -/
theorem Sound.of_does {more : List Operation} (h : Sound received s) (ht : Steady more t)
    {ops : List Operation} {ms : List Message} (hdoes : Does ops ms s t)
    (hbar : ∀ op ∈ ops, op.Avoids bar) : Sound more t :=
  ht.sound (fun op hop => (hdoes.sub hop).elim (h.avoids op) (hbar op)) (hdoes.site ▸ h.site)

theorem applyOperation_of_applied {b : Bool} (h : op.serialize ∈ s.appliedOperations) :
    s.applyOperation op b = .ok s := by
  rw [applyOperation]
  simp [h, pure, Except.pure]

theorem applyOperation_of_new {b : Bool} {d : Document} (h : op.serialize ∉ s.appliedOperations)
    (hd : s.doc.apply op = .ok d) :
    s.applyOperation op b =
      (Except.leaving (s.admitted op d)
        (if b then s.cursor.update d op else s.cursor.updateOnRemote d op)) >>=
      fun c => { s.admitted op d with cursor := c }.updateRemoteCursors op := by
  rw [applyOperation]
  simp only [h, if_false]
  rw [applyToDocument]
  simp only [hd]
  rfl

/-- What a removal changes: the target is no anchor any more, and a caret behind it moves. -/
structure Removed (oper : RemoveOperation) (s s' : EditorSession) : Prop where
  gen : s'.gen = s.gen
  history : s'.history = insert (.remove oper) s.history
  elements : ∀ x ∈ s.doc.elements, x ∈ s'.doc.elements
  anchors : s'.doc.anchors = s.doc.anchors.filter fun x => x = rootId ∨ x ≠ oper.theTarget
  charOf : s'.doc.charOf = s.doc.charOf
  cursor : s.cursor.anchor ≠ oper.theTarget ∨ oper.theTarget = rootId →
    s'.cursor.anchor = s.cursor.anchor

theorem anchors_filter (d : Document) (p : ElementID → Bool) :
    d.anchors.filter (fun x => x = rootId ∨ p x) =
      rootId :: (d.preorder.filter d.isVisible).filter p := by
  rw [Document.anchors, List.filter_cons_of_pos (by simp)]
  congr 1
  refine List.filter_congr fun x hx => ?_
  simp [Document.ne_root_of_isVisible (List.mem_filter.mp hx).2]

/-- **A removal keeps a session steady.** -/
theorem Steady.applyRemove (h : Steady received s) {oper : RemoveOperation}
    (ha : Suits received s (.remove oper)) (b : Bool) :
    ∃ s', s.applyOperation (.remove oper) b = .ok s' ∧ Steady received s' ∧ Removed oper s s' := by
  by_cases hn : (Operation.remove oper).serialize ∈ s.appliedOperations
  · have hmem : .remove oper ∈ s.history := h.remove_mem hn
    refine ⟨s, applyOperation_of_applied hn, h, rfl, (Set.insert_eq_of_mem hmem).symm,
      fun _ hx => hx, ?_, rfl, fun _ => rfl⟩
    refine (List.filter_eq_self.mpr fun x hx => ?_).symm
    -- what was removed before is no anchor
    rcases h.tree.mem_anchors.mp hx with he | hv
    · simp [he]
    · have hne : x ≠ oper.theTarget := fun he => (h.isVisible_iff.mp hv).2.2 (he ▸ hmem)
      simp [hne]
  · obtain ⟨d, hd, hrep⟩ := h.accept ha hn
    obtain rfl : s.doc.applyDelete oper = d := Except.ok.inj hd
    have hanchors : (s.doc.applyDelete oper).anchors =
        s.doc.anchors.filter fun x => x = rootId ∨ x ≠ oper.theTarget := by
      have := anchors_filter s.doc fun x => x ≠ oper.theTarget
      simp only [decide_eq_true_eq] at this
      rw [this, Document.anchors_applyDelete]
    -- the caret stays, or falls back from the removed element
    obtain ⟨c, hc, hcmem, hckeep⟩ : ∃ c, s.cursor.updateOnDelete (s.doc.applyDelete oper) oper =
        .ok c ∧ c.anchor ∈ (s.doc.applyDelete oper).anchors ∧
        (s.cursor.anchor ≠ oper.theTarget ∨ oper.theTarget = rootId →
          c.anchor = s.cursor.anchor) := by
      rw [Cursor.updateOnDelete]
      by_cases he : oper.theTarget = s.cursor.anchor
      · have hx : oper.theTarget ∈ (s.doc.applyDelete oper).elements := by
          rw [Document.mem_applyDelete_elements, he]
          exact h.tree.mem_of_mem_anchors h.anchor
        obtain ⟨y, hy, hok, hroot⟩ := hrep.tree.exists_visiblePredecessor hx
        have hok' : (s.doc.applyDelete oper).visiblePredecessor s.cursor.anchor = .ok y := he ▸ hok
        refine ⟨s.cursor.setAnchor y, by simp [hok', he, pure, Except.pure, bind, Except.bind],
          hy, fun hor => ?_⟩
        have hr := hor.resolve_left fun hne => hne he.symm
        rw [Cursor.anchor_setAnchor, hroot hr, ← he, hr]
      · refine ⟨s.cursor, by simp [he, pure, Except.pure], ?_, fun _ => rfl⟩
        rw [hanchors]
        exact List.mem_filter.mpr ⟨h.anchor, by simp [Ne.symm he]⟩
    have hupdate : (if b then s.cursor.update (s.doc.applyDelete oper) (.remove oper)
        else s.cursor.updateOnRemote (s.doc.applyDelete oper) (.remove oper)) = .ok c := by
      cases b <;> exact hc
    let t : EditorSession := { s.admitted (.remove oper) (s.doc.applyDelete oper) with cursor := c }
    obtain ⟨m, hm, hmrem⟩ := exists_updateRemoteCursors (s := t) hrep.tree hrep.remote (.remove oper)
    refine ⟨{ t with remoteCursors := m }, ?_,
      ⟨hrep.congr rfl rfl rfl rfl hmrem, hcmem⟩, rfl,
      h.history_admitted hn (s.doc.applyDelete oper),
      fun x hx => (Document.mem_applyDelete_elements _ _ _).mpr hx, hanchors, ?_, hckeep⟩
    · rw [applyOperation_of_new hn hd, hupdate]
      exact hm
    · exact funext fun x => Document.charOf_applyDelete x

/-- **A remote insert keeps a session steady** and moves no caret. -/
theorem Steady.applyInsert (h : Steady received s) {oper : InsertOperation}
    (ha : Suits received s (.insert oper)) :
    ∃ s', s.applyOperation (.insert oper) false = .ok s' ∧ Steady received s' := by
  by_cases hn : (Operation.insert oper).serialize ∈ s.appliedOperations
  · exact ⟨s, applyOperation_of_applied hn, h⟩
  · obtain ⟨d, hd, hrep⟩ := h.accept ha hn
    have hhist := h.history_admitted hn d
    refine ⟨s.admitted (.insert oper) d, ?_, hrep, ?_⟩
    · rw [applyOperation_of_new hn hd]
      rfl
    · -- an insert removes nothing
      refine hrep.tree.mem_anchors.mpr ((h.tree.mem_anchors.mp h.anchor).imp id fun hv => ?_)
      obtain ⟨hr, hx, hdel⟩ := h.isVisible_iff.mp hv
      have hext := (h.tree.apply (.insert oper)).2
      rw [hd] at hext
      refine hrep.isVisible_iff.mpr ⟨hr, hext.mem hx, ?_⟩
      rw [hhist]
      exact fun hm => hdel (hm.resolve_left (by simp))

/-! ## Messages -/

/-- Operations the session can take: no id above the largest clock value, and inserts that agree with
each other and with everything applied so far. -/
structure Fair (s : EditorSession) (ops : List Operation) : Prop where
  consistent : Operation.Consistent (s.history ∪ {op | op ∈ ops})
  lamport : ∀ oper, .insert oper ∈ ops → oper.ident.lamport.toNat < 2 ^ 64 - 1

/-- A session with a smaller history takes fewer operations. -/
theorem Fair.mono {ops more : List Operation} (h : s.Fair more) (hsub : ops ⊆ more)
    (hhist : t.history ⊆ s.history ∪ {op | op ∈ more}) : t.Fair ops where
  consistent := h.consistent.mono (Set.union_subset hhist fun _ ho => Or.inr (hsub ho))
  lamport oper ho := h.lamport oper (hsub ho)

/-- The operations of a message the session can take, without a bar. -/
structure Honest (s : EditorSession) (ops : List Operation) : Prop extends Fair s ops where
  avoids : ∀ op ∈ ops, op.Avoids bar

/-- A session with a smaller history takes fewer operations. -/
theorem Honest.mono {ops more : List Operation} (h : s.Honest more) (hsub : ops ⊆ more)
    {s' : EditorSession} (hhist : s'.history ⊆ s.history ∪ {op | op ∈ more}) : s'.Honest ops where
  toFair := h.toFair.mono hsub hhist
  avoids op hop := h.avoids op (hsub hop)

theorem Steady.syncClock (h : Steady received s)
    (hl : ∀ oper, op = .insert oper → oper.ident.lamport.toNat < 2 ^ 64 - 1) :
    Steady received (s.syncClock op) := by
  cases op with
  | remove oper => exact h
  | insert oper =>
    have hle : s.gen.lamportClock ≤ max s.gen.lamportClock oper.ident.lamport := le_max_left _ _
    refine { h with
      clock := fun oper' hop => (h.clock oper' hop).trans hle
      bound := ?_
      named := fun op hop => (h.named op hop).imp id fun hx x hm => (hx x hm).trans hle }
    change (max s.gen.lamportClock oper.ident.lamport).toNat < 2 ^ 64 - 1
    rcases max_choice s.gen.lamportClock oper.ident.lamport with he | he
    · rw [he]
      exact h.bound
    · rw [he]
      exact hl oper rfl

/-- **A received operation keeps a session steady.** -/
theorem Steady.applyRemote (h : Steady received s) (hr : op ∈ received) (hf : s.Fair [op]) :
    ∃ s', s.applyRemote op = .ok s' ∧ Steady received s' := by
  have hc : Operation.Consistent (insert op s.history) :=
    hf.consistent.mono (Set.insert_subset (Or.inr List.mem_cons_self) Set.subset_union_left)
  have hsync : Steady received (s.syncClock op) :=
    h.syncClock fun oper he => hf.lamport oper (he ▸ List.mem_cons_self)
  cases op with
  | remove oper =>
    obtain ⟨s', hs', hsteady, -⟩ := h.applyRemove ⟨hc, by simp, Or.inl hr⟩ false
    exact ⟨s', hs', hsteady⟩
  | insert oper =>
    have hle : oper.ident.lamport ≤ max s.gen.lamportClock oper.ident.lamport := le_max_right _ _
    exact hsync.applyInsert
      ⟨hc, fun oper' he => by obtain rfl := Operation.insert.inj he; exact hle, Or.inl hr⟩

/-- The same of a history, operation by operation. -/
theorem Steady.foldlM_applyRemote : ∀ {ops : List Operation} {s : EditorSession},
    Steady received s → ops ⊆ received → s.Fair ops →
    ∃ s', ops.foldlM EditorSession.applyRemote s = .ok s' ∧ Steady received s'
  | [], s, h, _, _ => ⟨s, rfl, h⟩
  | op :: ops, s, h, hsub, hf => by
      have hhead : [op] ⊆ op :: ops := List.cons_subset_cons op (List.nil_subset ops)
      obtain ⟨s', hs', hsteady⟩ := h.applyRemote (hsub List.mem_cons_self)
        (hf.mono hhead Set.subset_union_left)
      have htakes := takes_applyRemote s op
      rw [hs'] at htakes
      have hhist : s'.history ⊆ s.history ∪ {o | o ∈ op :: ops} :=
        (Takes.toDoes htakes).sub.trans (Set.union_subset_union_right _ fun _ ho => hhead ho)
      obtain ⟨t, ht, htsteady⟩ := hsteady.foldlM_applyRemote
        (fun o ho => hsub (List.mem_cons_of_mem _ ho))
        (hf.mono (List.subset_cons_self op ops) hhist)
      exact ⟨t, by rw [List.foldlM_cons, hs']; exact ht, htsteady⟩

theorem Steady.updatePendingCursorUpdates (h : Steady received s) :
    ∃ s', s.updatePendingCursorUpdates = .ok s' ∧ Steady received s' := by
  obtain ⟨m, p, hok, hm⟩ := exists_updatePendingCursorUpdates h.tree h.remote
  exact ⟨_, hok, h.toCoherent.congr rfl rfl rfl rfl hm, h.anchor⟩

/-- Two steady sessions with one document, one log and one generator. -/
theorem Steady.congr (h : Steady received s) (hdoc : t.doc = s.doc) (hlog : t.log = s.log)
    (hgen : t.gen = s.gen) (happ : t.appliedOperations = s.appliedOperations)
    (hrem : t.remoteCursors = s.remoteCursors) (hc : t.cursor.anchor ∈ s.doc.anchors) :
    Steady received t :=
  ⟨h.toCoherent.congr hdoc hlog hgen happ (hrem ▸ h.remote), hdoc ▸ hc⟩

/-- Two sound sessions with one document, one log and one generator. -/
theorem Sound.congr (h : Sound received s) (hdoc : t.doc = s.doc) (hlog : t.log = s.log)
    (hgen : t.gen = s.gen) (happ : t.appliedOperations = s.appliedOperations)
    (hrem : t.remoteCursors = s.remoteCursors) (hc : t.cursor.anchor ∈ s.doc.anchors) :
    Sound received t := by
  refine (h.toSteady.congr hdoc hlog hgen happ hrem hc).sound ?_ (hgen ▸ h.site)
  rw [history, hlog]
  exact h.avoids

/-- What a session queues is not read by any of this. -/
theorem Steady.queueOutgoingMessage (h : Steady received s) (m : Message) :
    Steady received (s.queueOutgoingMessage m) :=
  h.congr rfl rfl rfl rfl rfl h.anchor

theorem Sound.queueOutgoingMessage (h : Sound received s) (m : Message) :
    Sound received (s.queueOutgoingMessage m) :=
  h.congr rfl rfl rfl rfl rfl h.anchor

theorem Steady.mono (h : Steady received s) {more : List Operation} (hsub : received ⊆ more) :
    Steady more s :=
  ⟨h.toCoherent.mono hsub, h.anchor⟩

/-- **A message whose payload is of its type and whose operations are fair is applied.** -/
theorem Steady.exists_apply (h : Steady received s) {m : Message} (hm : m.Formed)
    (hf : s.Fair m.payload.operations) :
    ∃ s', s.apply m = .ok s' ∧ Steady (received ++ m.payload.operations) s' := by
  have h' := h.mono (List.subset_append_left received m.payload.operations)
  obtain ⟨type, sender, payload⟩ := m
  have hskip : ∃ s', (.ok s : Result) = .ok s' ∧ Steady (received ++ payload.operations) s' :=
    ⟨s, rfl, h'⟩
  cases type with
  | operation =>
    obtain ⟨op, rfl⟩ : ∃ op, payload = .operation op := by
      cases payload <;> first | exact ⟨_, rfl⟩ | cases hm
    have hmem : op ∈ received ++ [op] := List.mem_append_right _ List.mem_cons_self
    obtain ⟨t, ht, hsteady⟩ := h'.applyRemote hmem hf
    obtain ⟨u, hu, husteady⟩ := hsteady.updatePendingCursorUpdates
    refine ⟨u, ?_, husteady⟩
    simp [EditorSession.apply, MessagePayload.getOperation, Except.leaving, bind, Except.bind, ht, hu]
  | syncResponse =>
    obtain ⟨ops, rfl⟩ : ∃ ops, payload = .history ops := by
      cases payload <;> first | exact ⟨_, rfl⟩ | cases hm
    have hmessage : s.Fair ops := hf
    have hsub : ops ⊆ received ++ ops := List.subset_append_right _ _
    obtain ⟨t, ht, hsteady⟩ := h'.foldlM_applyRemote hsub hmessage
    obtain ⟨u, hu, husteady⟩ := hsteady.updatePendingCursorUpdates
    refine ⟨_, ?_, (husteady.queueOutgoingMessage ⟨.syncComplete, u.clientId, .monostate⟩).queueOutgoingMessage
      ⟨.cursorUpdate, u.clientId, .cursorUpdate u.cursor.anchor⟩⟩
    simp [EditorSession.apply, applyHistory, MessagePayload.getHistory, Except.leaving, bind,
      Except.bind, ht, hu, pure, Except.pure, queueCursorUpdate, EditorSession.queueOutgoingMessage]
  | cursorUpdate =>
    obtain ⟨x, rfl⟩ : ∃ x, payload = .cursorUpdate x := by
      cases payload <;> first | exact ⟨_, rfl⟩ | cases hm
    by_cases hx : x ∈ s.doc.elements
    · obtain ⟨y, -, hy⟩ := h'.tree.exists_resolveCursorAnchor hx
      refine ⟨{ s with
        remoteCursors := AList.insert sender x s.remoteCursors
        pendingCursorUpdates := AList.erase sender s.pendingCursorUpdates }, ?_,
        h'.toCoherent.congr rfl rfl rfl rfl fun id z hz => ?_, h'.anchor⟩
      · simp [EditorSession.apply, receiveCursorUpdate, MessagePayload.getCursorUpdate,
          Except.leaving, bind, Except.bind, hy, pure, Except.pure]
      · rw [UMap.lookup_insert] at hz
        split at hz
        · exact Option.some.inj hz ▸ hx
        · exact h'.remote id z hz
    · refine ⟨{ s with pendingCursorUpdates := AList.insert sender x s.pendingCursorUpdates }, ?_,
        h'.congr rfl rfl rfl rfl rfl h'.anchor⟩
      simp [EditorSession.apply, receiveCursorUpdate, MessagePayload.getCursorUpdate,
        Except.leaving, bind, Except.bind, h'.tree.resolveCursorAnchor_of_notMem hx, pure,
        Except.pure]
  | hello => exact hskip
  | helloAck => exact hskip
  | syncRequest => exact hskip
  | syncComplete => exact hskip
  | openDocument => exact hskip

/-- **A message whose operations are honest keeps a session sound.** -/
theorem Sound.exists_apply (h : Sound received s) {m : Message} (hm : m.Formed)
    (hh : s.Honest m.payload.operations) :
    ∃ s', s.apply m = .ok s' ∧ Sound (received ++ m.payload.operations) s' ∧
      s'.history ⊆ s.history ∪ {op | op ∈ m.payload.operations} := by
  obtain ⟨t, ht, hsteady⟩ := h.toSteady.exists_apply hm hh.toFair
  have htakes := takes_apply s m
  rw [ht] at htakes
  have hdoes : Does m.effective (replies m t) s t := Takes.toDoes htakes
  refine ⟨t, ht, h.of_does hsteady hdoes fun op hop => hh.avoids op (m.effective_subset hop), ?_⟩
  exact hdoes.sub.trans (Set.union_subset_union_right _ fun _ ho => m.effective_subset ho)

/-- `apply` returns only for a payload of the type it reads. -/
theorem formed_of_apply {m : Message} {s' : EditorSession} (hs' : s.apply m = .ok s') :
    m.Formed := by
  obtain ⟨type, sender, payload⟩ := m
  cases type <;> cases payload <;> first | exact trivial | rfl | cases hs'

/-- **A message whose operations are honest keeps a session sound**, whenever `apply` returns. -/
theorem Sound.apply (h : Sound received s) {m : Message} (hh : s.Honest m.payload.operations)
    {s' : EditorSession} (hs' : s.apply m = .ok s') :
    Sound (received ++ m.payload.operations) s' := by
  obtain ⟨t, ht, hsound, -⟩ := h.exists_apply (formed_of_apply hs') hh
  exact Except.ok.inj (hs'.symm.trans ht) ▸ hsound

/-- **The messages of a queue are applied one by one.** -/
theorem Steady.foldlM_apply : ∀ {ms : List Message} {received : List Operation} {s : EditorSession},
    Steady received s → (∀ m ∈ ms, m.Formed) → s.Fair (ms.flatMap (·.payload.operations)) →
    ∃ s', ms.foldlM EditorSession.apply s = .ok s' ∧
      Steady (received ++ ms.flatMap (·.payload.operations)) s'
  | [], _, s, h, _, _ => ⟨s, rfl, by simpa using h⟩
  | m :: ms, received, s, h, hm, hf => by
      have hhead : m.payload.operations ⊆ (m :: ms).flatMap (·.payload.operations) :=
        List.subset_append_left _ _
      have htail : ms.flatMap (·.payload.operations) ⊆ (m :: ms).flatMap (·.payload.operations) :=
        List.subset_append_right _ _
      obtain ⟨s', hs', hsteady⟩ := h.exists_apply (hm m List.mem_cons_self)
        (hf.mono hhead Set.subset_union_left)
      have htakes := takes_apply s m
      rw [hs'] at htakes
      have hhist : s'.history ⊆ s.history ∪ {o | o ∈ (m :: ms).flatMap (·.payload.operations)} :=
        (Takes.toDoes htakes).sub.trans (Set.union_subset_union_right _ fun _ ho =>
          hhead (m.effective_subset ho))
      obtain ⟨t, ht, htsteady⟩ := hsteady.foldlM_apply
        (fun m' hm' => hm m' (List.mem_cons_of_mem _ hm')) (hf.mono htail hhist)
      refine ⟨t, by rw [List.foldlM_cons, hs']; exact ht, ?_⟩
      rwa [List.flatMap_cons, ← List.append_assoc]

theorem Sound.foldlM_apply {ms : List Message} (h : Sound received s) (hm : ∀ m ∈ ms, m.Formed)
    (hh : s.Honest (ms.flatMap (·.payload.operations))) :
    ∃ s', ms.foldlM EditorSession.apply s = .ok s' ∧
      Sound (received ++ ms.flatMap (·.payload.operations)) s' := by
  obtain ⟨t, ht, hsteady⟩ := h.toSteady.foldlM_apply hm hh.toFair
  have htakes := takes_foldlM_apply ms s
  rw [ht] at htakes
  obtain ⟨queued, htakes⟩ := htakes
  refine ⟨t, ht, h.of_does hsteady htakes.toDoes fun op hop => ?_⟩
  obtain ⟨m, hm, hop⟩ := List.mem_flatMap.1 hop
  exact hh.avoids op (List.mem_flatMap.2 ⟨m, hm, m.effective_subset hop⟩)

end EditorSession

end CrdtEditor
