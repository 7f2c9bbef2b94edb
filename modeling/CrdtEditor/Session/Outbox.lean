import CrdtEditor.Session.Clock
import CrdtEditor.Session.Effects

/-!
# Session/Outbox — what a session queues for the server

Whatever a session received, an insert that it queues has the id its clock draws next, and it queues a
`SYNC_COMPLETE` only behind a history that its clock has passed (`Sends`).  So the inserts that wait in
its queue have different ids, none above the clock (`Posted`).
-/

namespace CrdtEditor

open Text

open Except (leaving)

/-- An insert only with a clock value drawn, above 0 and at most `n`, and on one line unless the id of the
client is not. -/
structure Operation.Dated (id : Str) (n : ℕ) (op : Operation) : Prop where
  line : newline ∉ id → op.Avoids newline
  lamport : ∀ oper, op = .insert oper → 0 < oper.ident.lamport ∧ oper.ident.lamport.toNat ≤ n

theorem Operation.Dated.mono {op : Operation} {id : Str} {n n' : ℕ} (h : op.Dated id n) (hle : n ≤ n') :
    op.Dated id n' :=
  ⟨h.line, fun oper he => (h.lamport oper he).imp_right fun hl => hl.trans hle⟩

/-- A message that a session queues: an operation, the end of a synchronization or a cursor. -/
def Message.Queued (m : Message) : Prop :=
  (∃ op, m.type = .operation ∧ m.payload = .operation op) ∨
    (m.type = .syncComplete ∨ m.type = .cursorUpdate) ∧ m.payload.operations = []

namespace EditorSession

variable {s t u : EditorSession} {ms : List Message} {op : Operation} {n : ℕ} {id : Str}

/-- **What a session queues** on its way from `s` to `t`. -/
structure Sends (s : EditorSession) (ms : List Message) (t : EditorSession) : Prop where
  clientId : t.clientId = s.clientId
  site : t.gen.clientId = s.gen.clientId
  clock : s.gen.lamportClock ≤ t.gen.lamportClock
  incoming : t.incomingQueue ⊆ s.incomingQueue
  outgoing : t.outgoingQueue = s.outgoingQueue ++ ms
  sender : ∀ m ∈ ms, m.sender = s.clientId ∧ m.Queued
  typed : ∀ oper, .insert oper ∈ operationsOf ms →
    oper.ident = s.gen.upcoming ∧ t.gen.lamportClock = s.gen.upcoming.lamport
  single : Operation.Consistent {op | op ∈ operationsOf ms}
  synced : ∀ m ∈ ms, m.type = .syncComplete → operationsOf ms = [] ∧
    ∃ m' ∈ s.incomingQueue, m'.type = .syncResponse ∧
      ∀ oper, .insert oper ∈ m'.payload.operations → oper.ident.lamport ≤ t.gen.lamportClock

/-! ## Performing -/

/-- What performing operations leaves, also where it throws. -/
def Performs (ops : List Operation) (s t : EditorSession) : Prop :=
  t.gen = s.gen ∧ ∃ done ⊆ ops, ∃ told ⊆ ops, Does done (s.announce told) s t

theorem performs_foldlM : ∀ (ops : List Operation) (s : EditorSession),
    (ops.foldlM perform s).Ends (Performs ops s) (Performs ops s)
  | [], s => ⟨rfl, [], List.Subset.refl _, [], List.Subset.refl _, does_refl s⟩
  | op :: ops, s => by
      have hfirst : [op] ⊆ op :: ops := List.cons_subset_cons op (List.nil_subset ops)
      rw [List.foldlM_cons]
      refine Except.Ends.bind (P := fun t => t.gen = s.gen ∧ Does [op] (s.announce [op]) s t) ?_
        fun t ht => ?_
      · rw [perform]
        refine Except.Ends.bind (P := Applies op s) ?_ fun t ht => ⟨ht.gen, ?_⟩
        · exact (applies_applyOperation s op true).imp (fun _ ht => ht) fun t ht =>
            ⟨ht.gen, [op], hfirst, [], List.nil_subset _, ht.toDoes⟩
        · have hannounce : s.announce [op] = [⟨.operation, t.clientId, .operation op⟩] := by
            rw [announce, ← ht.clientId]
            rfl
          rw [hannounce]
          exact ht.toDoes.trans (does_queueOutgoingMessage t _)
      · have hrest (u : EditorSession) (hu : Performs ops t u) : Performs (op :: ops) s u := by
          obtain ⟨hgen, done, hdone, told, htold, hdoes⟩ := hu
          refine ⟨hgen.trans ht.1, op :: done, List.cons_subset_cons op hdone, op :: told,
            List.cons_subset_cons op htold, ?_⟩
          rw [announce, ht.2.clientId] at hdoes
          exact ht.2.trans hdoes
        exact (performs_foldlM ops t).imp hrest hrest

/-- A command, from what its handler returned. -/
theorem performs_handleEditorCommand {command : EditorCommand} {g : InputHandler}
    {ops : List Operation} (hr : s.handler.processCommand command = .ok (g, ops)) :
    (s.handleEditorCommand command).Ends (Performs ops (s.put g)) (Performs ops (s.put g)) := by
  rw [handleEditorCommand_eq hr]
  refine Except.Ends.bind (P := Performs ops (s.put g)) (performs_foldlM ops _) fun t ht => ?_
  rw [rememberColumn]
  refine Except.ends_ite (fun _ => Except.ends_leaving_bind (fun cursor _ => ?_) ht) fun _ => ht
  obtain ⟨hgen, done, hdone, told, htold, hdoes⟩ := ht
  refine ⟨hgen, done, hdone, told, htold, ?_⟩
  have := hdoes.trans (does_carets t cursor t.remoteCursors t.pendingCursorUpdates)
  rwa [List.append_nil, List.append_nil] at this

/-! ## Flushing -/

/-- What a session queues when it takes messages: that it has taken a history, and where it is. -/
def Acknowledges (ms : List Message) (t : EditorSession) (m : Message) : Prop :=
  m.sender = t.clientId ∧ (m.type = .syncComplete ∨ m.type = .cursorUpdate) ∧
    m.payload.operations = [] ∧ (m.type = .syncComplete → ∃ m' ∈ ms, m'.type = .syncResponse ∧
      ∀ oper, .insert oper ∈ m'.payload.operations → oper.ident.lamport ≤ t.gen.lamportClock)

/-- What taking messages leaves, also where it throws. -/
def Flushes (ms : List Message) (s t : EditorSession) : Prop :=
  ∃ ops ⊆ operationsOf ms, ∃ queued, Takes ops queued s t ∧ ∀ m ∈ queued, Acknowledges ms t m

theorem Acknowledges.takes {m : Message} {ops : List Operation} {queued ms' : List Message}
    (h : Acknowledges ms t m) (hsub : ms ⊆ ms') (ht : Takes ops queued t u) :
    Acknowledges ms' u m := by
  obtain ⟨hsender, htype, hops, hsync⟩ := h
  refine ⟨hsender.trans ht.clientId.symm, htype, hops, fun hm => ?_⟩
  obtain ⟨m', hm', htype', hpassed⟩ := hsync hm
  exact ⟨m', hsub hm', htype', fun oper ho => (hpassed oper ho).trans ht.clock⟩

theorem flushes_foldlM_apply : ∀ (ms : List Message) (s : EditorSession),
    (ms.foldlM EditorSession.apply s).Ends (Flushes ms s) (Flushes ms s)
  | [], s => ⟨[], List.Subset.refl _, [], takes_refl s, fun _ hm => absurd hm List.not_mem_nil⟩
  | m :: ms, s => by
      have hhead : m.effective ⊆ operationsOf (m :: ms) := fun op hop =>
        List.mem_append_left _ (m.effective_subset hop)
      have htail : ms ⊆ m :: ms := List.subset_cons_self m ms
      rw [List.foldlM_cons]
      refine ((takes_apply s m).imp (fun _ ht => ht) ?_).bind fun t ht => ?_
      · rintro t ⟨ops, hops, ht⟩
        exact ⟨ops, List.Subset.trans hops hhead, [], ht, fun _ hm => absurd hm List.not_mem_nil⟩
      have hreplies : ∀ r ∈ replies m t, Acknowledges (m :: ms) t r := fun r hr => by
        rw [replies] at hr
        split at hr
        case h_2 => cases hr
        case h_1 htype =>
          have heffective : m.effective = m.payload.operations := by rw [Message.effective, htype]
          obtain rfl | rfl : _ ∨ _ := by simpa using hr
          · refine ⟨rfl, Or.inl rfl, rfl, fun _ => ⟨m, List.mem_cons_self, htype, fun oper ho => ?_⟩⟩
            exact ht.passed oper (heffective ▸ ho)
          · exact ⟨rfl, Or.inr rfl, rfl, fun he => by cases he⟩
      have hrest (u : EditorSession) (hu : Flushes ms t u) : Flushes (m :: ms) s u := by
        obtain ⟨ops, hops, queued, htakes, hqueued⟩ := hu
        refine ⟨m.effective ++ ops, List.append_subset.mpr ⟨hhead, fun op hop =>
          List.mem_append_right _ (hops hop)⟩, _, ht.trans htakes, fun r hr => ?_⟩
        obtain hr | hr := List.mem_append.mp hr
        · exact (hreplies r hr).takes (List.Subset.refl _) htakes
        · exact (hqueued r hr).takes htail (takes_refl u)
      exact (flushes_foldlM_apply ms t).imp hrest hrest

/-! ## What waits in the queues -/

/-- The operations that a session has applied, or that wait in its queues. -/
def held (s : EditorSession) : Set Operation :=
  {op | op ∈ s.history ∨ op ∈ operationsOf s.incomingQueue ∨ op ∈ operationsOf s.outgoingQueue}

/-- **A session of dated operations**, whose inserts in the queue have different ids, none above the
clock. -/
structure Posted (id : Str) (n : ℕ) (s : EditorSession) : Prop where
  synced : Synced [] s
  clientId : s.clientId = id
  site : s.gen.clientId = id
  dated : ∀ op ∈ s.held, op.Dated id n
  sender : ∀ m ∈ s.outgoingQueue, m.sender = id ∧ m.Queued
  own : ∀ oper, .insert oper ∈ operationsOf s.outgoingQueue →
    oper.ident.siteId = id ∧ oper.ident.lamport ≤ s.gen.lamportClock
  distinct : Operation.Consistent {op | op ∈ operationsOf s.outgoingQueue}

theorem posted_start (id : Str) : Posted id 0 (start id) where
  synced := synced_start id
  clientId := rfl
  site := rfl
  dated _ h := by simp [held, history, start, OperationLog.empty] at h
  sender _ h := absurd h List.not_mem_nil
  own _ h := absurd h List.not_mem_nil
  distinct _ _ h := absurd h List.not_mem_nil

namespace Posted

/-- The clock is a clock value drawn, or 0. -/
theorem clock (h : Posted id n s) : s.gen.lamportClock.toNat ≤ n := by
  obtain ⟨x, hx, he⟩ := h.synced.reached
  rw [← he]
  obtain rfl | ⟨oper, ho, rfl⟩ := hx
  · exact Nat.zero_le n
  · exact ((h.dated _ (Or.inl ho)).lamport oper rfl).2

/-- What the document names is on one line. -/
theorem newline_notMem (h : Posted id n s) (hid : newline ∉ id) {x : ElementID}
    (hx : x ∈ s.doc.elements) : newline ∉ x.siteId := by
  obtain rfl | ⟨oper, ho, rfl⟩ := h.synced.sourced.element x hx
  · decide
  · exact (h.dated _ (Or.inl ho)).line hid _ (by simp [Operation.sites])

/-- **A session that goes on** and queues messages. -/
theorem follow (h : Posted id n s) {n' : ℕ} (hle : n ≤ n') (ht : Synced [] t)
    (hs : Sends s ms t) (hhistory : ∀ op ∈ t.history, op ∈ s.held ∨ op.Dated id n')
    (hms : ∀ op ∈ operationsOf ms, op.Dated id n')
    (hroom : ∀ oper, .insert oper ∈ operationsOf ms → s.gen.lamportClock.toNat + 1 < 2 ^ 64) :
    Posted id n' t := by
  have hnew : ∀ oper, .insert oper ∈ operationsOf ms →
      s.gen.lamportClock < oper.ident.lamport ∧ oper.ident.siteId = id ∧
        oper.ident.lamport = t.gen.lamportClock := fun oper ho => by
    obtain ⟨he, hclock⟩ := hs.typed oper ho
    rw [he]
    exact ⟨IdGenerator.clock_lt_upcoming (hroom oper ho), h.site, hclock.symm⟩
  have hmem : ∀ op, op ∈ operationsOf t.outgoingQueue ↔
      op ∈ operationsOf s.outgoingQueue ∨ op ∈ operationsOf ms := fun op => by
    rw [hs.outgoing, operationsOf_append, List.mem_append]
  refine
    { synced := ht
      clientId := hs.clientId.trans h.clientId
      site := hs.site.trans h.site
      dated := fun op hop => ?_
      sender := fun m hm => ?_
      own := fun oper ho => ?_
      distinct := fun a b ha hb he => ?_ }
  · obtain hop | hop | hop := hop
    · exact (hhistory op hop).elim (fun ho => (h.dated op ho).mono hle) fun hd => hd
    · obtain ⟨m, hm, hop⟩ := mem_operationsOf.mp hop
      have hheld : op ∈ s.held := Or.inr (Or.inl (mem_operationsOf.mpr ⟨m, hs.incoming hm, hop⟩))
      exact (h.dated op hheld).mono hle
    · obtain hop | hop := (hmem op).mp hop
      exacts [(h.dated op (Or.inr (Or.inr hop))).mono hle, hms op hop]
  · rw [hs.outgoing] at hm
    obtain hm | hm := List.mem_append.mp hm
    · exact h.sender m hm
    · exact h.clientId ▸ hs.sender m hm
  · obtain ho | ho := (hmem _).mp ho
    · exact (h.own oper ho).imp_right fun hl => hl.trans hs.clock
    · exact ⟨(hnew oper ho).2.1, (hnew oper ho).2.2.le⟩
  · obtain ha | ha := (hmem _).mp ha <;> obtain hb | hb := (hmem _).mp hb
    · exact h.distinct a b ha hb he
    · have hlt := (h.own a ha).2.trans_lt (hnew b hb).1
      exact absurd (he ▸ hlt) (lt_irrefl _)
    · have hlt := (h.own b hb).2.trans_lt (hnew a ha).1
      exact absurd (he ▸ hlt) (lt_irrefl _)
    · exact hs.single a b ha hb he

/-! ## Every input -/

/-- What is done to a session besides its commands and its queue. -/
theorem of_does (h : Posted id n s) (ht : Synced [] t) (hdoes : Does [] ms s t) (hgen : t.gen = s.gen)
    (hms : ∀ m ∈ ms, ∃ x, m = ⟨.cursorUpdate, s.clientId, .cursorUpdate x⟩) :
    Sends s ms t ∧ Posted id n t := by
  have hops : operationsOf ms = [] := List.flatMap_eq_nil_iff.mpr fun m hm => by
    obtain ⟨x, rfl⟩ := hms m hm
    rfl
  have hs : Sends s ms t :=
    { clientId := hdoes.clientId
      site := hdoes.site
      clock := hgen ▸ le_rfl
      incoming := by rw [hdoes.incoming]; exact List.Subset.refl _
      outgoing := hdoes.outgoing
      sender := fun m hm => by
        obtain ⟨x, rfl⟩ := hms m hm
        exact ⟨rfl, Or.inr ⟨Or.inr rfl, rfl⟩⟩
      typed := fun oper ho => by simp [hops] at ho
      single := fun a b ha => by simp [hops] at ha
      synced := fun m hm htype => by
        obtain ⟨x, rfl⟩ := hms m hm
        cases htype }
  refine ⟨hs, h.follow le_rfl ht hs (fun op hop => ?_) (by simp [hops]) (by simp [hops])⟩
  exact (hdoes.sub hop).imp Or.inl fun ho => absurd ho List.not_mem_nil

/-- What a command performs. -/
theorem sends_of_performs {g : InputHandler} {ops : List Operation} (hp : Performs ops (s.put g) t)
    (hsite : g.gen.clientId = s.gen.clientId) (hclock : s.gen.lamportClock ≤ g.gen.lamportClock)
    (hsingle : Operation.Consistent {op | op ∈ ops})
    (htyped : ∀ oper, .insert oper ∈ ops →
      oper.ident = s.gen.upcoming ∧ g.gen.lamportClock = s.gen.upcoming.lamport) :
    ∃ ms, Sends s ms t ∧ operationsOf ms ⊆ ops ∧ ∀ op ∈ t.history, op ∈ s.history ∨ op ∈ ops := by
  obtain ⟨hgen, done, hdone, told, htold, hdoes⟩ := hp
  have hgen : t.gen = g.gen := hgen
  have hops : operationsOf (s.announce told) = told := s.operationsOf_announce told
  refine ⟨s.announce told, ?_, by rwa [hops], fun op hop => ?_⟩
  · exact
      { clientId := hdoes.clientId
        site := hgen ▸ hsite
        clock := hgen ▸ hclock
        incoming := by rw [hdoes.incoming]; exact List.Subset.refl _
        outgoing := hdoes.outgoing
        sender := fun m hm => by
          obtain ⟨op, -, rfl⟩ := List.mem_map.mp hm
          exact ⟨rfl, Or.inl ⟨op, rfl, rfl⟩⟩
        typed := fun oper ho => hgen ▸ htyped oper (htold (hops ▸ ho))
        single := hsingle.mono fun op hop => htold (hops ▸ hop)
        synced := fun m hm htype => by
          obtain ⟨op, -, rfl⟩ := List.mem_map.mp hm
          cases htype }
  · exact (hdoes.sub hop).imp (fun ho => ho) fun ho => hdone ho

/-- **A command.** -/
theorem command (h : Posted id n s) {command : EditorCommand}
    (hroom : s.Room (.command command)) (ht : Synced [] (s.handleEditorCommand command).state) :
    ∃ ms, Sends s ms (s.handleEditorCommand command).state ∧
      Posted id (n + (s.inserts (.command command)).length) (s.handleEditorCommand command).state := by
  have hquiet (u : EditorSession) (hu : Synced [] u) (hdoes : Does [] [] s u) (hgen : u.gen = s.gen)
      (n' : ℕ) (hle : n ≤ n') : ∃ ms, Sends s ms u ∧ Posted id n' u := by
    obtain ⟨hs, -⟩ := h.of_does hu hdoes hgen fun _ hm => absurd hm List.not_mem_nil
    exact ⟨[], hs, h.follow hle hu hs (fun op hop => (hdoes.sub hop).imp Or.inl
      fun ho => absurd ho List.not_mem_nil) (fun _ hop => absurd hop List.not_mem_nil)
      fun _ ho => absurd ho List.not_mem_nil⟩
  by_cases h0 : command.typed = some 0
  · rw [state_handleEditorCommand_nul h0] at ht ⊢
    exact hquiet s ht (does_refl s) rfl _ (Nat.le_add_right n _)
  cases hc : command.typed with
  | none =>
    have hroams : s.handler.Roams (s.handler.processCommand command) :=
      InputHandler.Near.processCommand h.synced.tree ⟨rfl, rfl, h.synced.anchor⟩ hc
    cases hr : s.handler.processCommand command with
    | error e =>
      have hstate : (s.handleEditorCommand command).state = s.put e.2 := by
        rw [handleEditorCommand, processCommand, hr]
        rfl
      rw [hr] at hroams
      rw [hstate] at ht ⊢
      have hgen : e.2.gen = s.gen := hroams.gen
      exact hquiet _ ht { does_refl s with site := congrArg _ hgen } hgen _ (Nat.le_add_right n _)
    | ok r =>
      obtain ⟨g, ops⟩ := r
      rw [hr] at hroams
      have hgen : g.gen = s.gen := hroams.1.gen
      have hremoves : ∀ oper, .insert oper ∉ ops := fun oper ho => by
        obtain ⟨_, he, -⟩ := hroams.2 _ ho
        cases he
      obtain ⟨ms, hs, hsub, hhistory⟩ := sends_of_performs (performs_handleEditorCommand hr).state
        (congrArg _ hgen) (hgen ▸ le_rfl) (fun a _ ha => absurd ha (hremoves a))
        fun oper ho => absurd ho (hremoves oper)
      have hdated : ∀ op ∈ ops, op.Dated id (n + (s.inserts (.command command)).length) :=
        fun op hop => by
          obtain ⟨oper, rfl, hx⟩ := hroams.2 op hop
          refine ⟨fun hid site hsite => ?_, fun _ he => by cases he⟩
          rw [Operation.sites, List.mem_singleton] at hsite
          exact hsite ▸ h.newline_notMem hid hx
      exact ⟨ms, hs, h.follow (Nat.le_add_right n _) ht hs
        (fun op hop => (hhistory op hop).imp Or.inl (hdated op)) (fun op hop => hdated op (hsub hop))
        fun oper ho => absurd (hsub ho) (hremoves oper)⟩
  | some c =>
    have h0 : c ≠ 0 := fun he => h0 (he ▸ hc)
    have hlt : s.gen.lamportClock.toNat + 1 < 2 ^ 64 := hroom ⟨c, hc, h0⟩
    have hr : s.handler.processCommand command =
        .ok ((s.handler.insertCharacter c).1, [.insert (s.typed c)]) :=
      InputHandler.processCommand_of_typed hc h0
    obtain ⟨ms, hs, hsub, hhistory⟩ := sends_of_performs (performs_handleEditorCommand hr).state
      rfl (IdGenerator.clock_lt_upcoming hlt).le
      (fun a b ha hb _ => by
        rw [Operation.insert.inj (List.mem_singleton.mp ha),
          Operation.insert.inj (List.mem_singleton.mp hb)])
      fun oper ho => by
        rw [Operation.insert.inj (List.mem_singleton.mp ho)]
        exact ⟨rfl, rfl⟩
    have hnext : s.gen.upcoming.lamport.toNat = s.gen.lamportClock.toNat + 1 := by
      rw [IdGenerator.upcoming, UInt64.toNat_add]
      exact Nat.mod_eq_of_lt hlt
    have hdated : ∀ op ∈ [Operation.insert (s.typed c)], op.Dated id (n + 1) := fun op hop => by
      obtain rfl := List.mem_singleton.mp hop
      refine ⟨fun hid site hsite => ?_, fun oper he => ?_⟩
      · obtain rfl | rfl : _ ∨ _ := by simpa [Operation.sites] using hsite
        · exact h.newline_notMem hid h.synced.anchor
        · change newline ∉ s.gen.clientId
          rwa [h.site]
      · obtain rfl := Operation.insert.inj he
        change 0 < s.gen.upcoming.lamport ∧ s.gen.upcoming.lamport.toNat ≤ n + 1
        rw [UInt64.lt_iff_toNat_lt, hnext]
        exact ⟨Nat.succ_pos _, Nat.succ_le_succ h.clock⟩
    rw [inserts_of_typed hc h0, List.length_singleton]
    exact ⟨ms, hs, h.follow (Nat.le_succ n) ht hs
      (fun op hop => (hhistory op hop).imp Or.inl (hdated op)) (fun op hop => hdated op (hsub hop))
      fun _ _ => hlt⟩

/-- **The timer.** -/
theorem flushIncoming (h : Posted id n s) (ht : Synced [] s.flushIncoming.state) :
    ∃ ms, Sends s ms s.flushIncoming.state ∧ Posted id n s.flushIncoming.state := by
  obtain ⟨ops, hops, queued, htakes, hqueued⟩ : Flushes s.incomingQueue { s with incomingQueue := [] }
      s.flushIncoming.state := (flushes_foldlM_apply _ _).state
  have hnone : operationsOf queued = [] := List.flatMap_eq_nil_iff.mpr fun m hm => (hqueued m hm).2.2.1
  have hs : Sends s queued s.flushIncoming.state :=
    { clientId := htakes.clientId
      site := htakes.site
      clock := htakes.clock
      incoming := by
        rw [htakes.incoming]
        exact List.nil_subset _
      outgoing := htakes.outgoing
      sender := fun m hm =>
        ⟨(hqueued m hm).1.trans htakes.clientId, Or.inr ⟨(hqueued m hm).2.1, (hqueued m hm).2.2.1⟩⟩
      typed := fun oper ho => by simp [hnone] at ho
      single := fun a b ha => by simp [hnone] at ha
      synced := fun m hm htype => ⟨hnone, (hqueued m hm).2.2.2 htype⟩ }
  refine ⟨queued, hs, h.follow le_rfl ht hs (fun op hop => ?_) (by simp [hnone]) (by simp [hnone])⟩
  exact Or.inl ((htakes.sub hop).imp (fun ho => ho) fun ho => Or.inl (hops ho))

/-- The mouse. -/
theorem mousePressEvent (h : Posted id n s) (line column : ℕ)
    (ht : Synced [] (s.mousePressEvent line column).state) :
    ∃ ms, Sends s ms (s.mousePressEvent line column).state ∧
      Posted id n (s.mousePressEvent line column).state := by
  let P (t : EditorSession) : Prop := t.gen = s.gen ∧ ∃ ms, Does [] ms s t ∧
    ∀ m ∈ ms, ∃ x, m = ⟨.cursorUpdate, s.clientId, .cursorUpdate x⟩
  have hcaret (c : Cursor) : P { s with cursor := c } :=
    ⟨rfl, [], does_carets s c s.remoteCursors s.pendingCursorUpdates, fun _ hm =>
      absurd hm List.not_mem_nil⟩
  have hends : (s.mousePressEvent line column).Ends P P := by
    refine Except.ends_leaving_bind (fun anchor _ => ?_) (hcaret s.cursor)
    cases anchor with
    | none => exact hcaret s.cursor
    | some x =>
      refine Except.Ends.bind (P := fun t => ∃ c : Cursor, t = { s with cursor := c }) ?_ ?_
      · exact Except.ends_leaving_bind (fun cursor _ => ⟨cursor, rfl⟩) (hcaret _)
      · rintro _ ⟨c, rfl⟩
        refine ⟨rfl, _, (does_carets s c s.remoteCursors s.pendingCursorUpdates).trans
          (does_queueOutgoingMessage _ _), fun m hm => ⟨c.anchor, ?_⟩⟩
        exact List.mem_singleton.mp hm
  obtain ⟨hgen, ms, hdoes, hms⟩ := hends.state
  exact ⟨ms, h.of_does ht hdoes hgen hms⟩

theorem mouseMoveEvent (h : Posted id n s) (line column : ℕ)
    (ht : Synced [] (s.mouseMoveEvent line column).state) :
    ∃ ms, Sends s ms (s.mouseMoveEvent line column).state ∧
      Posted id n (s.mouseMoveEvent line column).state := by
  let P (t : EditorSession) : Prop := ∃ c : Cursor, t = { s with cursor := c }
  have hends : (s.mouseMoveEvent line column).Ends P P := by
    refine Except.ends_leaving_bind (fun anchor _ => ?_) ⟨s.cursor, rfl⟩
    cases anchor with
    | none => exact ⟨s.cursor, rfl⟩
    | some x => exact ⟨_, rfl⟩
  obtain ⟨c, hc⟩ := hends.state
  rw [hc] at ht ⊢
  exact ⟨[], h.of_does ht (does_carets s c s.remoteCursors s.pendingCursorUpdates) rfl fun _ hm =>
    absurd hm List.not_mem_nil⟩

/-- **One input**: what a session queues, and how many inserts it makes. -/
theorem input (h : Posted id n s) {i : Input} (hi : ∀ m, i ≠ .receive m)
    (hroom : s.Room i) : ∃ ms, Sends s ms (s.input i).state ∧
      Posted id (n + (s.inserts i).length) (s.input i).state := by
  have hnext : Synced _ (s.input i).state :=
    (Synced.step (c := (s, [])) h.synced ⟨i, fun m he => absurd he (hi m)⟩).2 hroom
  have ht : Synced [] (s.input i).state := { hnext with drawn := fun _ hx => absurd hx List.not_mem_nil }
  cases i with
  | command command => exact h.command hroom ht
  | queueCursorUpdate =>
    refine ⟨_, h.of_does ht (does_queueOutgoingMessage s _) rfl fun m hm => ⟨s.cursor.anchor, ?_⟩⟩
    exact List.mem_singleton.mp hm
  | mousePress line column => exact h.mousePressEvent line column ht
  | mouseMove line column => exact h.mouseMoveEvent line column ht
  | receive m => exact absurd rfl (hi m)
  | flush => exact h.flushIncoming ht

/-! ## What the network does to the queues -/

/-- Messages come in and others are taken out. -/
theorem exchange (h : Posted id n s) {incoming outgoing : List Message} (hsub : outgoing ⊆ s.outgoingQueue)
    (hnew : ∀ m ∈ incoming, m ∈ s.incomingQueue ∨
      (∃ body, Message.deserialize body = .ok m) ∧ ∀ op ∈ m.payload.operations, op.Dated id n) :
    Posted id n { s with incomingQueue := incoming, outgoingQueue := outgoing } := by
  have hmem : ∀ op ∈ operationsOf outgoing, op ∈ operationsOf s.outgoingQueue := fun op hop => by
    obtain ⟨m, hm, hop⟩ := mem_operationsOf.mp hop
    exact mem_operationsOf.mpr ⟨m, hsub hm, hop⟩
  refine
    { synced := h.synced.congr rfl rfl rfl rfl h.synced.anchor fun m hm op hop => ?_
      clientId := h.clientId
      site := h.site
      dated := fun op hop => ?_
      sender := fun m hm => h.sender m (hsub hm)
      own := fun oper ho => h.own oper (hmem _ ho)
      distinct := h.distinct.mono hmem }
  · obtain hm | ⟨⟨body, hbody⟩, -⟩ := hnew m hm
    · exact h.synced.queued m hm op hop
    · obtain ⟨line, -, hdec⟩ := Message.operations_of_deserialize hbody op hop
      exact (Operation.avoids_of_deserialize hdec).1
  · obtain hop | hop | hop := hop
    · exact h.dated op (Or.inl hop)
    · obtain ⟨m, hm, hop⟩ := mem_operationsOf.mp hop
      obtain hm | ⟨-, hall⟩ := hnew m hm
      · exact h.dated op (Or.inr (Or.inl (mem_operationsOf.mpr ⟨m, hm, hop⟩)))
      · exact hall op hop
    · exact h.dated op (Or.inr (Or.inr (hmem op hop)))

theorem mono (h : Posted id n s) {n' : ℕ} (hle : n ≤ n') : Posted id n' s :=
  { h with dated := fun op hop => (h.dated op hop).mono hle }

end Posted

end EditorSession

end CrdtEditor
