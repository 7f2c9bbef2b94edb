import CrdtEditor.Server.Foresight
import CrdtEditor.Session.Outbox

/-!
# System/Clearance — what a client may still submit

A client writes a beginning of its queue at a time, and the server reads it later.  What it will have
submitted then fits the record of its document if the clock of the client has passed the inserts that
are recorded under its id; and it has once the client is live, since the history it took holds them all
(`Server.Clears`).
-/

namespace CrdtEditor

open Text EditorSession

/-- An operation that the server may record: its ids hold no newline and no bar, and an insert has a
clock value that was drawn. -/
structure Operation.Genuine (n : ℕ) (op : Operation) : Prop where
  dated : op.Dated [] n
  bar : op.Avoids bar

theorem Operation.Dated.of_nil {op : Operation} {n : ℕ} (h : op.Dated [] n) (id : Str) :
    op.Dated id n :=
  ⟨fun _ => h.line List.not_mem_nil, h.lamport⟩

theorem Operation.Genuine.mono {op : Operation} {n n' : ℕ} (h : op.Genuine n) (hle : n ≤ n') :
    op.Genuine n' :=
  ⟨h.dated.mono hle, h.bar⟩

/-- **What is stored of a genuine operation is genuine.** -/
theorem Operation.StoredAs.genuine {operation op : Operation} {n : ℕ} (h : operation.StoredAs op)
    (hop : operation.Genuine n) : op.Genuine n := by
  obtain ⟨hbar, havoids⟩ := h.avoids
  refine ⟨⟨fun hid => havoids newline (by decide) (hop.dated.line hid), fun oper he => ?_⟩, hbar⟩
  subst he
  exact hop.dated.lamport oper (h.insert hop.bar)

/-- A message that the client `id` wrote. -/
structure Message.Wired (id : Str) (n : ℕ) (m : Message) : Prop where
  sender : m.sender = id
  type : m.Queued ∨ (m.type = .hello ∨ m.type = .openDocument) ∧ m.payload.operations = []
  dated : ∀ op ∈ m.payload.operations, op.Dated id n
  own : ∀ oper, .insert oper ∈ m.payload.operations → oper.ident.siteId = id

namespace Message.Wired

variable {m m' : Message} {id : Str} {n n' : ℕ} {op : Operation}

theorem mono (h : m.Wired id n) (hle : n ≤ n') : m.Wired id n' :=
  { h with dated := fun op hop => (h.dated op hop).mono hle }

/-- **An operation is read as it was written.** -/
theorem read (h : m.Wired id n) (hid : newline ∉ id)
    (hdec : Message.deserialize m.serialize = .ok m') (htype : m'.type = .operation)
    (hp : m'.payload = .operation op) : m' = m ∧ op.Genuine n ∧ op ∈ m.payload.operations := by
  have htypes := type_of_deserialize_serialize hdec
  obtain (⟨op', ht, hp'⟩ | ⟨ht, -⟩) | ⟨ht, -⟩ := h.type
  · have hop' : op' ∈ m.payload.operations := by
      rw [hp']
      exact List.mem_cons_self
    obtain ⟨-, hbar, rfl⟩ := eq_of_read_operation ht hp' (fun hm => absurd (h.sender ▸ hm) hid)
      (fun _ => (h.dated op' hop').line hid) hdec
    obtain rfl := MessagePayload.operation.inj (hp.symm.trans hp')
    exact ⟨rfl, ⟨⟨fun _ => (h.dated op hop').line hid, (h.dated op hop').lamport⟩, hbar⟩, hop'⟩
  all_goals
    rw [← htypes, htype] at ht
    simp at ht

end Message.Wired

/-- How far a connection is. -/
def ClientState.rank : ClientState → ℕ
  | .unregistered => 0
  | .registered => 1
  | .syncing => 2
  | .live => 3
  | .disconnected => 4

namespace ClientConnection

variable {c c' : ClientConnection} {m : Message} {ms : List Message} {id : Str} {n n' : ℕ}

/-! ## What comes of the messages on their way -/

theorem Foresees.rank_le (h : c.Foresees m c') : c.state.rank ≤ c'.state.rank := by
  cases h with
  | ends => cases hs : c.state <;> simp [ClientState.rank]
  | hello _ phase | openDocument _ _ phase | syncComplete _ phase =>
    rw [phase]
    simp [ClientState.rank]
  | operation | cursorUpdate => exact le_rfl

/-- **A connection never goes back.** -/
theorem rank_le_foldl (c : ClientConnection) (ms : List Message) :
    c.state.rank ≤ (ms.foldl foresee c).state.rank :=
  foldl_foresee (P := fun c' => c.state.rank ≤ c'.state.rank) le_rfl fun _ _ _ _ h₁ h₂ =>
    h₁.trans h₂.rank_le

/-- The document stays. -/
theorem document_foldl (hc : c.Coherent) {d : DocumentID} (hd : c.currentDocument = some d)
    (ms : List Message) : (ms.foldl foresee c).currentDocument = some d := by
  refine (foldl_foresee (P := fun c' => c'.Coherent ∧ c'.currentDocument = some d) ⟨hc, hd⟩
    fun m _ c₁ c₂ ⟨h₁, hd₁⟩ h₂ => ⟨h₂.coherent h₁, ?_⟩).2
  cases h₂ with
  | openDocument _ d' phase => exact absurd (h₁.unopened (Or.inr phase)) (by simp [hd₁])
  | ends | hello | syncComplete | operation | cursorUpdate => exact hd₁

/-- A connection that nobody asks a document for has none. -/
theorem unopened_foldl (hc : c.currentDocument = none) (hms : ∀ m ∈ ms, m.type ≠ .openDocument) :
    (ms.foldl foresee c).currentDocument = none := by
  refine foldl_foresee (P := fun c' => c'.currentDocument = none) hc fun m hm c₁ c₂ h₁ h₂ => ?_
  cases h₂ with
  | openDocument m' _ _ decoded type =>
    exact absurd ((Message.type_of_deserialize_serialize decoded).symm.trans type) (hms m hm)
  | ends | hello | syncComplete | operation | cursorUpdate => exact h₁

/-- A connection whose client is `id`. -/
structure Grounded (id : Str) (n : ℕ) (c : ClientConnection) : Prop where
  coherent : c.Coherent
  unopened : c.currentDocument = none → c.submitted = []
  genuine : ∀ op ∈ c.submitted, op.Genuine n
  own : ∀ oper, .insert oper ∈ c.submitted → oper.ident.siteId = id

theorem Grounded.mono (h : c.Grounded id n) (hle : n ≤ n') : c.Grounded id n' :=
  { h with genuine := fun op hop => (h.genuine op hop).mono hle }

theorem Grounded.foresees (h : c.Grounded id n) (hid : newline ∉ id) (hm : m.Wired id n)
    (hc : c.Foresees m c') : c'.Grounded id n := by
  have hcoherent := hc.coherent h.coherent
  cases hc with
  | ends | hello | syncComplete | cursorUpdate => exact { h with coherent := hcoherent }
  | openDocument _ d phase =>
    exact { h with coherent := hcoherent, unopened := fun hno => by cases hno }
  | operation m' op phase decoded type payload =>
    obtain ⟨-, hgenuine, hop⟩ := hm.read hid decoded type payload
    obtain ⟨d, hd⟩ := h.coherent.opened (Or.inr phase)
    refine
      { coherent := hcoherent
        unopened := fun hno => by cases hd.symm.trans hno
        genuine := fun op' hop' => ?_
        own := fun oper ho => ?_ }
    · obtain hop' | hop' := List.mem_append.mp hop'
      exacts [h.genuine op' hop', List.mem_singleton.mp hop' ▸ hgenuine]
    · obtain ho | ho := List.mem_append.mp ho
      exacts [h.own oper ho, hm.own oper (List.mem_singleton.mp ho ▸ hop)]

theorem Grounded.foldl_foresee (h : c.Grounded id n) (hid : newline ∉ id)
    (hms : ∀ m ∈ ms, m.Wired id n) : (ms.foldl foresee c).Grounded id n :=
  ClientConnection.foldl_foresee h fun m hm _ _ h₁ h₂ => h₁.foresees hid (hms m hm) h₂

/-- **A queue without a `SYNC_COMPLETE`** ends a connection, or submits operations on a live one. -/
structure Continues (ops : List Operation) (c c' : ClientConnection) : Prop where
  state : c'.state = c.state ∨ c'.state = .disconnected
  document : c'.currentDocument = c.currentDocument
  submitted : ∀ op ∈ c'.submitted, op ∈ c.submitted ∨ c.state = .live ∧ op ∈ ops

theorem continues_foldl (hid : newline ∉ id)
    (hms : ∀ m ∈ ms, m.Wired id n ∧ m.Queued ∧ m.type ≠ .syncComplete) :
    Continues (operationsOf ms) c (ms.foldl foresee c) := by
  refine ClientConnection.foldl_foresee ⟨Or.inl rfl, rfl, fun _ => Or.inl⟩ fun m hm c₁ c₂ h₁ h₂ => ?_
  obtain ⟨hwired, hqueued, hsync⟩ := hms m hm
  have htype : m.type = .operation ∨ m.type = .cursorUpdate := by
    obtain ⟨_, ht, -⟩ | ⟨ht | ht, -⟩ := hqueued
    exacts [Or.inl ht, absurd ht hsync, Or.inr ht]
  have hother {m' : Message} (hdec : Message.deserialize m.serialize = .ok m')
      (hor : m'.type = .hello ∨ m'.type = .openDocument ∨ m'.type = .syncComplete) : False := by
    rw [Message.type_of_deserialize_serialize hdec] at hor
    obtain ht | ht := htype <;> simp [ht] at hor
  cases h₂ with
  | ends => exact ⟨Or.inr rfl, h₁.document, h₁.submitted⟩
  | hello _ _ decoded type => exact (hother decoded (Or.inl type)).elim
  | openDocument _ _ _ decoded type => exact (hother decoded (Or.inr (Or.inl type))).elim
  | syncComplete _ _ decoded type => exact (hother decoded (Or.inr (Or.inr type))).elim
  | cursorUpdate => exact h₁
  | operation m' op phase decoded type payload =>
    obtain ⟨-, -, hop⟩ := hwired.read hid decoded type payload
    have hlive : c.state = .live := by
      obtain hs | hs := h₁.state
      · exact hs.symm.trans phase
      · rw [phase] at hs
        cases hs
    refine ⟨h₁.state, h₁.document, fun op' hop' => ?_⟩
    obtain hop' | hop' := List.mem_append.mp hop'
    · exact h₁.submitted op' hop'
    · exact Or.inr ⟨hlive, mem_operationsOf.mpr ⟨m, hm, List.mem_singleton.mp hop' ▸ hop⟩⟩

end ClientConnection

/-- What a session has queued. -/
theorem EditorSession.Posted.wired {u : EditorSession} {id : Str} {n : ℕ} (h : Posted id n u) :
    ∀ m ∈ u.outgoingQueue, m.Wired id n := fun m hm => by
  have hops : ∀ op ∈ m.payload.operations, op ∈ operationsOf u.outgoingQueue := fun op hop =>
    mem_operationsOf.mpr ⟨m, hm, hop⟩
  exact
    { sender := (h.sender m hm).1
      type := Or.inl (h.sender m hm).2
      dated := fun op hop => h.dated op (Or.inr (Or.inr (hops op hop)))
      own := fun oper ho => (h.own oper (hops _ ho)).1 }

/-! ## What fits the record -/

namespace Server

open ClientConnection

variable {s t : Server} {c : ClientConnection} {id : Str} {n : ℕ} {clock : UInt64}
  {received : List Message}

/-- What a connection submitted and what is recorded for its document have different ids. -/
def Fits (s : Server) (c : ClientConnection) : Prop :=
  ∀ d, c.currentDocument = some d →
    Operation.Consistent ({op | op ∈ s.recorded d} ∪ {op | op ∈ c.submitted})

/-- An insert of the client `id` that is recorded for the document of the connection. -/
def Holds (s : Server) (c : ClientConnection) (id : Str) (oper : InsertOperation) : Prop :=
  oper.ident.siteId = id ∧ ∃ d, c.currentDocument = some d ∧ .insert oper ∈ s.recorded d

/-- **What a client may submit**: the connection is `c` once the server has read what the client wrote,
and `received` is what the client was sent or has yet to take. -/
structure Clears (s : Server) (id : Str) (clock : UInt64) (received : List Message)
    (c : ClientConnection) : Prop where
  fits : s.Fits c
  submitted : ∀ oper, .insert oper ∈ c.submitted → oper.ident.lamport ≤ clock
  passed : c.state = .live → ∀ oper, s.Holds c id oper → oper.ident.lamport ≤ clock
  covered : c.state = .syncing → ∀ m ∈ received, m.type = .syncResponse →
    ∀ oper, s.Holds c id oper → .insert oper ∈ m.payload.operations

theorem clears_of_unopened (hd : c.currentDocument = none) (hsubmitted : c.submitted = []) :
    s.Clears id clock received c where
  fits _ he := by cases hd.symm.trans he
  submitted oper ho := by simp [hsubmitted] at ho
  passed _ _ := fun ⟨_, _, he, _⟩ => by cases hd.symm.trans he
  covered _ _ _ _ _ := fun ⟨_, _, he, _⟩ => by cases hd.symm.trans he

/-- What is recorded besides comes from another client, or from this connection. -/
def Widens (s : Server) (id : Str) (c : ClientConnection) (t : Server) : Prop :=
  ∀ d, c.currentDocument = some d → Operation.Consistent {op | op ∈ t.recorded d} ∧
    ∀ oper, .insert oper ∈ t.recorded d → .insert oper ∈ s.recorded d ∨ oper.ident.siteId ≠ id ∨
      .insert oper ∈ c.submitted ∧ c.state ≠ .syncing

theorem Fits.widen (h : s.Fits c) (hc : c.Grounded id n) (ht : s.Widens id c t) : t.Fits c :=
  fun d hd a b ha hb he => by
    obtain ⟨hconsistent, hnew⟩ := ht d hd
    have hold := h d hd
    have hmixed : ∀ x y, .insert x ∈ t.recorded d → .insert y ∈ c.submitted → x.ident = y.ident →
        x = y := fun x y hx hy hxy => by
      obtain hx | hx | ⟨hx, -⟩ := hnew x hx
      · exact hold x y (Or.inl hx) (Or.inr hy) hxy
      · exact absurd (hxy ▸ hc.own y hy) hx
      · exact hold x y (Or.inr hx) (Or.inr hy) hxy
    obtain ha | ha := ha <;> obtain hb | hb := hb
    · exact hconsistent a b ha hb he
    · exact hmixed a b ha hb he
    · exact (hmixed b a hb ha he.symm).symm
    · exact hold a b (Or.inr ha) (Or.inr hb) he

/-- **The record grows.** -/
theorem Clears.widen (h : s.Clears id clock received c) (hc : c.Grounded id n)
    (ht : s.Widens id c t) : t.Clears id clock received c := by
  have hnew : ∀ oper, t.Holds c id oper → s.Holds c id oper ∨
      .insert oper ∈ c.submitted ∧ c.state ≠ .syncing := fun oper ⟨hsite, d, hd, ho⟩ => by
    obtain ho | ho | ho := (ht d hd).2 oper ho
    exacts [Or.inl ⟨hsite, d, hd, ho⟩, absurd hsite ho, Or.inr ho]
  refine
    { fits := h.fits.widen hc ht
      submitted := h.submitted
      passed := fun hs oper ho => ?_
      covered := fun hs m hm htype oper ho => ?_ }
  · exact (hnew oper ho).elim (h.passed hs oper) fun ho => h.submitted oper ho.1
  · exact (hnew oper ho).elim (h.covered hs m hm htype oper) fun ho => absurd hs ho.2

/-- More is received, or less. -/
theorem Clears.receive (h : s.Clears id clock received c) {received' : List Message}
    (hnew : ∀ m ∈ received', m ∈ received ∨ (c.state = .syncing → m.type = .syncResponse →
      ∀ oper, s.Holds c id oper → .insert oper ∈ m.payload.operations)) :
    s.Clears id clock received' c :=
  { h with covered := fun hs m hm htype oper ho =>
      (hnew m hm).elim (fun hm => h.covered hs m hm htype oper ho) fun hall => hall hs htype oper ho }

theorem Clears.ends (h : s.Clears id clock received c) :
    s.Clears id clock received { c with state := .disconnected } :=
  { h with
    passed := fun hs => by cases hs
    covered := fun hs => by cases hs }

theorem Clears.mono (h : s.Clears id clock received c) {clock' : UInt64} (hle : clock ≤ clock') :
    s.Clears id clock' received c :=
  { h with
    submitted := fun oper ho => (h.submitted oper ho).trans hle
    passed := fun hs oper ho => (h.passed hs oper ho).trans hle }

/-- **A session that is live submits what it queues**: its inserts are above its clock. -/
theorem Clears.continues {u v : EditorSession} {ms : List Message} {c' : ClientConnection}
    (h : s.Clears id u.gen.lamportClock received c) (hsends : Sends u ms v)
    (hsite : u.gen.clientId = id)
    (hroom : ∀ oper, .insert oper ∈ operationsOf ms → u.gen.lamportClock.toNat + 1 < 2 ^ 64)
    (hc' : Continues (operationsOf ms) c c') : s.Clears id v.gen.lamportClock received c' := by
  have hmono := h.mono hsends.clock
  have hholds : ∀ oper, s.Holds c' id oper ↔ s.Holds c id oper := fun oper => by
    rw [Holds, Holds, hc'.document]
  have hnew : ∀ oper, .insert oper ∈ operationsOf ms → u.gen.lamportClock < oper.ident.lamport ∧
      oper.ident.siteId = id ∧ oper.ident.lamport = v.gen.lamportClock := fun oper ho => by
    obtain ⟨he, hclock⟩ := hsends.typed oper ho
    rw [he]
    exact ⟨IdGenerator.clock_lt_upcoming (hroom oper ho), hsite, hclock.symm⟩
  refine
    { fits := fun d hd => ?_
      submitted := fun oper ho => ?_
      passed := fun hs oper ho => ?_
      covered := fun hs m hm htype oper ho => ?_ }
  · rw [hc'.document] at hd
    have hmixed : ∀ x y, (.insert x ∈ s.recorded d ∨ .insert x ∈ c.submitted) → c.state = .live →
        .insert y ∈ operationsOf ms → x.ident = y.ident → x = y := fun x y hx hlive hy hxy => by
      obtain ⟨hlt, hsite, -⟩ := hnew y hy
      have hle : x.ident.lamport ≤ u.gen.lamportClock :=
        hx.elim (fun hx => h.passed hlive x ⟨hxy ▸ hsite, d, hd, hx⟩) fun hx => h.submitted x hx
      exact absurd (hxy ▸ hlt) (not_lt.mpr hle)
    have hcases : ∀ x, .insert x ∈ ({op | op ∈ s.recorded d} ∪ {op | op ∈ c'.submitted} :
        Set Operation) → (.insert x ∈ s.recorded d ∨ .insert x ∈ c.submitted) ∨
          c.state = .live ∧ .insert x ∈ operationsOf ms := fun x hx => by
      obtain hx | hx := hx
      · exact Or.inl (Or.inl hx)
      · exact (hc'.submitted _ hx).imp Or.inr fun ho => ho
    intro a b ha hb he
    obtain ha | ⟨hlive, ha⟩ := hcases a ha <;> obtain hb | ⟨hlive', hb⟩ := hcases b hb
    · exact h.fits d hd a b ha hb he
    · exact hmixed a b ha hlive' hb he
    · exact (hmixed b a hb hlive ha he.symm).symm
    · exact hsends.single a b ha hb he
  · obtain ho | ⟨-, ho⟩ := hc'.submitted _ ho
    exacts [hmono.submitted oper ho, (hnew oper ho).2.2.le]
  · obtain he | he := hc'.state
    · exact hmono.passed (he.symm.trans hs) oper ((hholds oper).mp ho)
    · cases he.symm.trans hs
  · obtain he | he := hc'.state
    · exact hmono.covered (he.symm.trans hs) m hm htype oper ((hholds oper).mp ho)
    · cases he.symm.trans hs

/-- **The session goes on** and queues messages: it queues a `SYNC_COMPLETE` only after a history that
holds what is recorded under its id. -/
theorem Clears.sends {u v : EditorSession} {ms q : List Message}
    (h : s.Clears id u.gen.lamportClock received c) (hid : newline ∉ id)
    (hsends : Sends u ms v) (hsite : u.gen.clientId = id) (hwired : ∀ m ∈ ms, m.Wired id n)
    (hroom : ∀ oper, .insert oper ∈ operationsOf ms → u.gen.lamportClock.toNat + 1 < 2 ^ 64)
    (hincoming : u.incomingQueue ⊆ received) (hq : q <+: ms) :
    s.Clears id v.gen.lamportClock received (q.foldl foresee c) := by
  have hqueued : ∀ m ∈ ms, m.Queued := fun m hm => (hsends.sender m hm).2
  by_cases hsync : ∃ m ∈ ms, m.type = .syncComplete
  · -- a history was taken, and nothing is submitted
    obtain ⟨m₀, hm₀, htype₀⟩ := hsync
    obtain ⟨hnone, r, hr, hrtype, hpassed⟩ := hsends.synced m₀ hm₀ htype₀
    refine foldl_foresee (P := fun c' => s.Clears id v.gen.lamportClock received c')
      (h.mono hsends.clock) fun m hm c₁ c₂ h₁ h₂ => ?_
    have hmms := hq.subset hm
    cases h₂ with
    | ends => exact h₁.ends
    | cursorUpdate => exact h₁
    | syncComplete _ phase =>
      refine { h₁ with passed := fun _ oper ho => ?_, covered := fun hs => by cases hs }
      exact hpassed oper (h₁.covered phase r (hincoming hr) hrtype oper ho)
    | operation m' op _ decoded type payload =>
      obtain ⟨-, -, hop⟩ := (hwired m hmms).read hid decoded type payload
      have : op ∈ operationsOf ms := mem_operationsOf.mpr ⟨m, hmms, hop⟩
      simp [hnone] at this
    | hello _ _ decoded type | openDocument _ _ _ decoded type =>
      have htype := (Message.type_of_deserialize_serialize decoded).symm.trans type
      obtain ⟨_, ht, -⟩ | ⟨ht | ht, -⟩ := hqueued m hmms <;> simp [htype] at ht
  · have hc' := continues_foldl (c := c) hid fun m hm =>
      ⟨hwired m (hq.subset hm), hqueued m (hq.subset hm), fun ht => hsync ⟨m, hq.subset hm, ht⟩⟩
    refine h.continues hsends hsite hroom { hc' with submitted := fun op hop => ?_ }
    refine (hc'.submitted op hop).imp (fun ho => ho) (And.imp_right fun ho => ?_)
    obtain ⟨m, hm, ho⟩ := mem_operationsOf.mp ho
    exact mem_operationsOf.mpr ⟨m, hq.subset hm, ho⟩

/-- **A client asks for a document** while nothing of an earlier synchronization is left: what the
server will send is what it has recorded. -/
theorem Clears.opens {q : List Message} {m : Message} (h : s.Clears id clock received c)
    (hc : c.Grounded id n) (hid : newline ∉ id) (htype : m.type = .openDocument)
    (hq : ∀ m ∈ q, m.Wired id n ∧ m.Queued ∧ m.type ≠ .syncComplete)
    (hreceived : c.state = .registered → ∀ m ∈ received, m.type ≠ .syncResponse)
    (hconsistent : ∀ d, Operation.Consistent {op | op ∈ s.recorded d}) :
    s.Clears id clock received (q.foldl foresee (c.foresee m)) := by
  have hforesees := c.foresees m
  have hother {m' : Message} (hdec : Message.deserialize m.serialize = .ok m')
      (hne : m'.type ≠ .openDocument) : False :=
    hne ((Message.type_of_deserialize_serialize hdec).trans htype)
  generalize c.foresee m = c₁ at hforesees
  cases hforesees with
  | ends =>
    rw [foldl_foresee_of_disconnected rfl]
    exact h.ends
  | openDocument m' d phase =>
    have hc' := continues_foldl (c := { c with currentDocument := some d, state := .syncing }) hid hq
    generalize q.foldl foresee _ = c' at hc'
    have hnone : c.submitted = [] := hc.unopened (hc.coherent.unopened (Or.inr phase))
    have hsubmitted : ∀ op, op ∉ c'.submitted := fun op hop => by
      obtain hop | ⟨hlive, -⟩ := hc'.submitted op hop
      · exact absurd (show op ∈ c.submitted from hop) (by simp [hnone])
      · cases hlive
    refine
      { fits := fun d' hd => ?_
        submitted := fun oper ho => absurd ho (hsubmitted _)
        passed := fun hs => ?_
        covered := fun _ r hr hsync => absurd hsync (hreceived phase r hr) }
    · refine (hconsistent d').mono (Set.union_subset subset_rfl fun op hop => ?_)
      exact absurd hop (hsubmitted op)
    · obtain he | he := hc'.state <;> cases he.symm.trans hs
  | hello _ _ decoded type | syncComplete _ _ decoded type | operation _ _ _ decoded type
  | cursorUpdate _ _ decoded type =>
    exact (hother decoded (by simp [type])).elim

end Server

end CrdtEditor
