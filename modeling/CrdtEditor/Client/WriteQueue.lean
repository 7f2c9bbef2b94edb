import CrdtEditor.Client.Generations

/-!
# Client/WriteQueue — the write queue of the client

`start_write` is reached from `send_message_impl` and from its own completion, and `disconnect_impl`
clears the queue while writes of many connections may still be outstanding.  `Writing` ties the queue,
the write that is outstanding, the state and the generation together; what is written on a connection
is then a prefix of what was accepted on it (`fifo_along`).
-/

open scoped List

namespace CrdtEditor

namespace NetworkClient

/-- The frame of a write of generation `n`. -/
def Request.writes (n : ℕ) : Request → Option Frame
  | .write g frame => if g = n then some frame else none
  | _ => none

/-- The writes of a generation whose handler has not run. -/
def writes (c : NetworkClient) (g : ℕ) : List Frame :=
  c.io.outstanding.filterMap (Request.writes g)

/-- The messages of a generation. -/
def ofGeneration (g : ℕ) (l : List (ℕ × Message)) : List Message := (l.filter (·.1 = g)).map (·.2)

/-- **The queue of a client at rest.** -/
structure Fifo (c : NetworkClient) : Prop where
  idle : c.state = .disconnected ∨ c.state = .connecting → c.writeQueue = []
  single : (c.writes c.generation).length ≤ 1
  front : ∀ frame ∈ c.writes c.generation, c.writeQueue.head? = some frame
  completed : ∀ g, ofGeneration g c.written ++ (c.writes g).map Frame.message <+:
    ofGeneration g c.accepted

/-- A completed write finds its frame at the front, or is of another generation and changes
nothing. -/
def Pops (c : NetworkClient) (e : Event) : Prop :=
  ∀ input g frame success, e = .run input →
    c.io.ready.head? = some (.completion (.write g frame) success) →
    (g = c.generation → c.writeQueue.head? = some frame) ∧ (g ≠ c.generation → c.step e = c.taken)

variable {c c' : NetworkClient}

@[simp] theorem ofGeneration_append (g : ℕ) (l l' : List (ℕ × Message)) :
    ofGeneration g (l ++ l') = ofGeneration g l ++ ofGeneration g l' := by
  rw [ofGeneration, List.filter_append, List.map_append, ofGeneration, ofGeneration]

@[simp] theorem ofGeneration_self (g : ℕ) (m : Message) : ofGeneration g [(g, m)] = [m] := by
  simp [ofGeneration]

theorem ofGeneration_of_ne {g g' : ℕ} (h : g' ≠ g) (m : Message) : ofGeneration g [(g', m)] = [] := by
  simp [ofGeneration, h]

/-- **A client and its writes.** -/
structure Writing (c : NetworkClient) : Prop where
  idle : c.state = .disconnected ∨ c.state = .connecting → c.writeQueue = []
  single : ∀ g, (c.writes g).length ≤ 1
  front : ∀ frame ∈ c.writes c.generation, c.writeQueue.head? = some frame
  tally : ofGeneration c.generation c.accepted =
    ofGeneration c.generation c.written ++ c.writeQueue.map Frame.message
  older : ∀ g ≠ c.generation, ofGeneration g c.written ++ (c.writes g).map Frame.message <+:
    ofGeneration g c.accepted
  past : ∀ g, c.generation < g → ofGeneration g c.accepted = []

theorem writing_start (clientId : Str) : Writing (start clientId) where
  idle _ := rfl
  single _ := Nat.zero_le 1
  front _ h := absurd h List.not_mem_nil
  tally := rfl
  older _ _ := List.prefix_rfl
  past _ _ := rfl

/-- The outstanding write of the present connection is that of the front. -/
theorem Writing.writes_prefix (h : Writing c) : c.writes c.generation <+: c.writeQueue := by
  have hsingle := h.single c.generation
  cases hw : c.writes c.generation with
  | nil => exact List.nil_prefix
  | cons frame rest =>
    rw [hw] at hsingle
    obtain rfl : rest = [] := List.length_eq_zero_iff.1 (Nat.le_zero.1 (Nat.le_of_succ_le_succ hsingle))
    have hfront := h.front frame (by rw [hw]; exact List.mem_cons_self)
    obtain ⟨tail, hq⟩ := List.head?_eq_some_iff.1 hfront
    exact ⟨tail, hq.symm⟩

theorem Writing.completed (h : Writing c) (g : ℕ) :
    ofGeneration g c.written ++ (c.writes g).map Frame.message <+: ofGeneration g c.accepted := by
  by_cases hg : g = c.generation
  · rw [hg, h.tally]
    exact List.prefix_append_right_inj _ |>.2 (h.writes_prefix.map _)
  · exact h.older g hg

theorem Writing.fifo (h : Writing c) : Fifo c :=
  ⟨h.idle, h.single _, h.front, h.completed⟩

/-- Part of at most one write is that write, or none. -/
theorem eq_or_nil_of_subperm {l l' : List Frame} (h : l' <+~ l) (hl : l.length ≤ 1) :
    l' = l ∨ l' = [] := by
  cases l' with
  | nil => exact Or.inr rfl
  | cons f rest =>
    have hlen := h.length_le
    rw [List.length_cons] at hlen
    obtain rfl : rest = [] := List.length_eq_zero_iff.1 (by omega)
    obtain ⟨f', rfl⟩ := List.length_eq_one_iff.1 (by simpa using le_antisymm hl (by simpa using hlen))
    rw [List.mem_singleton.1 (h.subset List.mem_cons_self)]
    exact Or.inl rfl

/-- What ends or is no write leaves fewer writes. -/
theorem writes_subperm_of_perm (h : c'.io.outstanding ~ c.io.outstanding) (g : ℕ) :
    c'.writes g <+~ c.writes g :=
  (h.filterMap _).subperm

theorem writes_taken (c : NetworkClient) (g : ℕ) : c.taken.writes g <+~ c.writes g :=
  (c.taken_sublist.filterMap _).subperm

theorem writes_request (c : NetworkClient) {op : Request} (hop : ∀ g, op.writes g = none) (g : ℕ) :
    (c.request op).writes g <+~ c.writes g := by
  have hperm := (c.io.outstanding_start op).filterMap (Request.writes g)
  rw [List.filterMap_cons, hop] at hperm
  exact hperm.subperm

/-- A change that starts no write and leaves the queue alone. -/
theorem Writing.congr (h : Writing c) (hg : c'.generation = c.generation)
    (hq : c'.writeQueue = c.writeQueue) (ha : c'.accepted = c.accepted)
    (hw : c'.written = c.written) (hwrites : ∀ g, c'.writes g <+~ c.writes g)
    (hidle : c'.state = .disconnected ∨ c'.state = .connecting → c.writeQueue = []) :
    Writing c' where
  idle hs := hq.trans (hidle hs)
  single g := (hwrites g).length_le.trans (h.single g)
  front frame hf := by
    rw [hq]
    exact h.front frame ((hwrites _).subset (hg ▸ hf))
  tally := by
    rw [hg, ha, hw, hq]
    exact h.tally
  older g hne := by
    rw [hw, ha]
    obtain he | he := eq_or_nil_of_subperm (hwrites g) (h.single g)
    · rw [he]
      exact h.completed g
    · rw [he, List.map_nil, List.append_nil]
      exact (List.prefix_append _ _).trans (h.completed g)
  past g hlt := by
    rw [ha]
    exact h.past g (hg ▸ hlt)

theorem Writing.request (h : Writing c) {op : Request} (hop : ∀ g, op.writes g = none) :
    Writing (c.request op) :=
  h.congr rfl rfl rfl rfl (c.writes_request hop) h.idle

/-- **A new generation** has written nothing and is writing nothing. -/
theorem Writing.renew (h : Writing c) (hp : c.Past) (hg : c'.generation = c.generation + 1)
    (hq : c'.writeQueue = []) (ha : c'.accepted = c.accepted) (hw : c'.written = c.written)
    (hwrites : ∀ g, c'.writes g <+~ c.writes g) : Writing c' := by
  have hnone : c'.writes (c.generation + 1) = [] := by
    have hold : c.writes (c.generation + 1) = [] := List.filterMap_eq_nil_iff.2 fun op hop => by
      have hle := hp op hop
      cases op with
      | write g frame => exact if_neg fun he : g = _ => absurd (he ▸ hle) (by simp [Request.generation])
      | resolve | connect | readHeader | readBody => rfl
    exact List.subperm_nil.1 (hold ▸ hwrites _)
  have hnothing := h.past (c.generation + 1) (Nat.lt_succ_self _)
  have hunwritten : ofGeneration (c.generation + 1) c.written = [] := by
    have := h.completed (c.generation + 1)
    rw [hnothing, List.prefix_nil] at this
    exact (List.append_eq_nil_iff.1 this).1
  refine
    { idle := fun _ => hq
      single := fun g => (hwrites g).length_le.trans (h.single g)
      front := fun frame hf => ?_
      tally := ?_
      older := fun g _ => ?_
      past := fun g hlt => ?_ }
  · rw [hg, hnone] at hf
    cases hf
  · rw [hg, ha, hw, hq, hnothing, hunwritten]
    rfl
  · rw [hw, ha]
    obtain he | he := eq_or_nil_of_subperm (hwrites g) (h.single g)
    · rw [he]
      exact h.completed g
    · rw [he, List.map_nil, List.append_nil]
      exact (List.prefix_append _ _).trans (h.completed g)
  · rw [ha]
    rw [hg] at hlt
    exact h.past g (Nat.lt_of_succ_lt hlt)

/-- A message is queued behind the others. -/
theorem Writing.push (h : Writing c) (hs : ¬ (c.state = .disconnected ∨ c.state = .connecting))
    (number : ℕ) (message : Message) :
    Writing { c with
      writeQueue := c.writeQueue ++ [⟨number, message⟩]
      accepted := c.accepted ++ [(c.generation, message)] } where
  idle hs' := absurd hs' hs
  single := h.single
  front frame hf := by
    change (c.writeQueue ++ _).head? = _
    rw [List.head?_append, h.front frame hf]
    rfl
  tally := by
    change ofGeneration c.generation (c.accepted ++ _) =
      ofGeneration c.generation c.written ++ (c.writeQueue ++ _).map _
    rw [ofGeneration_append, ofGeneration_self, h.tally, List.map_append, List.append_assoc]
    rfl
  older g hne := by
    change _ <+: ofGeneration g (c.accepted ++ _)
    rw [ofGeneration_append, ofGeneration_of_ne (Ne.symm hne), List.append_nil]
    exact h.older g hne
  past g hlt := by
    change ofGeneration g (c.accepted ++ _) = _
    rw [ofGeneration_append, h.past g hlt, ofGeneration_of_ne (Nat.ne_of_lt hlt)]
    rfl

/-- **`start_write`**, when no write of the connection is outstanding. -/
theorem Writing.startWrite (h : Writing c) (hnone : c.writes c.generation = []) :
    Writing c.startWrite := by
  rw [NetworkClient.startWrite]
  split
  case h_1 => exact h
  case h_2 frame rest hq =>
    have hperm : ∀ g, (c.request (.write c.generation frame)).writes g ~
        (Request.write c.generation frame :: c.io.outstanding).filterMap (Request.writes g) := fun g =>
      (c.io.outstanding_start _).filterMap _
    have hself : (c.request (.write c.generation frame)).writes c.generation = [frame] := by
      have := hperm c.generation
      rw [List.filterMap_cons, Request.writes, if_pos rfl] at this
      exact List.perm_singleton.1 (this.trans (.of_eq (congrArg (frame :: ·) hnone)))
    have hother : ∀ g ≠ c.generation, (c.request (.write c.generation frame)).writes g ~ c.writes g :=
      fun g hne => by
        have := hperm g
        rwa [List.filterMap_cons, Request.writes, if_neg (Ne.symm hne)] at this
    refine
      { idle := h.idle
        single := fun g => ?_
        front := fun f hf => ?_
        tally := h.tally
        older := fun g hne => ?_
        past := h.past }
    · by_cases hg : g = c.generation
      · rw [hg, hself]
        exact le_rfl
      · exact (hother g hg).length_eq.le.trans (h.single g)
    · obtain rfl := List.mem_singleton.1 (hself ▸ hf)
      change c.writeQueue.head? = _
      rw [hq]
      rfl
    · obtain he | he := eq_or_nil_of_subperm (hother g hne).subperm (h.single g)
      · rw [he]
        exact h.older g hne
      · rw [he, List.map_nil, List.append_nil]
        exact (List.prefix_append _ _).trans (h.older g hne)

/-- **`send_message_impl`.** -/
theorem Writing.sendMessage (h : Writing c) (message : Message) :
    (c.sendMessage message).Ends Writing Writing := by
  rw [NetworkClient.sendMessage]
  refine Except.ends_ite (fun _ => h) fun hs => ?_
  refine Except.ends_ite (fun _ => h) fun _ => ?_
  have hpush := h.push hs c.accepted.length message
  dsimp only
  split
  case isTrue hq =>
    refine hpush.startWrite (List.eq_nil_iff_forall_not_mem.2 fun frame hf => ?_)
    have := h.front frame hf
    rw [hq] at this
    cases this
  case isFalse => exact hpush

/-- The write of the front ends. -/
theorem Writing.pop (h : Writing c) (hnone : c.writes c.generation = []) {frame : Frame}
    (hfront : c.writeQueue.head? = some frame) :
    Writing { c with
      writeQueue := c.writeQueue.tail
      written := c.written ++ [(c.generation, frame.message)] } := by
  obtain ⟨rest, hq⟩ := List.head?_eq_some_iff.1 hfront
  refine
    { idle := fun hs => ?_
      single := h.single
      front := fun f hf => ?_
      tally := ?_
      older := fun g hne => ?_
      past := h.past }
  · change c.writeQueue.tail = []
    rw [h.idle hs, List.tail_nil]
  · exact absurd (hnone ▸ hf : f ∈ []) List.not_mem_nil
  · change ofGeneration c.generation c.accepted =
      ofGeneration c.generation (c.written ++ _) ++ c.writeQueue.tail.map _
    rw [h.tally, ofGeneration_append, ofGeneration_self, hq, List.append_assoc]
    rfl
  · change ofGeneration g (c.written ++ _) ++ _ <+: _
    rw [ofGeneration_append, ofGeneration_of_ne (Ne.symm hne), List.append_nil]
    exact h.older g hne

/-! ## The turn of a handler -/

theorem Writing.taken (h : Writing c) : Writing c.taken :=
  h.congr rfl rfl rfl rfl c.writes_taken h.idle

/-- **The write that completes is that of the front**, and the only one. -/
theorem Writing.sole (h : Writing c) {frame : Frame} {success : Bool}
    (hr : c.io.ready.head? = some (.completion (.write c.generation frame) success)) :
    c.writeQueue.head? = some frame ∧ c.taken.writes c.generation = [] := by
  have hperm : c.io.outstanding ~ .write c.generation frame :: c.taken.io.outstanding :=
    IoContext.outstanding_take (List.head?_eq_getElem? ▸ hr)
  have hwrites : c.writes c.generation ~ frame :: c.taken.writes c.generation := by
    have := hperm.filterMap (Request.writes c.generation)
    rwa [List.filterMap_cons, Request.writes, if_pos rfl] at this
  refine ⟨h.front frame (hwrites.symm.subset List.mem_cons_self), ?_⟩
  have hlen := h.single c.generation
  rw [hwrites.length_eq, List.length_cons] at hlen
  exact List.length_eq_zero_iff.1 (by omega)

theorem Writing.fail (h : Writing c) : Writing c.fail :=
  h.congr rfl rfl rfl rfl (writes_subperm_of_perm (.of_eq (c.io.outstanding_post _))) h.idle

theorem Writing.handleMessage (h : Writing c) (body : Str) : Writing (c.handleMessage body) := by
  have hreject : ∀ report, Writing (c.reject report) := fun report =>
    (h.congr rfl rfl rfl rfl (fun _ => .refl _) h.idle : Writing { c with
      violations := c.violations ++ [report] }).fail
  have hpush : ∀ m, Writing { c with incoming := c.incoming ++ [m] } := fun m =>
    h.congr rfl rfl rfl rfl (fun _ => .refl _) h.idle
  have hite : ∀ {p : Prop} [Decidable p] {a b : NetworkClient}, Writing a → Writing b →
      Writing (if p then a else b) := fun {p} _ {a b} ha hb => by
    split
    exacts [ha, hb]
  rw [NetworkClient.handleMessage]
  cases Message.deserialize body with
  | error e => exact h.fail
  | ok m =>
    dsimp only
    cases m.type with
    | operation => exact hite (hreject _) (hpush m)
    | syncResponse => exact hite (hreject _) (hpush m)
    | cursorUpdate => exact hite (hreject _) (hpush m)
    | helloAck =>
      refine hite (hreject _) (h.congr rfl rfl rfl rfl (fun _ => .refl _) fun hs => ?_)
      rcases hs with hs | hs <;> cases hs
    | hello | syncComplete | openDocument | syncRequest => exact hreject _

/-- **The handler of an operation that finished.** -/
theorem Writing.complete (h : Writing c) (hd : Dialing c) {op : Request} {success : Bool}
    (hr : c.io.ready.head? = some (.completion op success)) (input : Input) :
    (c.taken.complete input op success).Ends Writing Writing := by
  have ht := h.taken
  have hfail : Writing c.taken.failUnlessDisconnected := by
    rw [failUnlessDisconnected]
    split
    exacts [ht.fail, ht]
  cases op with
  | resolve g =>
    refine Except.ends_ite (fun _ => ht) fun hg => ?_
    obtain ⟨hs, -⟩ := hd.sole hr (decide_eq_true (not_not.1 hg))
    refine Except.ends_ite (fun _ => ht.request fun _ => rfl) fun _ => ?_
    exact ht.congr rfl rfl rfl rfl (fun _ => .refl _) fun _ => h.idle (Or.inr hs)
  | connect g =>
    refine Except.ends_ite (fun _ => ht) fun hg => ?_
    obtain ⟨hs, -⟩ := hd.sole hr (decide_eq_true (not_not.1 hg))
    have hidle : c.writeQueue = [] := h.idle (Or.inr hs)
    refine Except.ends_ite (fun _ => ?_) fun _ => ?_
    · have hregistering : Writing { c.taken with state := .registering } :=
        ht.congr rfl rfl rfl rfl (fun _ => .refl _) fun _ => hidle
      refine Except.Ends.bind (hregistering.sendMessage _) fun c' h' => ?_
      exact h'.request fun _ => rfl
    · exact ht.renew hd.taken.past rfl hidle rfl rfl
        (writes_subperm_of_perm (c.taken.io.outstanding_cancel _))
  | readHeader g =>
    refine Except.ends_ite (fun _ => ht) fun _ => ?_
    refine Except.ends_ite (fun _ => hfail) fun _ => ?_
    exact Except.ends_ite (fun _ => ht.fail) fun _ => ht.request fun _ => rfl
  | readBody g =>
    refine Except.ends_ite (fun _ => ht) fun _ => ?_
    refine Except.ends_ite (fun _ => hfail) fun _ => ?_
    have hm := ht.handleMessage input.body
    rw [Except.ends_ok]
    split
    exacts [hm.request fun _ => rfl, hm]
  | write g frame =>
    refine Except.ends_ite (fun _ => ht) fun hg => ?_
    refine Except.ends_ite (fun _ => hfail) fun _ => ?_
    obtain rfl : g = c.generation := not_not.1 hg
    obtain ⟨hfront, hnone⟩ := h.sole hr
    have hpop := ht.pop hnone hfront
    rw [Except.ends_ok]
    split
    exacts [hpop.startWrite hnone, hpop]

/-- **The task at the front.** -/
theorem Writing.runTask (h : Writing c) (hd : Dialing c) (input : Input) (task : Task) :
    (c.runTask input task).Ends Writing Writing := by
  cases task with
  | connect =>
    change Writing (c.connectImpl input.opened)
    rw [connectImpl]
    split
    case isTrue => exact h
    case isFalse hs =>
      have hidle := h.idle (Or.inl (not_not.1 hs))
      have hclosed : Writing (if c.socketOpen then c.closeSocket else c) := by
        split
        · exact h.congr rfl rfl rfl rfl (writes_subperm_of_perm (c.io.outstanding_cancel _)) h.idle
        · exact h
      have hpast : (if c.socketOpen then c.closeSocket else c).Past := by
        split
        exacts [hd.closeSocket.past, hd.past]
      have hqueue : (if c.socketOpen then c.closeSocket else c).writeQueue = [] := by
        split <;> exact hidle
      dsimp only
      split
      · exact hclosed.renew hpast rfl hqueue rfl rfl (writes_request _ fun _ => rfl)
      · exact hclosed
  | disconnect cause =>
    change Writing c.disconnectImpl
    rw [disconnectImpl]
    split
    · exact h
    · exact h.renew hd.past rfl rfl rfl rfl (writes_subperm_of_perm (c.io.outstanding_cancel _))
  | openDocument d =>
    refine Except.ends_ite (fun _ => h) fun _ => ?_
    refine Except.ends_ite (fun _ => h) fun _ => ?_
    have hsyncing : Writing { c with state := .syncing } :=
      h.congr rfl rfl rfl rfl (fun _ => .refl _) fun hs => by
        rcases hs with hs | hs <;> cases hs
    exact hsyncing.sendMessage _
  | processOutgoing =>
    have hempty : Writing { c with outgoing := [] } :=
      h.congr rfl rfl rfl rfl (fun _ => .refl _) h.idle
    exact Except.ends_foldlM (I := fun _ c' => Writing c') (fun m _ c' h' => h'.sendMessage m) hempty

/-! ## Runs -/

theorem Writing.step (h : Writing c) (hd : Dialing c) (e : Event) : Writing (c.step e) := by
  have hpost : ∀ task, Writing (c.post task) := fun task =>
    h.congr rfl rfl rfl rfl (writes_subperm_of_perm (.of_eq (c.io.outstanding_post task))) h.idle
  cases e with
  | connect => exact hpost .connect
  | disconnect => exact hpost (.disconnect none)
  | openDocument d => exact hpost (.openDocument d)
  | notifyOutgoing => exact hpost .processOutgoing
  | queue m => exact h.congr rfl rfl rfl rfl (fun _ => .refl _) h.idle
  | takeIncoming => exact h.congr rfl rfl rfl rfl (fun _ => .refl _) h.idle
  | finish i success =>
    exact h.congr rfl rfl rfl rfl (writes_subperm_of_perm (c.io.outstanding_finish i success)) h.idle
  | run input =>
    rw [NetworkClient.step]
    cases hr : c.io.ready.head? with
    | none => exact h
    | some handler =>
      dsimp only
      refine Except.Ends.state ?_
      cases handler with
      | completion op success => exact h.complete hd hr input
      | posted task => exact h.taken.runTask hd.taken input task

theorem Writing.pops (h : Writing c) (e : Event) : c.Pops e := by
  rintro input g frame success rfl hr
  refine ⟨fun hg => (h.sole (hg ▸ hr)).1, fun hg => ?_⟩
  rw [NetworkClient.step, hr]
  change (c.taken.complete input (.write g frame) success).state = c.taken
  rw [NetworkClient.complete, if_pos (show g ≠ c.taken.generation from hg)]
  rfl

/-- **The write queue is first in, first out, on every connection**, along every run. -/
theorem fifo_along (clientId : Str) (es : List Event) :
    Along step (fun c e => (c.step e).Fifo ∧ c.Pops e) (start clientId) es :=
  have hstep : ∀ (c : NetworkClient) (e : Event), Writing c ∧ Dialing c →
      ((c.step e).Fifo ∧ c.Pops e) ∧ Writing (c.step e) ∧ Dialing (c.step e) := fun _ e h =>
    ⟨⟨(h.1.step h.2 e).fifo, h.1.pops e⟩, h.1.step h.2 e, h.2.step e⟩
  Along.of_step hstep ⟨writing_start clientId, dialing_start clientId⟩

end NetworkClient

end CrdtEditor
