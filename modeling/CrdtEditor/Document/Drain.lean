import CrdtEditor.Document.Buffer

/-!
# Document/Drain — the calls that one insert makes

`applyInsert` re-enters itself for each operation of the buckets it empties.  `applyInsertCalls` is
`applyInsert` with the operations it is called for, in order.

`BufferSound` may be lost for good (`Supersedes`); what every stream of operations keeps, exceptions or
not, is that an operation is filed under its own parent (`Filed`).  That is enough: the parent of a
released operation is present, so nothing that is drained is filed again, and the calls are operations
that were in the buffer and are not any more: `drains_once`.
-/

namespace CrdtEditor.Document

/-- Calls for a list of operations, up to the first that throws, and what they leave. -/
def inTurn (f : Document → InsertOperation → List InsertOperation × Outcome) :
    Document → List InsertOperation → List InsertOperation × Outcome
  | d, [] => ([], .ok d)
  | d, op :: ops =>
    match (f d op).2 with
    | .error e => ((f d op).1, .error e)
    | .ok d' => ((f d op).1 ++ (inTurn f d' ops).1, (inTurn f d' ops).2)

/-- The end of a call that emptied a bucket. -/
def closing (d : Document) : Outcome :=
  match d.checkBuffer with
  | .ok () => .ok d
  | .error e => .error (e, d)

/-- `applyInsert`, with the operations that it and the calls it makes are called for. -/
def applyInsertCalls : ℕ → Document → InsertOperation → List InsertOperation × Outcome
  | 0, d, oper => ([oper], .error (.outOfFuel, d))
  | fuel + 1, d, oper =>
    if oper.ident ∈ d.elements then ([oper], .ok d)
    else if oper.parent ∉ d.elements then ([oper], .ok (d.buffer oper))
    else
      match AList.lookup oper.ident (d.attach oper).bufferedInserts with
      | none => ([oper], .ok (d.attach oper))
      | some waiting =>
        let r := inTurn (applyInsertCalls fuel) ((d.attach oper).release oper.ident) waiting
        (oper :: r.1, r.2 >>= closing)

theorem snd_inTurn (f : Document → InsertOperation → List InsertOperation × Outcome) :
    ∀ (d : Document) (ops : List InsertOperation),
      (inTurn f d ops).2 = ops.foldlM (fun d op => (f d op).2) d
  | _, [] => rfl
  | d, op :: ops => by
      rw [inTurn, List.foldlM_cons]
      cases h : (f d op).2 with
      | error e => rfl
      | ok d' => exact snd_inTurn f d' ops

/-- The calls are those of `applyInsert`: without them it is the same function. -/
theorem snd_applyInsertCalls : ∀ (fuel : ℕ) (d : Document) (oper : InsertOperation),
    (applyInsertCalls fuel d oper).2 = applyInsert fuel d oper
  | 0, _, _ => rfl
  | fuel + 1, d, oper => by
      have hf : (fun d op => (applyInsertCalls fuel d op).2) = applyInsert fuel := by
        funext d op
        exact snd_applyInsertCalls fuel d op
      rw [applyInsertCalls, applyInsert]
      split_ifs with hident hparent
      · rfl
      · dsimp only
        cases AList.lookup oper.ident (d.attach oper).bufferedInserts with
        | none => rfl
        | some waiting =>
          dsimp only
          rw [snd_inTurn, hf]
          rfl
      · rfl

/-! ## Fuel -/

/-- The recursion did not run out of fuel. -/
def Returns (r : Outcome) : Prop := ∀ d, r ≠ .error (.outOfFuel, d)

theorem inTurn_congr {f g : Document → InsertOperation → List InsertOperation × Outcome}
    (h : ∀ d op, Returns (f d op).2 → g d op = f d op) :
    ∀ (ops : List InsertOperation) (d : Document), Returns (inTurn f d ops).2 →
      inTurn g d ops = inTurn f d ops
  | [], _, _ => rfl
  | op :: ops, d, hr => by
      rw [inTurn] at hr
      cases hf : (f d op).2 with
      | error e =>
        rw [hf] at hr
        rw [inTurn, inTurn, h d op (hf ▸ hr)]
        simp only [hf]
      | ok d' =>
        rw [hf] at hr
        have hop : g d op = f d op := h d op fun x hx => by
          rw [hf] at hx
          cases hx
        rw [inTurn, inTurn, hop]
        simp only [hf, inTurn_congr h ops d' hr]

/-- A call that returned does the same with more fuel. -/
theorem applyInsertCalls_succ : ∀ (fuel : ℕ) (d : Document) (oper : InsertOperation),
    Returns (applyInsertCalls fuel d oper).2 →
      applyInsertCalls (fuel + 1) d oper = applyInsertCalls fuel d oper
  | 0, d, _, hr => absurd rfl (hr d)
  | fuel + 1, d, oper, hr => by
      rw [applyInsertCalls] at hr
      rw [applyInsertCalls, applyInsertCalls]
      split_ifs at hr ⊢
      · rfl
      · cases hl : AList.lookup oper.ident (d.attach oper).bufferedInserts with
        | none => rfl
        | some waiting =>
          rw [hl] at hr
          have hreturns : Returns (inTurn (applyInsertCalls fuel)
              ((d.attach oper).release oper.ident) waiting).2 := by
            intro d' hd'
            refine hr d' ?_
            change (inTurn (applyInsertCalls fuel) _ waiting).2 >>= closing = _
            rw [hd']
            rfl
          simp only [inTurn_congr (applyInsertCalls_succ fuel) waiting _ hreturns]
      · rfl

theorem applyInsertCalls_of_le {d : Document} {oper : InsertOperation} {fuel fuel' : ℕ}
    (h : fuel ≤ fuel') (hr : Returns (applyInsertCalls fuel d oper).2) :
    applyInsertCalls fuel' d oper = applyInsertCalls fuel d oper := by
  induction fuel', h using Nat.le_induction with
  | base => rfl
  | succ n _ ih => rw [applyInsertCalls_succ n d oper (ih ▸ hr), ih]

/-! ## Where operations are filed -/

theorem filed_after (ops : List Operation) : (after ops).Filed := by
  have hempty : empty.Filed := fun p ops hp => by simp [empty] at hp
  induction ops using List.reverseRecOn with
  | nil => exact hempty
  | append_singleton ops op ih =>
    rw [after_append_singleton]
    have hstep : (after ops).Filed → ((after ops).apply op).state.Filed :=
      apply_induct (P := fun d d' => d.Filed → d'.Filed) (fun _ h => h) (fun hab hbc h => hbc (hab h))
        (fun d oper h => h.buffer oper) (fun d oper _ _ h => h) (fun d id h => h.release id)
        (fun d oper h => by rwa [Filed, applyDelete_bufferedInserts]) (after ops) op
    exact hstep ih

/-! ## What a drain does to the buffer -/

/-- The document `d` and what a drain makes of it: elements are only added, buckets only taken out, and
an element that was added has no bucket. -/
structure Drains (d d' : Document) : Prop where
  filed : d.Filed → d'.Filed
  mem : ∀ x ∈ d.elements, x ∈ d'.elements
  buckets : ∀ p ∈ d'.bufferedInserts, p ∈ d.bufferedInserts
  fresh : ∀ p ∈ d'.elements, p ∉ d.elements → p ∉ d'.bufferedInserts

theorem Drains.refl (d : Document) : d.Drains d :=
  ⟨id, fun _ hx => hx, fun _ hp => hp, fun _ hp hn => absurd hp hn⟩

theorem Drains.trans {d d' d'' : Document} (h : d.Drains d') (h' : d'.Drains d'') :
    d.Drains d'' where
  filed := h'.filed ∘ h.filed
  mem x hx := h'.mem x (h.mem x hx)
  buckets p hp := h.buckets p (h'.buckets p hp)
  fresh p hp hn := by
    by_cases hmem : p ∈ d'.elements
    · exact fun hbucket => h.fresh p hmem hn (h'.buckets p hbucket)
    · exact h'.fresh p hp hmem

theorem drains_attach (d : Document) (oper : InsertOperation) :
    d.Drains ((d.attach oper).release oper.ident) where
  filed h := Filed.release (d := d.attach oper) h oper.ident
  mem x hx := by
    rw [release_elements, mem_attach_elements]
    exact .inr hx
  buckets p hp := (AList.mem_erase.mp (show p ∈ AList.erase oper.ident d.bufferedInserts from hp)).2
  fresh p hp hn hbucket := by
    rw [release_elements, mem_attach_elements] at hp
    have hne := (AList.mem_erase.mp
      (show p ∈ AList.erase oper.ident d.bufferedInserts from hbucket)).1
    exact hp.elim hne hn

/-- What `calls`, made with `held` out of the buffer, leave of `d`: they were held or buffered, and what
is buffered then is the rest. -/
structure Drained (d : Document) (held : List InsertOperation)
    (r : List InsertOperation × Outcome) : Prop where
  drains : d.Drains (Except.state r.2)
  account : (r.1 : Multiset InsertOperation) + UMap.contents (Except.state r.2).bufferedInserts ≤
    held + UMap.contents d.bufferedInserts
  returns : Returns r.2

/-- The closing check keeps the document, and is no loop. -/
theorem state_closing (d : Document) : Except.state d.closing = d := by
  rw [closing]
  cases d.checkBuffer with
  | ok u => rfl
  | error e => rfl

theorem checkBuffer_ne_outOfFuel (d : Document) : d.checkBuffer ≠ .error .outOfFuel := by
  intro h
  obtain ⟨⟨p, ops⟩, -, hbucket⟩ := Except.of_forM_eq_error h
  rw [checkBucket] at hbucket
  split_ifs at hbucket
  · cases hbucket
  · obtain ⟨op, -, hop⟩ := Except.of_forM_eq_error hbucket
    split_ifs at hop <;> cases hop

theorem returns_closing (d : Document) : Returns d.closing := by
  intro d'
  have hcheck := d.checkBuffer_ne_outOfFuel
  rw [closing]
  cases h : d.checkBuffer with
  | ok u => exact fun hr => by cases hr
  | error e =>
    rintro ⟨rfl, rfl⟩
    exact hcheck h

namespace Drained

variable {d : Document} {held : List InsertOperation}

/-- A call that finds its element present. -/
theorem present (d : Document) (oper : InsertOperation) : d.Drained [oper] ([oper], .ok d) :=
  ⟨.refl d, le_rfl, fun _ hr => by cases hr⟩

/-- What the calls leave in the buffer is no more than there was. -/
theorem bufferedCount_le {op : InsertOperation} {calls : List InsertOperation} {r : Outcome}
    (h : d.Drained [op] (op :: calls, r)) : (Except.state r).bufferedCount ≤ d.bufferedCount := by
  have hcard := Multiset.card_le_card h.account
  simp only [Multiset.card_add, Multiset.coe_card, List.length_cons, List.length_nil] at hcard
  rw [bufferedCount, bufferedCount]
  omega

/-- The calls for a list of held operations, one after the other. -/
theorem inTurn {f : Document → InsertOperation → List InsertOperation × Outcome} {n : ℕ}
    (hf : ∀ d op, d.Filed → op.parent ∈ d.elements → d.bufferedCount ≤ n →
      ∃ calls, (f d op).1 = op :: calls ∧ d.Drained [op] (f d op)) :
    ∀ (ops : List InsertOperation) (d : Document), d.Filed → (∀ op ∈ ops, op.parent ∈ d.elements) →
      d.bufferedCount ≤ n → d.Drained ops (Document.inTurn f d ops)
  | [], d, _, _, _ => ⟨.refl d, le_rfl, fun _ hr => by cases hr⟩
  | op :: ops, d, hfiled, hparent, hn => by
      obtain ⟨calls, hcalls, hop⟩ := hf d op hfiled (hparent op List.mem_cons_self) hn
      have hsplit : ((op :: ops : List InsertOperation) : Multiset InsertOperation)
          = (ops : Multiset InsertOperation) + ([op] : List InsertOperation) := by
        rw [Multiset.coe_add, Multiset.coe_eq_coe]
        exact (List.perm_append_singleton op ops).symm
      cases hr : (f d op).2 with
      | error e =>
        have hstop : Document.inTurn f d (op :: ops) = f d op := by
          rw [Document.inTurn, hr]
          exact Prod.ext rfl hr.symm
        rw [hstop]
        refine ⟨hop.drains, hop.account.trans ?_, hop.returns⟩
        rw [hsplit, add_assoc]
        exact Multiset.le_add_left _ _
      | ok d' =>
        have hnext : Document.inTurn f d (op :: ops)
            = ((f d op).1 ++ (Document.inTurn f d' ops).1, (Document.inTurn f d' ops).2) := by
          rw [Document.inTurn, hr]
        have hstate : Except.state (f d op).2 = d' := by rw [hr, Except.state]
        have hdrains := hop.drains
        have haccount := hop.account
        rw [hstate] at hdrains haccount
        have hcount : d'.bufferedCount ≤ n := by
          have hpair : d.Drained [op] (op :: calls, .ok d') := by rwa [← hcalls, ← hr]
          exact hpair.bufferedCount_le.trans hn
        have hrest : d'.Drained ops (Document.inTurn f d' ops) :=
          inTurn hf ops d' (hdrains.filed hfiled)
            (fun x hx => hdrains.mem _ (hparent x (List.mem_cons_of_mem op hx))) hcount
        rw [hnext]
        refine ⟨hdrains.trans hrest.drains, ?_, hrest.returns⟩
        calc (((f d op).1 ++ (Document.inTurn f d' ops).1 : List InsertOperation) :
              Multiset InsertOperation)
              + UMap.contents (Except.state (Document.inTurn f d' ops).2).bufferedInserts
            = (f d op).1 + ((Document.inTurn f d' ops).1
              + UMap.contents (Except.state (Document.inTurn f d' ops).2).bufferedInserts) := by
              rw [← Multiset.coe_add, add_assoc]
          _ ≤ (f d op).1 + (ops + UMap.contents d'.bufferedInserts) :=
              add_le_add le_rfl hrest.account
          _ = ops + ((f d op).1 + UMap.contents d'.bufferedInserts) := add_left_comm _ _ _
          _ ≤ ops + (([op] : List InsertOperation) + UMap.contents d.bufferedInserts) :=
              add_le_add le_rfl haccount
          _ = (op :: ops : List InsertOperation) + UMap.contents d.bufferedInserts := by
              rw [hsplit, add_assoc]

/-- The whole call: its element is attached, what waited for it is in hand, and the calls for that
follow. -/
theorem attach {oper : InsertOperation} {r : List InsertOperation × Outcome}
    (h : ((d.attach oper).release oper.ident).Drained (d.waiting oper.ident) r) :
    d.Drained [oper] (oper :: r.1, r.2 >>= closing) := by
  have hstate : Except.state (r.2 >>= closing) = Except.state r.2 := by
    cases r.2 with
    | error e => rfl
    | ok d' => exact state_closing d'
  refine ⟨?_, ?_, fun d' hd' => ?_⟩
  · rw [hstate]
    exact (drains_attach d oper).trans h.drains
  · have haccount : (r.1 : Multiset InsertOperation)
        + UMap.contents (Except.state r.2).bufferedInserts ≤ UMap.contents d.bufferedInserts :=
      h.account.trans_eq (UMap.contents_erase d.bufferedInserts oper.ident).symm
    rw [hstate, ← Multiset.cons_coe, Multiset.coe_singleton, Multiset.singleton_add,
      Multiset.cons_add]
    exact Multiset.cons_le_cons _ haccount
  · cases hr : r.2 with
    | error e =>
      rw [hr] at hd'
      exact h.returns d' (hr.trans hd')
    | ok d'' =>
      rw [hr] at hd'
      exact returns_closing d'' d' hd'

end Drained

/-- **Induction on a drain, conflicts or not**: a call for an operation whose parent or whose element is
present. -/
theorem drained_applyInsertCalls : ∀ (fuel : ℕ) (d : Document) (oper : InsertOperation), d.Filed →
    (oper.ident ∈ d.elements ∨ oper.parent ∈ d.elements) → d.bufferedCount < fuel →
      ∃ calls, (applyInsertCalls fuel d oper).1 = oper :: calls ∧
        d.Drained [oper] (applyInsertCalls fuel d oper)
  | 0, _, _, _, _, hfuel => absurd hfuel (Nat.not_lt_zero _)
  | fuel + 1, d, oper, hfiled, hgoes, hfuel => by
      rw [applyInsertCalls]
      split_ifs with hident hparent
      · exact ⟨[], rfl, .present d oper⟩
      · dsimp only [attach_bufferedInserts]
        cases hl : AList.lookup oper.ident d.bufferedInserts with
        | none =>
          have hnone : (d.attach oper).release oper.ident = d.attach oper := release_of_lookup_none hl
          have hdrains := drains_attach d oper
          rw [hnone] at hdrains
          exact ⟨[], rfl, hdrains, le_rfl, fun _ hr => by cases hr⟩
        | some ops =>
          have hwait : d.waiting oper.ident = ops := by
            rw [waiting, UMap.bucket, hl, Option.getD_some]
          have hcount := bufferedCount_release d oper
          have hwaits : ∀ op ∈ ops, op.parent ∈ ((d.attach oper).release oper.ident).elements := by
            intro op hop
            rw [hfiled.waiting (hwait.symm ▸ hop), release_elements, mem_attach_elements]
            exact .inl rfl
          refine ⟨_, rfl, Drained.attach ?_⟩
          rw [hwait] at hcount ⊢
          cases ops with
          | nil => exact ⟨.refl _, le_rfl, fun _ hr => by cases hr⟩
          | cons op ops =>
            rw [List.length_cons] at hcount
            refine Drained.inTurn (fun d op hd hp hn => ?_) (op :: ops) _
              ((drains_attach d oper).filed hfiled) hwaits le_rfl
            exact drained_applyInsertCalls fuel d op hd (.inr hp) (by omega)
      · exact absurd hgoes (not_or.mpr ⟨hident, hparent⟩)

/-- An insert is held back, with no other call, or drains. -/
theorem applyInsertCalls_held {d : Document} {oper : InsertOperation} (fuel : ℕ)
    (hident : oper.ident ∉ d.elements) (hparent : oper.parent ∉ d.elements) :
    applyInsertCalls (fuel + 1) d oper = ([oper], .ok (d.buffer oper)) := by
  rw [applyInsertCalls, if_neg hident, if_pos hparent]

/-- **An insert terminates and drains the buffer once**, in every document that a stream of operations
leads to.  The calls it makes are for operations that were in the buffer and are not put back, and what
arrives has nothing waiting for it any more. -/
theorem drains_once (ops : List Operation) (oper : InsertOperation) :
    let d := after ops
    let r := applyInsertCalls (d.bufferedCount + 1) d oper
    r.2 = d.apply (.insert oper) ∧ Returns r.2 ∧
    (∀ fuel, d.bufferedCount < fuel → applyInsertCalls fuel d oper = r) ∧
    r.1.length ≤ 1 + d.bufferedCount ∧
    (∃ calls, r.1 = oper :: calls ∧ (calls ≠ [] →
      calls + UMap.contents (Except.state r.2).bufferedInserts ≤ UMap.contents d.bufferedInserts)) ∧
    ∀ d', r.2 = .ok d' → ∀ p ∈ d'.elements, p ∉ d.elements → p ∉ d'.bufferedInserts := by
  intro d r
  refine ⟨snd_applyInsertCalls _ d oper, ?_⟩
  by_cases hgoes : oper.ident ∈ d.elements ∨ oper.parent ∈ d.elements
  · obtain ⟨calls, hcalls, h⟩ :=
      drained_applyInsertCalls (d.bufferedCount + 1) d oper (filed_after ops) hgoes (Nat.lt_succ_self _)
    have haccount : (calls : Multiset InsertOperation)
        + UMap.contents (Except.state r.2).bufferedInserts ≤ UMap.contents d.bufferedInserts := by
      have := h.account
      rw [hcalls, ← Multiset.cons_coe, Multiset.coe_singleton, Multiset.singleton_add,
        Multiset.cons_add] at this
      exact (Multiset.cons_le_cons_iff oper).mp this
    have hlength : calls.length ≤ d.bufferedCount := by
      have := Multiset.card_le_card ((Multiset.le_add_right _ _).trans haccount)
      rwa [Multiset.coe_card] at this
    refine ⟨h.returns, fun fuel hfuel => applyInsertCalls_of_le hfuel h.returns, ?_,
      ⟨calls, hcalls, fun _ => haccount⟩, fun d' hd' p hp hn => ?_⟩
    · rw [hcalls, List.length_cons]
      omega
    · have hfresh := h.drains.fresh p
      rw [hd'] at hfresh
      exact hfresh hp hn
  · rw [not_or] at hgoes
    have hheld : r = ([oper], .ok (d.buffer oper)) := applyInsertCalls_held _ hgoes.1 hgoes.2
    have hreturns : Returns r.2 := fun _ hr => by
      rw [hheld] at hr
      cases hr
    refine ⟨hreturns, fun fuel hfuel => applyInsertCalls_of_le hfuel hreturns, ?_⟩
    rw [hheld]
    refine ⟨?_, ⟨[], rfl, fun hne => absurd rfl hne⟩,
      fun d' hd' p hp hn => ?_⟩
    · simp
    · obtain rfl := Except.ok.inj hd'
      rw [buffer_elements] at hp
      exact absurd hp hn

end CrdtEditor.Document
