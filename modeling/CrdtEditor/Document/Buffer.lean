import CrdtEditor.Document.Tree
import CrdtEditor.Foundations.Run

/-!
# Document/Buffer — operations that wait for their parent

An insert whose parent is missing is filed under that parent, and `applyInsert` empties the bucket
of every element it adds.  While it does, the operations of the emptied buckets are *in hand*:
`Holding d W` is the invariant of a document whose drain still has `W` to apply, and
`applyInsert_drain` is the induction on a drain, for any further invariant `I`.

The code erases an id from `bufferedInsertIds` when an insert with that id goes in directly, but
leaves the operation itself in its bucket (`Supersedes`).  Apart from that step the buffer stays
sound and nothing throws: `accepts_of_not_supersedes`, and `throws_after_supersedes` for the step
itself.
-/

namespace CrdtEditor.Document

/-- One call of `apply`, seen by a caller who goes on after an exception. -/
def step (d : Document) (op : Operation) : Document := (d.apply op).state

/-- The operations waiting for an element. -/
def waiting (d : Document) (id : ElementID) : List InsertOperation :=
  UMap.bucket d.bufferedInserts id

/-- An operation waits under its own parent. -/
def Filed (d : Document) : Prop :=
  ∀ p ops, AList.lookup p d.bufferedInserts = some ops → ∀ op ∈ ops, op.parent = p

theorem Filed.waiting {d : Document} (h : d.Filed) {p : ElementID} {op : InsertOperation}
    (hop : op ∈ d.waiting p) : op.parent = p := by
  obtain ⟨ops, hl, hop⟩ := UMap.mem_bucket.mp hop
  exact h p ops hl op hop

theorem Filed.buffer {d : Document} (h : d.Filed) (oper : InsertOperation) : (d.buffer oper).Filed := by
  rw [Document.buffer]
  split_ifs
  · exact h
  · intro p ops hp op hop
    change AList.lookup p (AList.insert oper.parent _ d.bufferedInserts) = some ops at hp
    rw [UMap.lookup_insert] at hp
    split_ifs at hp with hpp
    · obtain rfl := Option.some.inj hp
      obtain hop | hop := List.mem_append.mp hop
      · rw [h.waiting (p := oper.parent) hop, hpp]
      · rw [List.mem_singleton.mp hop, hpp]
    · exact h p ops hp op hop

theorem Filed.release {d : Document} (h : d.Filed) (id : ElementID) : (d.release id).Filed := by
  intro p ops hp
  change AList.lookup p (AList.erase id d.bufferedInserts) = some ops at hp
  rw [UMap.lookup_erase] at hp
  split_ifs at hp
  exact h p ops hp

/-- **The buffer invariant**: filed under the own parent, which is absent; no buffered id is
present or buffered twice; `bufferedInsertIds` are the buffered ids. -/
structure BufferSound (d : Document) : Prop where
  filed : ∀ p ops, AList.lookup p d.bufferedInserts = some ops → ∀ op ∈ ops, op.parent = p
  parent_absent : ∀ p ∈ d.bufferedInserts, p ∉ d.elements
  ident_absent : ∀ op ∈ UMap.contents d.bufferedInserts, op.ident ∉ d.elements
  nodup : ((UMap.contents d.bufferedInserts).map InsertOperation.ident).Nodup
  mem_ids : ∀ x, x ∈ d.bufferedInsertIds ↔
    ∃ op ∈ UMap.contents d.bufferedInserts, op.ident = x

/-- The buffer invariant in the middle of a drain that still has `W` in hand.  The ids of `W` may
already be gone from `bufferedInsertIds`: the first operation of a drain never was in it. -/
structure Holding (d : Document) (W : List InsertOperation) : Prop where
  filed : ∀ p ops, AList.lookup p d.bufferedInserts = some ops → ∀ op ∈ ops, op.parent = p
  parent_absent : ∀ p ∈ d.bufferedInserts, p ∉ d.elements
  parent_present : ∀ op ∈ W, op.parent ∈ d.elements
  ident_absent : ∀ op ∈ UMap.contents d.bufferedInserts + W, op.ident ∉ d.elements
  nodup : ((UMap.contents d.bufferedInserts + W).map InsertOperation.ident).Nodup
  ids_sub : ∀ x ∈ d.bufferedInsertIds, ∃ op ∈ UMap.contents d.bufferedInserts + W, op.ident = x
  ids_sup : ∀ op ∈ UMap.contents d.bufferedInserts, op.ident ∈ d.bufferedInsertIds

theorem holding_nil {d : Document} : d.Holding [] ↔ d.BufferSound := by
  constructor
  · intro h
    exact
      { filed := h.filed
        parent_absent := h.parent_absent
        ident_absent := fun op hop => h.ident_absent op (by simpa using hop)
        nodup := by simpa using h.nodup
        mem_ids := fun x => ⟨fun hx => by simpa using h.ids_sub x hx, by
          rintro ⟨op, hop, rfl⟩
          exact h.ids_sup op hop⟩ }
  · intro h
    exact
      { filed := h.filed
        parent_absent := h.parent_absent
        parent_present := by simp
        ident_absent := fun op hop => h.ident_absent op (by simpa using hop)
        nodup := by simpa using h.nodup
        ids_sub := fun x hx => by simpa using (h.mem_ids x).mp hx
        ids_sup := fun op hop => (h.mem_ids _).mpr ⟨op, hop, rfl⟩ }

/-- Nothing is released where nothing waits. -/
theorem release_of_lookup_none {d : Document} {id : ElementID}
    (h : AList.lookup id d.bufferedInserts = none) : d.release id = d := by
  have he : AList.erase id d.bufferedInserts = d.bufferedInserts :=
    AList.ext (List.kerase_of_notMem_keys (AList.lookup_eq_none.mp h))
  rw [release, he]

/-- Taking a bucket in hand moves its operations, and loses none. -/
theorem contents_add_cons (d : Document) (op : InsertOperation) (W : List InsertOperation) :
    UMap.contents d.bufferedInserts + (op :: W : List InsertOperation) =
      op ::ₘ (UMap.contents (AList.erase op.ident d.bufferedInserts) +
        (d.waiting op.ident ++ W : List InsertOperation)) := by
  have hcontents : UMap.contents d.bufferedInserts =
      (d.waiting op.ident : Multiset InsertOperation) +
        UMap.contents (AList.erase op.ident d.bufferedInserts) :=
    UMap.contents_erase _ _
  rw [hcontents, ← Multiset.coe_add, ← Multiset.cons_coe, Multiset.add_cons]
  congr 1
  abel

/-- **One step of a drain**: the first operation in hand is attached and the operations waiting for
it come into hand. -/
theorem Holding.attach {d : Document} {op : InsertOperation} {W : List InsertOperation}
    (h : d.Holding (op :: W)) :
    ((d.attach op).release op.ident).Holding (d.waiting op.ident ++ W) := by
  have hsplit := contents_add_cons d op W
  have hnodup := h.nodup
  rw [hsplit, Multiset.map_cons, Multiset.nodup_cons] at hnodup
  have hrest : ∀ x ∈ UMap.contents (AList.erase op.ident d.bufferedInserts) +
      (d.waiting op.ident ++ W : List InsertOperation), x.ident ≠ op.ident := fun x hx he =>
    hnodup.1 (Multiset.mem_map.mpr ⟨x, hx, he⟩)
  have hfiled : d.Filed := h.filed
  refine
    { filed := hfiled.release op.ident
      parent_absent := fun p hp => ?_
      parent_present := fun x hx => ?_
      ident_absent := fun x hx => ?_
      nodup := hnodup.2
      ids_sub := fun x hx => ?_
      ids_sup := fun x hx => ?_ }
  · have hp' := AList.mem_erase.mp (show p ∈ AList.erase op.ident d.bufferedInserts from hp)
    rw [release_elements, mem_attach_elements]
    rintro (he | hm)
    · exact hp'.1 he
    · exact h.parent_absent p hp'.2 hm
  · rw [release_elements, mem_attach_elements]
    rcases List.mem_append.mp hx with hx | hx
    · exact Or.inl (hfiled.waiting hx)
    · exact Or.inr (h.parent_present x (List.mem_cons_of_mem _ hx))
  · rw [release_elements, mem_attach_elements]
    rintro (he | hm)
    · exact hrest x hx he
    · exact h.ident_absent x (hsplit ▸ Multiset.mem_cons_of_mem hx) hm
  · obtain ⟨hne, hx⟩ := Finset.mem_erase.mp hx
    obtain ⟨y, hy, rfl⟩ := h.ids_sub x hx
    rw [hsplit, Multiset.mem_cons] at hy
    rcases hy with rfl | hy
    · exact absurd rfl hne
    · exact ⟨y, hy, rfl⟩
  · refine Finset.mem_erase.mpr ⟨hrest x (Multiset.mem_add.mpr (Or.inl hx)), h.ids_sup x ?_⟩
    rw [UMap.contents_erase d.bufferedInserts op.ident]
    exact Multiset.mem_add.mpr (Or.inr hx)

theorem bufferedCount_release (d : Document) (op : InsertOperation) :
    ((d.attach op).release op.ident).bufferedCount + (d.waiting op.ident).length =
      d.bufferedCount := by
  rw [bufferedCount, bufferedCount, UMap.contents_erase d.bufferedInserts op.ident,
    Multiset.card_add, Multiset.coe_card, add_comm]
  rfl

/-- A sound buffer passes the closing check, whatever is still in hand. -/
theorem Holding.checkBuffer_eq_ok {d : Document} {W : List InsertOperation} (h : d.Holding W) :
    d.checkBuffer = .ok () := by
  refine Except.forM_eq_ok fun e he => ?_
  have hl : AList.lookup e.1 d.bufferedInserts = some e.2 := UMap.mem_entries.mp he
  rw [checkBucket, if_neg (h.parent_absent e.1 (UMap.mem_of_lookup hl))]
  refine Except.forM_eq_ok fun op hop => ?_
  have hident : op.ident ∉ d.elements :=
    h.ident_absent op (Multiset.mem_add.mpr (Or.inl (UMap.mem_contents.mpr ⟨_, _, hl, hop⟩)))
  rw [if_neg (not_not.mpr (h.filed _ _ hl op hop)), if_neg hident]

/-- **Induction on a drain**: with operations in hand, `applyInsert` attaches the first and drains
its bucket, so an invariant kept by one attachment is kept by the whole call, which returns. -/
theorem applyInsert_drain {I : Document → List InsertOperation → Prop}
    (hI : ∀ d op W, d.Holding (op :: W) → I d (op :: W) →
      I ((d.attach op).release op.ident) (d.waiting op.ident ++ W)) :
    ∀ (fuel : ℕ) (d : Document) (op : InsertOperation) (W : List InsertOperation),
      d.Holding (op :: W) → I d (op :: W) → d.bufferedCount < fuel →
      ∃ d', applyInsert fuel d op = .ok d' ∧ d'.Holding W ∧ I d' W ∧
        d'.bufferedCount ≤ d.bufferedCount := by
  intro fuel
  induction fuel with
  | zero => exact fun d op W _ _ hf => absurd hf (Nat.not_lt_zero _)
  | succ fuel ih =>
    -- the loop over a bucket, each turn by the induction hypothesis on fuel
    have hloop : ∀ (ops : List InsertOperation) (d : Document) (W : List InsertOperation),
        d.Holding (ops ++ W) → I d (ops ++ W) → (ops ≠ [] → d.bufferedCount < fuel) →
        ∃ d', ops.foldlM (applyInsert fuel) d = .ok d' ∧ d'.Holding W ∧ I d' W ∧
          d'.bufferedCount ≤ d.bufferedCount := by
      intro ops
      induction ops with
      | nil => exact fun d W h hi _ => ⟨d, rfl, h, hi, le_rfl⟩
      | cons op ops ihops =>
        intro d W h hi hf
        obtain ⟨d', hd', hh', hi', hc'⟩ := ih d op (ops ++ W) h hi (hf (by simp))
        obtain ⟨d'', hd'', hh'', hi'', hc''⟩ :=
          ihops d' W hh' hi' fun _ => hc'.trans_lt (hf (by simp))
        refine ⟨d'', ?_, hh'', hi'', hc''.trans hc'⟩
        rw [List.foldlM_cons, hd']
        exact hd''
    intro d op W h hi hf
    have hident : op.ident ∉ d.elements := h.ident_absent op (by simp)
    have hparent : op.parent ∈ d.elements := h.parent_present op (by simp)
    have hcount := bufferedCount_release d op
    rw [applyInsert, if_neg hident, if_neg (not_not.mpr hparent)]
    simp only [attach_bufferedInserts]
    cases hl : AList.lookup op.ident d.bufferedInserts with
    | none =>
      have hrel : (d.attach op).release op.ident = d.attach op := release_of_lookup_none hl
      have hwait : d.waiting op.ident = [] := by rw [waiting, UMap.bucket, hl, Option.getD_none]
      have h' := h.attach
      have hi' := hI d op W h hi
      rw [hrel, hwait, List.nil_append] at h' hi'
      exact ⟨d.attach op, rfl, h', hi', le_rfl⟩
    | some ops =>
      have hwait : d.waiting op.ident = ops := by rw [waiting, UMap.bucket, hl, Option.getD_some]
      have h' := h.attach
      have hi' := hI d op W h hi
      rw [hwait] at h' hi' hcount
      have hlen : ops ≠ [] → ((d.attach op).release op.ident).bufferedCount < fuel := fun hne => by
        have := List.length_pos_iff.mpr hne
        omega
      obtain ⟨d'', hd'', hh'', hi'', hc''⟩ := hloop ops _ W h' hi' hlen
      refine ⟨d'', ?_, hh'', hi'', by omega⟩
      simp only [hd'', bind, Except.bind, hh''.checkBuffer_eq_ok]

/-! ## One operation on a sound buffer -/

/-- An insert that goes in directly while an operation with its id is still in the buffer, under
another parent.  Only the id is taken out of the buffer, not the operation. -/
def Supersedes (d : Document) : Operation → Prop
  | .insert oper =>
    oper.ident ∉ d.elements ∧ oper.parent ∈ d.elements ∧ oper.ident ∈ d.bufferedInsertIds
  | .remove _ => False

instance (d : Document) : ∀ op : Operation, Decidable (d.Supersedes op)
  | .insert oper => inferInstanceAs (Decidable (oper.ident ∉ d.elements ∧
      oper.parent ∈ d.elements ∧ oper.ident ∈ d.bufferedInsertIds))
  | .remove _ => inferInstanceAs (Decidable False)

/-- Holding back an operation with a missing parent. -/
theorem BufferSound.buffer {d : Document} (h : d.BufferSound) {oper : InsertOperation}
    (hident : oper.ident ∉ d.elements) (hparent : oper.parent ∉ d.elements) :
    (d.buffer oper).BufferSound := by
  by_cases hid : oper.ident ∈ d.bufferedInsertIds
  · rwa [Document.buffer, if_pos hid]
  have hcontents : UMap.contents (UMap.push d.bufferedInserts oper.parent oper) =
      oper ::ₘ UMap.contents d.bufferedInserts := UMap.contents_push _ _ _
  have hnew : ∀ op ∈ UMap.contents d.bufferedInserts, op.ident ≠ oper.ident := fun op hop he =>
    hid ((h.mem_ids _).mpr ⟨op, hop, he⟩)
  have hfiled : (d.buffer oper).Filed := Filed.buffer h.filed oper
  rw [Document.buffer, if_neg hid] at hfiled ⊢
  refine
    { filed := hfiled
      parent_absent := fun p hp => ?_
      ident_absent := fun op hop => ?_
      nodup := ?_
      mem_ids := fun x => ?_ }
  · rcases (AList.mem_insert d.bufferedInserts).mp hp with rfl | hp
    · exact hparent
    · exact h.parent_absent p hp
  · rw [hcontents, Multiset.mem_cons] at hop
    rcases hop with rfl | hop
    · exact hident
    · exact h.ident_absent op hop
  · rw [hcontents, Multiset.map_cons, Multiset.nodup_cons]
    refine ⟨fun hm => ?_, h.nodup⟩
    obtain ⟨op, hop, he⟩ := Multiset.mem_map.mp hm
    exact hnew op hop he
  · simp only [hcontents, Finset.mem_insert, Multiset.mem_cons, h.mem_ids]
    constructor
    · rintro (rfl | ⟨op, hop, he⟩)
      exacts [⟨oper, Or.inl rfl, rfl⟩, ⟨op, Or.inr hop, he⟩]
    · rintro ⟨op, rfl | hop, he⟩
      exacts [Or.inl he.symm, Or.inr ⟨op, hop, he⟩]

theorem BufferSound.applyDelete {d : Document} (h : d.BufferSound) (oper : RemoveOperation) :
    (d.applyDelete oper).BufferSound where
  filed := by rw [applyDelete_bufferedInserts]; exact h.filed
  parent_absent p hp := by
    rw [mem_applyDelete_elements]
    exact h.parent_absent p (by rwa [applyDelete_bufferedInserts] at hp)
  ident_absent op hop := by
    rw [mem_applyDelete_elements]
    exact h.ident_absent op (by rwa [applyDelete_bufferedInserts] at hop)
  nodup := by rw [applyDelete_bufferedInserts]; exact h.nodup
  mem_ids := by rw [applyDelete_bufferedInserts, applyDelete_bufferedInsertIds]; exact h.mem_ids

/-- What is buffered misses its parent. -/
theorem BufferSound.parent_absent_of_mem {d : Document} (h : d.BufferSound) {op : InsertOperation}
    (hop : op ∈ UMap.contents d.bufferedInserts) : op.parent ∉ d.elements := by
  obtain ⟨p, ops, hl, hmem⟩ := UMap.mem_contents.mp hop
  rw [h.filed p ops hl op hmem]
  exact h.parent_absent p (UMap.mem_of_lookup hl)

/-- A fresh operation below a present parent starts a drain. -/
theorem BufferSound.holding_singleton {d : Document} (h : d.BufferSound) {oper : InsertOperation}
    (hident : oper.ident ∉ d.elements) (hparent : oper.parent ∈ d.elements)
    (hids : oper.ident ∉ d.bufferedInsertIds) : d.Holding [oper] where
  filed := h.filed
  parent_absent := h.parent_absent
  parent_present op hop := by rwa [List.mem_singleton.mp hop]
  ident_absent op hop := by
    rcases Multiset.mem_add.mp hop with hop | hop
    · exact h.ident_absent op hop
    · rwa [List.mem_singleton.mp (Multiset.mem_coe.mp hop)]
  nodup := by
    rw [Multiset.coe_singleton, add_comm, Multiset.singleton_add, Multiset.map_cons,
      Multiset.nodup_cons]
    refine ⟨fun hm => ?_, h.nodup⟩
    obtain ⟨op, hop, he⟩ := Multiset.mem_map.mp hm
    exact hids ((h.mem_ids _).mpr ⟨op, hop, he⟩)
  ids_sub x hx := by
    obtain ⟨op, hop, he⟩ := (h.mem_ids x).mp hx
    exact ⟨op, Multiset.mem_add.mpr (Or.inl hop), he⟩
  ids_sup op hop := (h.mem_ids _).mpr ⟨op, hop, rfl⟩

/-- **An operation that supersedes nothing returns and leaves a sound buffer.** -/
theorem BufferSound.apply {d : Document} (h : d.BufferSound) {op : Operation}
    (hs : ¬ d.Supersedes op) : ∃ d', d.apply op = .ok d' ∧ d'.BufferSound := by
  cases op with
  | remove oper => exact ⟨_, rfl, h.applyDelete oper⟩
  | insert oper =>
    by_cases hident : oper.ident ∈ d.elements
    · exact ⟨d, by rw [Document.apply, applyInsert, if_pos hident], h⟩
    by_cases hparent : oper.parent ∈ d.elements
    · have hids : oper.ident ∉ d.bufferedInsertIds := fun hids => hs ⟨hident, hparent, hids⟩
      obtain ⟨d', hd', hh, -⟩ := applyInsert_drain (I := fun _ _ => True)
        (fun _ _ _ _ _ => trivial) (d.bufferedCount + 1) d oper []
        (h.holding_singleton hident hparent hids) trivial (Nat.lt_succ_self _)
      exact ⟨d', hd', holding_nil.mp hh⟩
    · refine ⟨_, ?_, h.buffer hident hparent⟩
      rw [Document.apply, applyInsert, if_neg hident, if_pos hparent]

theorem bufferSound_empty : empty.BufferSound where
  filed p ops hp := by simp [empty] at hp
  parent_absent p hp := by simp [empty] at hp
  ident_absent op hop := by simp [empty] at hop
  nodup := by simp [empty]
  mem_ids x := by simp [empty]

/-- What a caller of `apply` wants of every call: it returns, and the buffer is sound after it. -/
def Accepts (d : Document) (op : Operation) : Prop :=
  (∃ d', d.apply op = .ok d') ∧ (d.step op).BufferSound

theorem BufferSound.accepts {d : Document} (h : d.BufferSound) {op : Operation}
    (hs : ¬ d.Supersedes op) : d.Accepts op ∧ (d.step op).BufferSound := by
  obtain ⟨d', hd', hsound⟩ := h.apply hs
  have hstep : d.step op = d' := by rw [step, hd']; rfl
  exact ⟨⟨⟨d', hd'⟩, hstep ▸ hsound⟩, hstep ▸ hsound⟩

/-- **A stream in which no insert overtakes a buffered one with its id is accepted to the end.** -/
theorem accepts_of_not_supersedes (ops : List Operation)
    (h : Along step (fun d op => ¬ d.Supersedes op) empty ops) : Along step Accepts empty ops :=
  Along.of_invariant (fun _ _ hd hs => hd.accepts hs) bufferSound_empty h

/-- An id that is buffered below a missing element, then inserted below the root; and an element
that arrives after its child, which makes `applyInsert` look at the buffer. -/
def overtakingInserts : List Operation :=
  [.insert ⟨⟨9, str "b"⟩, ⟨1, str "a"⟩, 65⟩, .insert ⟨rootId, ⟨1, str "a"⟩, 66⟩,
    .insert ⟨⟨2, str "a"⟩, ⟨3, str "a"⟩, 67⟩, .insert ⟨rootId, ⟨2, str "a"⟩, 68⟩]

/-- A child before its parent, and then the parent: the buffer fills and empties. -/
theorem accepts_child_first :
    Along step Accepts empty
      [.insert ⟨⟨2, str "a"⟩, ⟨3, str "a"⟩, 67⟩, .insert ⟨rootId, ⟨2, str "a"⟩, 68⟩] :=
  accepts_of_not_supersedes _ (by decide)

/-- **A conflict planted by two operations fires on an unrelated insert.** -/
theorem throws_after_supersedes : ¬ Along step Accepts empty overtakingInserts := by
  have hthrow : ∃ d, (after (overtakingInserts.take 3)).apply
      (.insert ⟨rootId, ⟨2, str "a"⟩, 68⟩) =
        .error (.runtimeError (str "Operation is both buffered and already inserted"), d) :=
    ⟨_, rfl⟩
  obtain ⟨d, hd⟩ := hthrow
  rintro ⟨-, -, -, ⟨⟨d', hd'⟩, -⟩, -⟩
  exact absurd (hd.symm.trans hd') (by simp)

end CrdtEditor.Document
