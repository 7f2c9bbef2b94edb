import CrdtEditor.Document.Operation
import CrdtEditor.Foundations.UMap

/-!
# Document/State — the replicated document and its two operations

`src/document.hpp` and the mutating half of `src/document.cpp`.  The hash maps are `UMap`s, the hash
sets `Finset`s, and a call that may throw ends in an `Outcome`: C++ does not undo the mutations made
before a `throw`, so an exception carries the document it leaves behind.

`applyInsert` re-enters itself for every operation that waited for the element it adds.  The
recursion is bounded by the number of buffered operations, which `apply` passes as fuel.
-/

namespace CrdtEditor

/-- `Document`: the elements, the tree as child lists with a parent for each node, and what waits:
removals that came before their element, and inserts under the parent they wait for, with their ids.
-/
structure Document where
  elements : UMap ElementID Character
  bufferedDeletes : Finset ElementID
  bufferedInserts : UMap ElementID (List InsertOperation)
  children : UMap ElementID (List ElementID)
  parentOf : UMap ElementID ElementID
  bufferedInsertIds : Finset ElementID

/-- What a mutating call leaves: a document, or an exception and the document at its `throw`. -/
abbrev Outcome := Except (Exn × Document) Document

namespace Document

/-- `Document::Document`: the root alone, its own parent. -/
def empty : Document where
  elements := AList.insert rootId ⟨0, false⟩ ∅
  bufferedDeletes := ∅
  bufferedInserts := ∅
  children := AList.insert rootId [] ∅
  parentOf := AList.insert rootId rootId ∅
  bufferedInsertIds := ∅

/-- How many operations wait in the buffer. -/
def bufferedCount (d : Document) : ℕ := Multiset.card (UMap.contents d.bufferedInserts)

/-- The siblings below a node, none for a node without an entry. -/
def childrenOf (d : Document) (node : ElementID) : List ElementID := UMap.bucket d.children node

/-- Hold an operation back until its parent arrives, once per id. -/
def buffer (d : Document) (oper : InsertOperation) : Document :=
  if oper.ident ∈ d.bufferedInsertIds then d
  else
    { d with
      bufferedInsertIds := insert oper.ident d.bufferedInsertIds
      bufferedInserts := UMap.push d.bufferedInserts oper.parent oper }

/-- Add an element below a present parent.  The siblings are sorted by descending id; ids are
distinct, so the sort has one result. -/
def attach (d : Document) (oper : InsertOperation) : Document :=
  let alreadyDeleted := decide (oper.ident ∈ d.bufferedDeletes)
  let siblings := d.childrenOf oper.parent ++ [oper.ident]
  { d with
    bufferedDeletes := d.bufferedDeletes.erase oper.ident
    elements := AList.insert oper.ident ⟨oper.ch, alreadyDeleted⟩ d.elements
    bufferedInsertIds := d.bufferedInsertIds.erase oper.ident
    parentOf := UMap.emplace d.parentOf oper.ident oper.parent
    children :=
      AList.insert oper.parent (siblings.insertionSort (· ≥ ·))
        (UMap.emplace (AList.insert oper.parent siblings d.children) oper.ident []) }

/-- Take the operations waiting for an element out of the buffer. -/
def release (d : Document) (id : ElementID) : Document :=
  { d with bufferedInserts := AList.erase id d.bufferedInserts }

/-- One bucket of the closing check of `applyInsert`: it throws on a bucket whose parent is present,
and on an operation filed under a foreign parent or already inserted. -/
def checkBucket (d : Document) (missingParent : ElementID) (operations : List InsertOperation) :
    Except Exn Unit :=
  if missingParent ∈ d.elements then
    .error (.runtimeError (str "Buffered operations exist for a parent that is already present"))
  else
    operations.forM fun oper =>
      if oper.parent ≠ missingParent then
        .error (.runtimeError (str "Buffered operation stored under wrong parent key"))
      else if oper.ident ∈ d.elements then
        .error (.runtimeError (str "Operation is both buffered and already inserted"))
      else .ok ()

/-- The closing check of `applyInsert`, over every bucket still in the buffer. -/
def checkBuffer (d : Document) : Except Exn Unit :=
  d.bufferedInserts.entries.forM fun e => d.checkBucket e.1 e.2

/-- `Document::apply_insert`: a present id is skipped, a missing parent makes the operation wait, and
attaching an element applies what waited for it before the closing check. -/
def applyInsert : ℕ → Document → InsertOperation → Outcome
  | 0, d, _ => .error (.outOfFuel, d)
  | fuel + 1, d, oper =>
    if oper.ident ∈ d.elements then .ok d
    else if oper.parent ∉ d.elements then .ok (d.buffer oper)
    else
      let d' := d.attach oper
      match AList.lookup oper.ident d'.bufferedInserts with
      | none => .ok d'
      | some waiting => do
        let d'' ← waiting.foldlM (applyInsert fuel) (d'.release oper.ident)
        match d''.checkBuffer with
        | .ok () => .ok d''
        | .error e => .error (e, d'')

/-- `Document::apply_delete`: mark the element, or remember the removal for when it comes. -/
def applyDelete (d : Document) (oper : RemoveOperation) : Document :=
  match AList.lookup oper.theTarget d.elements with
  | some c => { d with elements := AList.insert oper.theTarget { c with deleted := true } d.elements }
  | none => { d with bufferedDeletes := insert oper.theTarget d.bufferedDeletes }

/-- `Document::apply`. -/
def apply (d : Document) : Operation → Outcome
  | .insert oper => applyInsert (d.bufferedCount + 1) d oper
  | .remove oper => .ok (d.applyDelete oper)

/-- The document a caller holds after applying `ops` one by one to the empty document, going on
after an exception. -/
def after (ops : List Operation) : Document := ops.foldl (fun d op => (d.apply op).state) empty

/-- One operation more. -/
theorem after_append_singleton (ops : List Operation) (op : Operation) :
    after (ops ++ [op]) = ((after ops).apply op).state := by
  rw [after, List.foldl_append, List.foldl_cons, List.foldl_nil, ← after]

/-! ## What the primitive mutations leave alone -/

section Fields

variable (d : Document) (oper : InsertOperation)

/-- Holding back adds to the buffer and its ids only. -/
@[simp] theorem buffer_elements : (d.buffer oper).elements = d.elements := by
  rw [buffer]; split <;> rfl

@[simp] theorem buffer_children : (d.buffer oper).children = d.children := by
  rw [buffer]; split <;> rfl

@[simp] theorem buffer_parentOf : (d.buffer oper).parentOf = d.parentOf := by
  rw [buffer]; split <;> rfl

@[simp] theorem buffer_bufferedDeletes :
    (d.buffer oper).bufferedDeletes = d.bufferedDeletes := by
  rw [buffer]; split <;> rfl

/-- Taking a bucket out changes the buffer only; its ids go one by one, as `attach` reaches them. -/
@[simp] theorem release_elements (id : ElementID) : (d.release id).elements = d.elements := rfl

@[simp] theorem release_children (id : ElementID) : (d.release id).children = d.children := rfl

@[simp] theorem release_parentOf (id : ElementID) : (d.release id).parentOf = d.parentOf := rfl

@[simp] theorem release_bufferedDeletes (id : ElementID) :
    (d.release id).bufferedDeletes = d.bufferedDeletes := rfl

@[simp] theorem release_bufferedInsertIds (id : ElementID) :
    (d.release id).bufferedInsertIds = d.bufferedInsertIds := rfl

/-- Attaching leaves the buffer to `release`; its own id and its own early removal are used up. -/
@[simp] theorem attach_bufferedInserts :
    (d.attach oper).bufferedInserts = d.bufferedInserts := rfl

@[simp] theorem attach_bufferedInsertIds :
    (d.attach oper).bufferedInsertIds = d.bufferedInsertIds.erase oper.ident := rfl

@[simp] theorem attach_bufferedDeletes :
    (d.attach oper).bufferedDeletes = d.bufferedDeletes.erase oper.ident := rfl

/-- One element more. -/
theorem mem_attach_elements {x : ElementID} :
    x ∈ (d.attach oper).elements ↔ x = oper.ident ∨ x ∈ d.elements :=
  AList.mem_insert _

end Fields

/-! ## Induction over an insert

Whatever `applyInsert` does, thrown or not, it does by the three mutations above: hold back, attach
below a present parent, take a bucket out. -/

/-- **A relation that contains the three mutations contains every `applyInsert`.** -/
theorem applyInsert_induct {P : Document → Document → Prop} (refl : ∀ d, P d d)
    (trans : ∀ {a b c}, P a b → P b c → P a c) (hbuffer : ∀ d oper, P d (d.buffer oper))
    (hattach : ∀ d oper, oper.ident ∉ d.elements → oper.parent ∈ d.elements → P d (d.attach oper))
    (hrelease : ∀ d id, P d (d.release id)) :
    ∀ (fuel : ℕ) (d : Document) (oper : InsertOperation), P d (applyInsert fuel d oper).state := by
  have hfold : ∀ (f : Document → InsertOperation → Outcome), (∀ d oper, P d (f d oper).state) →
      ∀ (ops : List InsertOperation) (d : Document), P d (Except.state (ops.foldlM f d)) := by
    intro f hf ops
    induction ops with
    | nil => exact refl
    | cons oper ops ih =>
      intro d
      have h := hf d oper
      rw [List.foldlM_cons]
      cases hd : f d oper with
      | ok d' =>
        rw [hd] at h
        exact trans h (ih d')
      | error e =>
        rw [hd] at h
        exact h
  intro fuel
  induction fuel with
  | zero => exact fun d _ => refl d
  | succ fuel ih =>
    intro d oper
    rw [applyInsert]
    split
    · exact refl d
    case isFalse hident =>
      split
      · exact hbuffer d oper
      case isFalse hparent =>
        have hat := hattach d oper hident (not_not.mp hparent)
        simp only
        split
        · exact hat
        case _ waiting _ =>
          have hw := trans (trans hat (hrelease _ oper.ident))
            (hfold (applyInsert fuel) ih waiting ((d.attach oper).release oper.ident))
          cases hd : waiting.foldlM (applyInsert fuel) ((d.attach oper).release oper.ident) with
          | error e =>
            rw [hd] at hw
            exact hw
          | ok d'' =>
            rw [hd] at hw
            simp only [bind, Except.bind]
            split <;> exact hw

/-- The same, for any operation and the deletion as a fourth mutation. -/
theorem apply_induct {P : Document → Document → Prop} (refl : ∀ d, P d d)
    (trans : ∀ {a b c}, P a b → P b c → P a c) (hbuffer : ∀ d oper, P d (d.buffer oper))
    (hattach : ∀ d oper, oper.ident ∉ d.elements → oper.parent ∈ d.elements → P d (d.attach oper))
    (hrelease : ∀ d id, P d (d.release id)) (hdelete : ∀ d oper, P d (d.applyDelete oper))
    (d : Document) (op : Operation) : P d (d.apply op).state := by
  cases op with
  | insert oper => exact applyInsert_induct refl trans hbuffer hattach hrelease _ d oper
  | remove oper => exact hdelete d oper

end Document

end CrdtEditor
