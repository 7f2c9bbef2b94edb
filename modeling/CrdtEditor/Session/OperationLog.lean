import CrdtEditor.Foundations.Run
import CrdtEditor.Session.State

/-!
# Session/OperationLog — the log and the set that shadows it

`src/operation_log.cpp`.  `record` looks for the text of an operation in `recorded_operations`, so the
set has to hold the texts of the history and no others.  The constructor from a vector leaves the set
empty and `clear` leaves it as it was; between those two, `record` keeps it: `keepsRecord_iff`.
-/

namespace CrdtEditor

namespace OperationLog

/-- The constructor from a vector. -/
def ofOperations (log : List Operation) : OperationLog := ⟨log, ∅⟩

/-- `OperationLog::clear`, which forgets the operations and not what was recorded. -/
def clear (l : OperationLog) : OperationLog := { l with operationHistory := [] }

/-- The texts of the operations, in order. -/
def toVectorOfSerializedOperations (l : OperationLog) : List Str :=
  l.operationHistory.map Operation.serialize

/-- The texts as a set. -/
def toSet (l : OperationLog) : Finset Str := l.toVectorOfSerializedOperations.toFinset

/-- The calls that change a log. -/
inductive Call
  | record (oper : Operation)
  | clear

def call (l : OperationLog) : Call → OperationLog
  | .record oper => l.record oper
  | .clear => l.clear

/-- The operations that a call appends. -/
def appended (l : OperationLog) : Call → List Operation
  | .record oper => (l.record oper).operationHistory.drop l.operationHistory.length
  | .clear => []

/-- The two constructors. -/
inductive Constructor
  | default
  | ofOperations (log : List Operation)

/-- The operations that a constructor is given. -/
def Constructor.vector : Constructor → List Operation
  | .default => []
  | .ofOperations log => log

/-- What a constructor makes of them. -/
def construct : Constructor → OperationLog
  | .default => empty
  | .ofOperations log => ofOperations log

/-- One call, on a log and the operations that calls have appended to it. -/
def step (c : OperationLog × List Operation) (i : Call) : OperationLog × List Operation :=
  (c.1.call i, c.2 ++ c.1.appended i)

/-! ## What keeps the set in step -/

/-- The set holds the texts of the history, and no text is there twice. -/
structure Shadowed (l : OperationLog) : Prop where
  recorded_eq : l.recordedOperations = l.toSet
  nodup : l.toVectorOfSerializedOperations.Nodup

/-- A new log has recorded nothing. -/
theorem shadowed_empty : Shadowed empty := ⟨rfl, List.nodup_nil⟩

namespace Shadowed

variable {l : OperationLog} {op oper : Operation}

/-- What was recorded is what the history holds, as texts. -/
theorem mem_recorded (h : l.Shadowed) {t : Str} :
    t ∈ l.recordedOperations ↔ ∃ op ∈ l.operationHistory, op.serialize = t := by
  rw [h.recorded_eq, toSet, List.mem_toFinset, toVectorOfSerializedOperations, List.mem_map]

/-- Two operations of the history with one text are one. -/
theorem eq_of_serialize_eq (h : l.Shadowed) (hop : op ∈ l.operationHistory)
    (hoper : oper ∈ l.operationHistory) (heq : op.serialize = oper.serialize) : op = oper :=
  List.inj_on_of_nodup_map h.nodup hop hoper heq

/-- Recording keeps the two in step. -/
theorem record (h : l.Shadowed) (oper : Operation) : (l.record oper).Shadowed := by
  rw [OperationLog.record]
  split_ifs with hrec
  · exact h
  · refine ⟨?_, ?_⟩
    · simp [toSet, toVectorOfSerializedOperations, h.recorded_eq]
    · have hnot : oper.serialize ∉ l.toVectorOfSerializedOperations := by
        rwa [h.recorded_eq, toSet, List.mem_toFinset] at hrec
      simpa [toVectorOfSerializedOperations, List.nodup_append] using
        ⟨h.nodup, fun op hop heq => hnot (List.mem_map.mpr ⟨op, hop, heq⟩)⟩

/-- `clear` keeps the set in step only with a history that is empty anyhow. -/
theorem recorded_clear_iff (h : l.Shadowed) :
    l.clear.recordedOperations = l.clear.toSet ↔ l.operationHistory = [] := by
  have hclear : l.clear.toSet = ∅ := rfl
  rw [hclear, clear, h.recorded_eq, toSet, List.toFinset_eq_empty_iff,
    toVectorOfSerializedOperations, List.map_eq_nil_iff]

/-- An operation passed to `record` is in the history then, unless another one there has its text. -/
theorem mem_record_iff (h : l.Shadowed) :
    oper ∈ (l.record oper).operationHistory ↔
      ∀ op ∈ l.operationHistory, op.serialize = oper.serialize → op = oper := by
  rw [OperationLog.record]
  split_ifs with hrec
  · constructor
    · exact fun hmem op hop heq => h.eq_of_serialize_eq hop hmem heq
    · intro hall
      obtain ⟨op, hop, heq⟩ := h.mem_recorded.mp hrec
      exact hall op hop heq ▸ hop
  · refine iff_of_true (by simp) fun op hop heq => ?_
    exact absurd (h.mem_recorded.mpr ⟨op, hop, heq⟩) hrec

/-- The vector of texts and the set of them are of one size. -/
theorem length_eq_card (h : l.Shadowed) :
    l.toVectorOfSerializedOperations.length = l.toSet.card :=
  (List.toFinset_card_of_nodup h.nodup).symm

/-- Hence no operation stands in the history twice. -/
theorem count_le (h : l.Shadowed) (op : Operation) : l.operationHistory.count op ≤ 1 :=
  List.nodup_iff_count_le_one.mp h.nodup.of_map op

end Shadowed

/-! ## The record -/

/-- The log as a record, if it was made from `initial` and calls have appended `c.2` to it. -/
structure IsRecord (initial : List Operation) (c : OperationLog × List Operation) : Prop where
  recorded_eq : c.1.recordedOperations = c.1.toSet
  count_le : ∀ op ∈ c.2, c.1.operationHistory.count op ≤ 1
  length_eq_card : initial.Nodup → c.1.toVectorOfSerializedOperations.length = c.1.toSet.card

/-- A call leaves a record, which holds what the call records. -/
def Records (initial : List Operation) (c : OperationLog × List Operation) (i : Call) : Prop :=
  IsRecord initial (step c i) ∧ ∀ oper, i = .record oper → oper ∈ (step c i).1.operationHistory

/-- What is asked of a call: `clear` finds nothing to clear, and no other operation has the text of the
one that is recorded. -/
def Call.Allowed (c : OperationLog × List Operation) : Call → Prop
  | .record oper => ∀ op ∈ c.1.operationHistory, op.serialize = oper.serialize → op = oper
  | .clear => c.1.operationHistory = []

/-- While the two are in step, the log is the record it should be. -/
theorem Shadowed.isRecord {initial : List Operation} {c : OperationLog × List Operation}
    (h : c.1.Shadowed) : IsRecord initial c :=
  ⟨h.recorded_eq, fun op _ => h.count_le op, fun _ => h.length_eq_card⟩

/-- They stay in step over a call that does not clear away operations. -/
theorem Shadowed.step {c : OperationLog × List Operation} {i : Call} (h : c.1.Shadowed)
    (hi : i.Allowed c) : (step c i).1.Shadowed := by
  cases i with
  | record oper => exact h.record oper
  | clear => exact ⟨h.recorded_clear_iff.mpr hi, List.nodup_nil⟩

/-- **One call** keeps the record exactly if it is allowed. -/
theorem Shadowed.records_iff {initial : List Operation} {c : OperationLog × List Operation}
    {i : Call} (h : c.1.Shadowed) : Records initial c i ↔ i.Allowed c := by
  refine ⟨fun hr => ?_, fun hi => ⟨(h.step hi).isRecord, fun oper heq => ?_⟩⟩
  · cases i with
    | record oper => exact h.mem_record_iff.mp (hr.2 oper rfl)
    | clear => exact h.recorded_clear_iff.mp hr.1.recorded_eq
  · subst heq
    exact h.mem_record_iff.mpr hi

/-- **When the log is a record without duplicates**, from its construction on and after every call: it
was not made from operations, `clear` is called only on an empty log, and no two operations that are
recorded share a text. -/
theorem isRecord_iff (k : Constructor) (calls : List Call) :
    IsRecord k.vector (construct k, []) ∧
        Along step (Records k.vector) (construct k, []) calls ↔
      k.vector = [] ∧ Along step (fun c i => i.Allowed c) (construct k, []) calls := by
  have hstart : k.vector = [] → (construct k).Shadowed := by
    intro hnil
    cases k with
    | default => exact shadowed_empty
    | ofOperations log =>
      obtain rfl : log = [] := hnil
      exact shadowed_empty
  have hnil : IsRecord k.vector (construct k, []) → k.vector = [] := by
    intro h
    cases k with
    | default => rfl
    | ofOperations log =>
      have hset : (∅ : Finset Str) = (log.map Operation.serialize).toFinset := h.recorded_eq
      exact List.map_eq_nil_iff.mp (List.toFinset_eq_empty_iff _ |>.mp hset.symm)
  have hiff (h : (construct k).Shadowed) : Along step (Records k.vector) (construct k, []) calls ↔
      Along step (fun c i => i.Allowed c) (construct k, []) calls :=
    Along.iff_of_invariant (fun c _ (hc : c.1.Shadowed) => hc.records_iff)
      (fun _ _ hc hi => hc.step hi) h
  refine ⟨fun h => ?_, fun h => ?_⟩
  · exact ⟨hnil h.1, (hiff (hstart (hnil h.1))).mp h.2⟩
  · exact ⟨(hstart h.1).isRecord, (hiff (hstart h.1)).mpr h.2⟩

/-- An operation that is recorded once more after `clear` is dropped. -/
theorem not_records_of_clear :
    let oper := Operation.insert ⟨rootId, ⟨1, str "a"⟩, 65⟩
    ¬ Along step (Records []) (construct .default, []) [.record oper, .clear, .record oper] := by
  intro oper h
  exact absurd (h.2.2.1.2 oper rfl) (by decide)

end OperationLog

end CrdtEditor
