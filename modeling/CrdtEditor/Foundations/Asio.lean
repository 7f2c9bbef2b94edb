import Mathlib

/-!
# Foundations/Asio — the asynchronous operations of one thread

A program starts operations (`ω`) that finish at any time, with success or with an error, and posts
tasks (`π`) to itself.  What is finished or posted waits in `ready` until its handler runs, one at a
time.  Closing a socket fails the operations in flight; a handler that is waiting keeps the outcome it
has.

`outstanding` are the operations whose handler has not run: only `start` and `take` change them.
-/

open scoped List

/-- What waits to run: the handler of a finished operation, or a posted task. -/
inductive Handler (ω π : Type*)
  | completion (operation : ω) (success : Bool)
  | posted (task : π)
  deriving DecidableEq

/-- The operation a handler answers. -/
def Handler.operation {ω π : Type*} : Handler ω π → Option ω
  | completion operation _ => some operation
  | posted _ => none

/-- An `io_context`: the operations that are under way, and the handlers that are ready to run. -/
structure IoContext (ω π : Type*) where
  flying : List ω
  ready : List (Handler ω π)
  deriving DecidableEq

namespace IoContext

variable {ω π : Type*}

/-- An `async_` call: the operation is under way. -/
def start (io : IoContext ω π) (operation : ω) : IoContext ω π :=
  { io with flying := io.flying ++ [operation] }

/-- `post`: the task is ready at once. -/
def post (io : IoContext ω π) (task : π) : IoContext ω π :=
  { io with ready := io.ready ++ [.posted task] }

/-- The operation at `i` finishes. -/
def finish (io : IoContext ω π) (i : ℕ) (success : Bool) : IoContext ω π :=
  match io.flying[i]? with
  | none => io
  | some operation =>
    ⟨io.flying.eraseIdx i, io.ready ++ [.completion operation success]⟩

/-- The operations in flight that satisfy `p` fail. -/
def cancel (p : ω → Bool) (io : IoContext ω π) : IoContext ω π where
  flying := io.flying.filter fun operation => !p operation
  ready := io.ready ++ (io.flying.filter p).map (.completion · false)

/-- The handler at `i` is taken to run. -/
def take (io : IoContext ω π) (i : ℕ) : IoContext ω π := { io with ready := io.ready.eraseIdx i }

/-- The operations whose handler has not run yet. -/
def outstanding (io : IoContext ω π) : List ω := io.flying ++ io.ready.filterMap Handler.operation

/-- A posted task is no operation. -/
theorem outstanding_post (io : IoContext ω π) (task : π) :
    (io.post task).outstanding = io.outstanding := by
  simp [outstanding, post, Handler.operation]

/-- An operation that is started is outstanding. -/
theorem outstanding_start (io : IoContext ω π) (operation : ω) :
    (io.start operation).outstanding ~ operation :: io.outstanding := by
  simp only [outstanding, start, List.append_assoc]
  exact List.perm_middle

theorem eraseIdx_perm {α : Type*} {l : List α} {i : ℕ} {a : α} (h : l[i]? = some a) :
    l ~ a :: l.eraseIdx i := by
  obtain ⟨hi, rfl⟩ := List.getElem?_eq_some_iff.1 h
  exact (List.getElem_cons_eraseIdx_perm hi).symm

/-- Finishing makes its handler ready; the operation stays outstanding until the handler runs. -/
theorem outstanding_finish (io : IoContext ω π) (i : ℕ) (success : Bool) :
    (io.finish i success).outstanding ~ io.outstanding := by
  rw [finish]
  cases h : io.flying[i]? with
  | none => exact .refl _
  | some operation =>
    simp only [outstanding, List.filterMap_append, List.filterMap_cons, Handler.operation,
      List.filterMap_nil]
    refine .trans ?_ ((eraseIdx_perm h).symm.append_right _)
    rw [← List.append_assoc]
    exact (List.perm_append_singleton _ _)

/-- So does cancelling: the handler runs with an error. -/
theorem outstanding_cancel (p : ω → Bool) (io : IoContext ω π) :
    (io.cancel p).outstanding ~ io.outstanding := by
  have hready : ((io.flying.filter p).map fun op => (Handler.completion op false : Handler ω π)).filterMap
      Handler.operation = io.flying.filter p := by
    rw [List.filterMap_map]
    exact List.filterMap_some
  simp only [outstanding, cancel, List.filterMap_append, hready]
  refine .trans (.append_left _ List.perm_append_comm) ?_
  rw [← List.append_assoc]
  refine .append_right _ (.trans List.perm_append_comm ?_)
  exact List.filter_append_perm p io.flying

/-- Running the handler of an operation ends it. -/
theorem outstanding_take {io : IoContext ω π} {i : ℕ} {operation : ω} {success : Bool}
    (h : io.ready[i]? = some (.completion operation success)) :
    io.outstanding ~ operation :: (io.take i).outstanding := by
  have hready := (eraseIdx_perm h).filterMap Handler.operation
  simp only [List.filterMap_cons, Handler.operation] at hready
  exact (hready.append_left _).trans List.perm_middle

end IoContext
