import Mathlib.Data.List.Nodup
import Mathlib.Data.List.Perm.Subperm
import Mathlib.Order.Lattice
import Mathlib.Data.Nat.Basic

/-!
# Foundations/TextEdit — positional edits

An edit puts one character into a text, or takes one out, at a number of characters from the beginning; a
caret is such a number too, and an edit in front of it carries it along.  Two lists of which neither
reorders what they share lie some edits apart (`TextEdit.between`): these turn the one into the other
(`apply_between`), and carry a caret behind an element to the place of the element (`track_between`).
-/

open scoped List

namespace CrdtEditor

/-- One character more or less, at a number of characters from the beginning. -/
inductive TextEdit (α : Type*)
  | insert (k : ℕ) (c : α)
  | erase (k : ℕ)
  deriving DecidableEq, Repr

namespace TextEdit

variable {α β : Type*}

def apply (s : List α) : TextEdit α → List α
  | .insert k c => s.take k ++ c :: s.drop k
  | .erase k => s.eraseIdx k

/-- Where a caret is after an edit; what is inserted at a caret comes behind it. -/
def carry (n : ℕ) : TextEdit α → ℕ
  | .insert k _ => if k < n then n + 1 else n
  | .erase k => if k < n then n - 1 else n

/-- The same, unless the character in front of the caret is taken out. -/
def track (n : ℕ) : TextEdit α → Option ℕ
  | .insert k c => some (carry n (.insert k c))
  | .erase k => if k + 1 = n then none else some (carry n (.erase k : TextEdit α))

theorem carry_of_track {n m : ℕ} {e : TextEdit α} (h : track n e = some m) : carry n e = m := by
  cases e with
  | insert k c => exact Option.some.inj h
  | erase k =>
    rw [track] at h
    split at h
    · cases h
    · exact Option.some.inj h

/-- What is not lost is carried. -/
theorem foldl_carry_of_foldlM_track {n m : ℕ} {es : List (TextEdit α)}
    (h : es.foldlM track n = some m) : es.foldl carry n = m := by
  induction es generalizing n with
  | nil => exact Option.some.inj h
  | cons e es ih =>
    rw [List.foldlM_cons] at h
    obtain ⟨n', hn', hm⟩ := Option.bind_eq_some_iff.mp h
    rw [List.foldl_cons, carry_of_track hn']
    exact ih hm

/-! ## Beginnings of a list -/

theorem forall_getLast?_of_cons {p : β → Prop} {x : β} {u : List β}
    (h : ∀ y ∈ (x :: u).getLast?, p y) : ∀ y ∈ u.getLast?, p y := fun y hy => h y <| by
  cases u with
  | nil => cases hy
  | cons z u => exact hy

theorem forall_getLast?_concat {p : β → Prop} {y : β} (u : List β) (h : p y) :
    ∀ z ∈ (u ++ [y]).getLast?, p z := fun z hz => by
  rw [List.getLast?_concat] at hz
  exact Option.some.inj hz ▸ h

/-- What two lists share splits at a common element in one way only. -/
theorem filter_left_inj {p q : β → Bool} {y : β} {w v w' v' : List β}
    (hn : (w ++ y :: v).Nodup) (hp : p y = true) (hq : q y = true)
    (h : (w ++ y :: v).filter p = (w' ++ y :: v').filter q) : w.filter p = w'.filter q := by
  obtain ⟨-, hnodup, hne⟩ := List.nodup_append.mp hn
  have hyw : y ∉ w.filter p := fun hm =>
    hne y (List.mem_of_mem_filter hm) y List.mem_cons_self rfl
  have hyv : y ∉ v.filter p := fun hm =>
    (List.nodup_cons.mp hnodup).1 (List.mem_of_mem_filter hm)
  rw [List.filter_append, List.filter_cons_of_pos hp, List.filter_append,
    List.filter_cons_of_pos hq] at h
  exact ((List.append_cons_inj_of_notMem hyw hyv).mp h).1

/-! ## The edits between two lists -/

section

variable [DecidableEq β]

/-- Take out of a text what is not kept, from the left; `k` characters are kept in front of it. -/
def erased (kept : List β) : ℕ → List β → List (TextEdit α)
  | _, [] => []
  | k, x :: l => if x ∈ kept then erased kept (k + 1) l else .erase k :: erased kept k l

/-- Put in what is not known, from the left. -/
def inserted (f : β → α) (known : List β) : ℕ → List β → List (TextEdit α)
  | _, [] => []
  | k, x :: l =>
    if x ∈ known then inserted f known (k + 1) l else .insert k (f x) :: inserted f known (k + 1) l

/-- The edits from one list to another. -/
def between (f : β → α) (l l' : List β) : List (TextEdit α) := erased l' 0 l ++ inserted f l 0 l'

variable {f : β → α} {kept known l l' : List β}

theorem apply_erased (l : List β) (p : List α) :
    (erased kept p.length l).foldl apply (p ++ l.map f) = p ++ (l.filter (· ∈ kept)).map f := by
  induction l generalizing p with
  | nil => rfl
  | cons x l ih =>
    by_cases hx : x ∈ kept
    · have hnext := ih (p ++ [f x])
      rw [List.length_append, List.append_assoc, List.append_assoc] at hnext
      rw [erased, if_pos hx, List.filter_cons_of_pos (by simpa using hx)]
      exact hnext
    · have herase : (p ++ (x :: l).map f).eraseIdx p.length = p ++ l.map f := by
        rw [List.eraseIdx_append_of_length_le le_rfl, Nat.sub_self]
        rfl
      rw [erased, if_neg hx, List.filter_cons_of_neg (by simpa using hx), List.foldl_cons, apply,
        herase]
      exact ih p

theorem apply_inserted (l : List β) (p : List α) :
    (inserted f known p.length l).foldl apply (p ++ (l.filter (· ∈ known)).map f) = p ++ l.map f := by
  induction l generalizing p with
  | nil => rfl
  | cons x l ih =>
    have hnext := ih (p ++ [f x])
    rw [List.length_append, List.append_assoc, List.append_assoc] at hnext
    by_cases hx : x ∈ known
    · rw [inserted, if_pos hx, List.filter_cons_of_pos (by simpa using hx)]
      exact hnext
    · rw [inserted, if_neg hx, List.filter_cons_of_neg (by simpa using hx), List.foldl_cons, apply,
        List.take_left, List.drop_left]
      exact hnext

/-- A part of a list without repetitions is what it shares with the list. -/
theorem filter_mem_of_sublist (hn : l'.Nodup) (h : l <+ l') :
    l.filter (· ∈ l') = l'.filter (· ∈ l) := by
  have hself : l.filter (· ∈ l') = l := List.filter_eq_self.mpr fun x hx => by simpa using h.subset hx
  have hself' : l.filter (· ∈ l) = l := List.filter_eq_self.mpr fun x hx => by simpa using hx
  have hsub : l <+ l'.filter (· ∈ l) := by
    have := h.filter (· ∈ l)
    rwa [hself'] at this
  rw [hself]
  refine hsub.eq_of_length_le (List.subperm_of_subset (hn.filter _) fun x hx => ?_).length_le
  simpa using (List.mem_filter.mp hx).2

/-- **The edits between two lists** that order alike what they share turn the one into the other. -/
theorem apply_between (h : l.filter (· ∈ l') = l'.filter (· ∈ l)) :
    (between f l l').foldl apply (l.map f) = l'.map f := by
  have herased : (erased l' 0 l).foldl apply (l.map f) = (l.filter (· ∈ l')).map f :=
    apply_erased l []
  have hinserted : (inserted f l 0 l').foldl apply ((l'.filter (· ∈ l)).map f) = l'.map f :=
    apply_inserted l' []
  rw [between, List.foldl_append, herased, h]
  exact hinserted

/-! ## Carets -/

/-- What is taken out behind a caret leaves it alone. -/
theorem track_erased_of_le {n k : ℕ} (h : n ≤ k) (l : List β) :
    (erased kept k l : List (TextEdit α)).foldlM track n = some n := by
  induction l generalizing k with
  | nil => rfl
  | cons x l ih =>
    by_cases hx : x ∈ kept
    · rw [erased, if_pos hx]
      exact ih (h.trans (Nat.le_succ k))
    · have hstep : track n (.erase k : TextEdit α) = some n := by
        rw [track, if_neg (by omega), carry, if_neg (by omega)]
      rw [erased, if_neg hx, List.foldlM_cons, hstep]
      exact ih h

/-- A caret behind something kept stays behind it. -/
theorem track_erased (u v : List β) (k : ℕ) (hu : ∀ y ∈ u.getLast?, y ∈ kept) :
    (erased kept k (u ++ v) : List (TextEdit α)).foldlM track (k + u.length) =
      some (k + (u.filter (· ∈ kept)).length) := by
  induction u generalizing k with
  | nil => exact track_erased_of_le le_rfl v
  | cons x u ih =>
    have hrest := forall_getLast?_of_cons hu
    rw [List.cons_append, List.length_cons]
    by_cases hx : x ∈ kept
    · have hnext := ih (k + 1) hrest
      rw [Nat.add_right_comm, Nat.add_right_comm k 1 (u.filter _).length] at hnext
      rw [erased, if_pos hx, List.filter_cons_of_pos (by simpa using hx), List.length_cons]
      exact hnext
    · have hpos : 0 < u.length := by
        refine List.length_pos_of_ne_nil fun he => hx (hu x ?_)
        rw [he]
        rfl
      have hstep : track (k + (u.length + 1)) (.erase k : TextEdit α) = some (k + u.length) := by
        rw [track, if_neg (by omega), carry, if_pos (by omega)]
        rfl
      rw [erased, if_neg hx, List.filter_cons_of_neg (by simpa using hx), List.foldlM_cons, hstep]
      exact ih k hrest

/-- A caret behind something taken out is lost. -/
theorem track_erased_of_notMem (u v : List β) (k : ℕ) {y : β} (hy : y ∉ kept) :
    (erased kept k (u ++ y :: v) : List (TextEdit α)).foldlM track (k + (u.length + 1)) = none := by
  induction u generalizing k with
  | nil =>
    have hstep : track (k + (0 + 1)) (.erase k : TextEdit α) = none := if_pos (by omega)
    rw [List.nil_append, List.length_nil, erased, if_neg hy, List.foldlM_cons, hstep]
    rfl
  | cons x u ih =>
    rw [List.cons_append, List.length_cons]
    by_cases hx : x ∈ kept
    · have hnext := ih (k + 1)
      rw [Nat.add_right_comm] at hnext
      rw [erased, if_pos hx]
      exact hnext
    · have hstep : track (k + (u.length + 1 + 1)) (.erase k : TextEdit α) =
          some (k + (u.length + 1)) := by
        rw [track, if_neg (by omega), carry, if_pos (by omega)]
        rfl
      rw [erased, if_neg hx, List.foldlM_cons, hstep]
      exact ih k

/-- What is put in behind a caret, or at it, leaves it alone. -/
theorem track_inserted_of_le {n k : ℕ} (h : n ≤ k) (l : List β) :
    (inserted f known k l).foldlM track n = some n := by
  induction l generalizing k with
  | nil => rfl
  | cons x l ih =>
    have hnext := ih (h.trans (Nat.le_succ k))
    by_cases hx : x ∈ known
    · rw [inserted, if_pos hx]
      exact hnext
    · have hstep : track n (.insert k (f x)) = some n := congrArg some (if_neg (by omega))
      rw [inserted, if_neg hx, List.foldlM_cons, hstep]
      exact hnext

/-- A caret behind something known stays behind it. -/
theorem track_inserted (u v : List β) (k : ℕ) (hu : ∀ y ∈ u.getLast?, y ∈ known) :
    (inserted f known k (u ++ v)).foldlM track (k + (u.filter (· ∈ known)).length) =
      some (k + u.length) := by
  induction u generalizing k with
  | nil => exact track_inserted_of_le le_rfl v
  | cons x u ih =>
    have hrest := forall_getLast?_of_cons hu
    have hnext := ih (k + 1) hrest
    rw [Nat.add_right_comm, Nat.add_right_comm k 1 u.length] at hnext
    rw [List.cons_append, List.length_cons]
    by_cases hx : x ∈ known
    · rw [inserted, if_pos hx, List.filter_cons_of_pos (by simpa using hx), List.length_cons]
      exact hnext
    · -- the caret is behind something known, which comes later
      have hpos : 0 < (u.filter (· ∈ known)).length := by
        cases hlast : u.getLast? with
        | none =>
          rw [List.getLast?_eq_none_iff] at hlast
          refine absurd (hu x ?_) hx
          rw [hlast]
          rfl
        | some y =>
          refine List.length_pos_of_mem (a := y) (List.mem_filter.mpr ⟨?_, ?_⟩)
          · exact List.mem_of_getLast? hlast
          · simpa using hrest y hlast
      have hstep : track (k + (u.filter (· ∈ known)).length) (.insert k (f x)) =
          some (k + (u.filter (· ∈ known)).length + 1) := congrArg some (if_pos (by omega))
      rw [inserted, if_neg hx, List.filter_cons_of_neg (by simpa using hx), List.foldlM_cons, hstep]
      exact hnext

/-- **A caret between two lists** that end in something shared is carried from the one end to the other. -/
theorem track_between {u v u' v' : List β} (hl : l = u ++ v) (hl' : l' = u' ++ v')
    (hcut : u.filter (· ∈ l') = u'.filter (· ∈ l)) (hu : ∀ y ∈ u.getLast?, y ∈ l')
    (hu' : ∀ y ∈ u'.getLast?, y ∈ l) :
    (between f l l').foldlM track u.length = some u'.length := by
  have herased := track_erased (α := α) u v 0 hu
  have hinserted := track_inserted (f := f) u' v' 0 hu'
  rw [Nat.zero_add, Nat.zero_add, ← hl] at herased
  rw [Nat.zero_add, Nat.zero_add, ← hl', ← hcut] at hinserted
  rw [between, List.foldlM_append, herased]
  exact hinserted

variable {r y : β}

/-- The caret behind the element `y` of a list that is headed by `r`. -/
theorem idxOf_cons_append {w v : List β} (h : (r :: (w ++ y :: v)).Nodup) :
    (r :: (w ++ y :: v)).idxOf y = (w ++ [y]).length := by
  obtain ⟨hr, hnodup⟩ := List.nodup_cons.mp h
  have hyw : y ∉ w := fun hm =>
    (List.nodup_append.mp hnodup).2.2 y hm y List.mem_cons_self rfl
  have hyr : r ≠ y := fun he => hr (he ▸ List.mem_append_right w List.mem_cons_self)
  rw [List.idxOf_cons_ne _ hyr, List.idxOf_append_of_notMem hyw, List.idxOf_cons_self,
    List.length_append]
  rfl

/-- The caret behind the last element of a beginning, or behind the head if there is none. -/
theorem idxOf_getLast?_getD {w v : List β} (h : (r :: (w ++ v)).Nodup) :
    (r :: (w ++ v)).idxOf (w.getLast?.getD r) = w.length := by
  obtain rfl | ⟨w, y, rfl⟩ := List.eq_nil_or_concat w
  · exact List.idxOf_cons_self
  · rw [List.concat_eq_append, List.append_assoc] at h ⊢
    rw [List.getLast?_concat, Option.getD_some]
    exact idxOf_cons_append h

/-- **A caret behind an element of both lists stays behind it.** -/
theorem track_between_idxOf (hn : (r :: l).Nodup) (hn' : (r :: l').Nodup)
    (h : l.filter (· ∈ l') = l'.filter (· ∈ l)) (hy : y ∈ r :: l) (hy' : y ∈ r :: l') :
    (between f l l').foldlM track ((r :: l).idxOf y) = some ((r :: l').idxOf y) := by
  by_cases hyr : y = r
  · rw [hyr, List.idxOf_cons_self, List.idxOf_cons_self]
    have hempty : ∀ k : List β, ∀ z ∈ ([] : List β).getLast?, z ∈ k := fun _ _ hz => by cases hz
    exact track_between (show l = [] ++ l from rfl) (show l' = [] ++ l' from rfl) rfl (hempty l')
      (hempty l)
  have hm := (List.mem_cons.mp hy).resolve_left hyr
  have hm' := (List.mem_cons.mp hy').resolve_left hyr
  obtain ⟨w, v, hl⟩ := List.append_of_mem hm
  obtain ⟨w', v', hl'⟩ := List.append_of_mem hm'
  have hidx : (r :: l).idxOf y = (w ++ [y]).length := by
    rw [hl] at hn ⊢
    exact idxOf_cons_append hn
  have hidx' : (r :: l').idxOf y = (w' ++ [y]).length := by
    rw [hl'] at hn' ⊢
    exact idxOf_cons_append hn'
  have hcut : w.filter (· ∈ l') = w'.filter (· ∈ l) := by
    have hsplit : (w ++ y :: v).filter (· ∈ l') = (w' ++ y :: v').filter (· ∈ l) := by
      rw [← hl, ← hl']
      exact h
    exact filter_left_inj (hl ▸ hn.of_cons) (by simpa using hm') (by simpa using hm) hsplit
  rw [hidx, hidx']
  refine track_between (by rw [hl, List.append_assoc]; rfl) (by rw [hl', List.append_assoc]; rfl) ?_
    (forall_getLast?_concat w hm') (forall_getLast?_concat w' hm)
  rw [List.filter_append, List.filter_append, hcut, List.filter_cons_of_pos (by simpa using hm'),
    List.filter_cons_of_pos (by simpa using hm)]
  rfl

/-- **A caret behind an element that is taken out** has lost it. -/
theorem track_between_of_notMem (hn : (r :: l).Nodup) (hy : y ∈ l) (hy' : y ∉ l') :
    (between f l l').foldlM track ((r :: l).idxOf y) = none := by
  obtain ⟨w, v, hl⟩ := List.append_of_mem hy
  have hidx : (r :: l).idxOf y = (w ++ [y]).length := by
    rw [hl] at hn ⊢
    exact idxOf_cons_append hn
  have herased := track_erased_of_notMem (α := α) w v 0 hy'
  rw [Nat.zero_add, ← hl] at herased
  rw [hidx, between, List.foldlM_append, List.length_append, List.length_singleton, herased]
  rfl

/-! ## One element less -/

theorem erased_append (w : List β) (k : ℕ) (h : ∀ x ∈ w, x ∈ kept) (v : List β) :
    (erased kept k (w ++ v) : List (TextEdit α)) = erased kept (k + w.length) v := by
  induction w generalizing k with
  | nil => rfl
  | cons x w ih =>
    rw [List.cons_append, erased, if_pos (h x List.mem_cons_self),
      ih (k + 1) fun z hz => h z (List.mem_cons_of_mem x hz), List.length_cons, Nat.add_right_comm]
    rfl

theorem inserted_of_subset (l : List β) (k : ℕ) (h : ∀ x ∈ l, x ∈ known) :
    inserted f known k l = [] := by
  induction l generalizing k with
  | nil => rfl
  | cons x l ih =>
    rw [inserted, if_pos (h x List.mem_cons_self)]
    exact ih (k + 1) fun z hz => h z (List.mem_cons_of_mem x hz)

/-- One element less is one edit. -/
theorem between_of_erase {w v : List β} (hn : (w ++ y :: v).Nodup) :
    between f (w ++ y :: v) (w ++ v) = [.erase w.length] := by
  have hy : y ∉ w ++ v := fun hm => by
    obtain ⟨-, hnodup, hne⟩ := List.nodup_append.mp hn
    obtain hm | hm := List.mem_append.mp hm
    · exact hne y hm y List.mem_cons_self rfl
    · exact (List.nodup_cons.mp hnodup).1 hm
  have hrest : (erased (w ++ v) (0 + w.length) v : List (TextEdit α)) = [] := by
    have := erased_append (α := α) v (0 + w.length) (fun x hx => List.mem_append_right w hx) []
    rwa [List.append_nil] at this
  rw [between, erased_append w 0 (fun x hx => List.mem_append_left v hx), erased, if_neg hy, hrest,
    inserted_of_subset _ _ fun x hx => ?_, Nat.zero_add]
  · rfl
  · rw [List.mem_append] at hx ⊢
    exact hx.imp id (List.mem_cons_of_mem y)

end

end TextEdit

end CrdtEditor
