import CrdtEditor.Document.Navigation
import CrdtEditor.Foundations.Lines

/-!
# Document/Coordinates — lines, columns and the anchors between them

`get_line_column`, `get_cursor_position`, `get_anchor_at`, `get_line_length` and `get_line_count`
count newlines in one traversal each.  Against the text they are `position`, its inverse and
`lineLength`: the caret behind the anchor number `k` is at `position (text.take k)`
(`getCursorPosition_eq`), and back (`getAnchorAt_eq`), so that coordinates and anchors are in
bijection (`coordinates_of_after`).
-/

open scoped List

namespace CrdtEditor

open Text

/-- The two ends of a selection; the source calls them `start` and `end`. -/
structure DocumentRange where
  start : ElementID
  stop : ElementID

namespace Document

/-- The visitor of `get_line_column`, on the ids it is called with. -/
def lineColumnFrom (d : Document) (target : ElementID) :
    ℕ × ℕ → List ElementID → Except Exn (ℕ × ℕ)
  | _, [] => .error (.runtimeError (str "Element not found"))
  | p, id :: ids =>
    if id = target then .ok p
    else do
      let c ← d.getCharacter id
      d.lineColumnFrom target (advance p c) ids

/-- The line and column in front of an element. -/
def getLineColumn (d : Document) (target : ElementID) : Except Exn (ℕ × ℕ) := do
  let ids ← d.visible
  d.lineColumnFrom target (0, 0) ids

/-- The visitor of `get_element_at`. -/
def elementFrom (d : Document) (line column : ℕ) :
    ℕ × ℕ → List ElementID → Except Exn (Option ElementID)
  | _, [] => .ok none
  | p, id :: ids =>
    if p = (line, column) then .ok (some id)
    else do
      let c ← d.getCharacter id
      d.elementFrom line column (advance p c) ids

def getElementAt (d : Document) (line column : ℕ) : Except Exn (Option ElementID) := do
  let ids ← d.visible
  d.elementFrom line column (0, 0) ids

/-- The visitor of `get_anchor_at`; it remembers the id before. -/
def anchorFrom (d : Document) (line column : ℕ) :
    ℕ × ℕ → ElementID → List ElementID → Except Exn (Option ElementID)
  | p, previous, [] => .ok (if p = (line, column) then some previous else none)
  | p, previous, id :: ids =>
    -- the cursor belongs immediately before this element
    if p = (line, column) then .ok (some previous)
    else do
      let c ← d.getCharacter id
      d.anchorFrom line column (advance p c) id ids

def getAnchorAt (d : Document) (line column : ℕ) : Except Exn (Option ElementID) := do
  let ids ← d.visible
  d.anchorFrom line column (0, 0) rootId ids

/-- The visitor of `get_line_length`; past the target line it counts no more. -/
def lineLengthFrom (d : Document) (target : ℕ) :
    ℕ → ℕ → List ElementID → Except Exn (Option ℕ)
  | current, length, [] => .ok (if current < target then none else some length)
  | current, length, id :: ids => do
    let c ← d.getCharacter id
    if target < current then d.lineLengthFrom target current length ids
    else if current = target then
      if c = newline then d.lineLengthFrom target (current + 1) length ids
      else d.lineLengthFrom target current (length + 1) ids
    else if c = newline then d.lineLengthFrom target (current + 1) length ids
    else d.lineLengthFrom target current length ids

def getLineLength (d : Document) (line : ℕ) : Except Exn (Option ℕ) := do
  let ids ← d.visible
  d.lineLengthFrom line 0 0 ids

/-- The visitor of `get_max_line_length`. -/
def maxLineLengthFrom (d : Document) : ℕ → ℕ → List ElementID → Except Exn ℕ
  | longest, current, [] => .ok (max longest current)
  | longest, current, id :: ids => do
    let c ← d.getCharacter id
    if c = newline then d.maxLineLengthFrom (max longest current) 0 ids
    else d.maxLineLengthFrom longest (current + 1) ids

def getMaxLineLength (d : Document) : Except Exn ℕ := do
  let ids ← d.visible
  d.maxLineLengthFrom 0 0 ids

/-- The visitor of `get_line_count`. -/
def lineCountFrom (d : Document) : ℕ → List ElementID → Except Exn ℕ
  | line, [] => .ok line
  | line, id :: ids => do
    let c ← d.getCharacter id
    d.lineCountFrom (if c = newline then line + 1 else line) ids

def getLineCount (d : Document) : Except Exn ℕ := do
  let ids ← d.visible
  d.lineCountFrom 1 ids

/-- The position of the text nearest to a requested line and column. -/
def clampPosition (d : Document) (requestedLine requestedColumn : ℕ) : Except Exn (ℕ × ℕ) := do
  let lineCount ← d.getLineCount
  if lineCount = 0 then return (0, 0)
  let line := min requestedLine (lineCount - 1)
  let length ← d.getLineLength line
  return (line, min requestedColumn (length.getD 0))

/-- The line and column of a caret behind an anchor. -/
def getCursorPosition (d : Document) (anchor : ElementID) : Except Exn (ℕ × ℕ) := do
  if anchor ≠ rootId ∧ anchor ∉ d.elements then throw (.runtimeError (str "Element not found"))
  if anchor = rootId then return (0, 0)
  let character ← d.elementAt anchor
  if character.deleted then throw (.runtimeError (str "Element not found"))
  let p ← d.getLineColumn anchor
  let c ← d.getCharacter anchor
  return advance p c

/-- The visitor of `get_visible_range`. -/
def rangeFrom (range : DocumentRange) : Bool → List ElementID → List ElementID
  | _, [] => []
  | collecting, id :: ids =>
    if id = range.stop then (if collecting then [id] else []) ++ rangeFrom range false ids
    else if id = range.start then rangeFrom range true ids
    else (if collecting then [id] else []) ++ rangeFrom range collecting ids

def getVisibleRange (d : Document) (range : DocumentRange) : Except Exn (List ElementID) := do
  if range.start = range.stop then return []
  let ids ← d.visible
  return rangeFrom range (range.start = rootId) ids

/-- A range is part of what is visited. -/
theorem rangeFrom_sublist (range : DocumentRange) :
    ∀ (collecting : Bool) (ids : List ElementID), rangeFrom range collecting ids <+ ids
  | _, [] => List.Sublist.refl _
  | collecting, id :: ids => by
      have hcons : (if collecting then [id] else []) <+ [id] := by cases collecting <;> simp
      rw [rangeFrom]
      split
      · exact hcons.append (rangeFrom_sublist range false ids)
      split
      · exact (rangeFrom_sublist range true ids).cons id
      · exact hcons.append (rangeFrom_sublist range collecting ids)

/-- What `render` returns. -/
def text (d : Document) : Str := (d.preorder.filter d.isVisible).map d.charOf

/-! ## Against the text -/

namespace IsTree

variable {d : Document}

theorem render_eq_text (h : d.IsTree) : d.render = .ok d.text := h.render_eq

theorem length_anchors (d : Document) : d.anchors.length = d.text.length + 1 := by
  rw [anchors, text, List.length_cons, List.length_map]

/-- The anchors cut at one of them: the characters in front of it. -/
theorem take_text {x : ElementID} {a b : List ElementID} (hx : d.anchors = a ++ x :: b) :
    d.text.take a.length = (((a ++ [x]).drop 1).map d.charOf) := by
  have hv : d.preorder.filter d.isVisible = (a ++ [x]).drop 1 ++ b := by
    have : d.anchors = (a ++ [x]) ++ b := by rw [hx]; simp
    cases a with
    | nil => simpa [anchors] using congrArg (List.drop 1) hx
    | cons r a => simpa [anchors] using congrArg (List.drop 1) this
  rw [text, hv, ← List.map_take]
  congr 1
  rw [List.take_left' (by simp)]

theorem lineColumnFrom_eq {x : ElementID} (b : List ElementID) :
    ∀ {a : List ElementID}, x ∉ a → (∀ y ∈ a, y ∈ d.elements) → ∀ p : ℕ × ℕ,
    d.lineColumnFrom x p (a ++ x :: b) = .ok ((a.map d.charOf).foldl advance p)
  | [], _, _, p => by rw [List.nil_append, lineColumnFrom, if_pos rfl]; rfl
  | y :: a, hx, ha, p => by
      rw [List.mem_cons, not_or] at hx
      rw [List.cons_append, lineColumnFrom, if_neg (Ne.symm hx.1),
        getCharacter_of_mem (ha y List.mem_cons_self)]
      exact lineColumnFrom_eq b hx.2 (fun z hz => ha z (List.mem_cons_of_mem _ hz)) _

theorem visible_mem {x : ElementID} (hx : x ∈ d.preorder.filter d.isVisible) : x ∈ d.elements :=
  mem_of_isVisible (List.mem_filter.mp hx).2

/-- **The caret behind an anchor stands where the text in front of it ends.** -/
theorem getCursorPosition_eq (h : d.IsTree) {x : ElementID} {a b : List ElementID}
    (hx : d.anchors = a ++ x :: b) :
    d.getCursorPosition x = .ok (position (d.text.take a.length)) := by
  rw [take_text hx, getCursorPosition]
  by_cases hroot : x = rootId
  · obtain ⟨a', b', -, -, hr, -⟩ := h.exists_preorder_eq hx
    obtain ⟨rfl, -⟩ := hr hroot
    simp [hroot, h.root_mem, position, pure, Except.pure]
  · cases a with
    | nil => exact absurd (by simpa [anchors] using (congrArg List.head? hx).symm) hroot
    | cons r a =>
      have hv : d.preorder.filter d.isVisible = a ++ x :: b := by
        simpa [anchors] using congrArg (List.drop 1) hx
      have hxv : x ∈ d.preorder.filter d.isVisible := by rw [hv]; simp
      have hmem := visible_mem hxv
      obtain ⟨c, hc⟩ := UMap.mem_iff_lookup.mp hmem
      have hdel : c.deleted = false := by
        have := isVisible_of_lookup hroot hc
        rw [(List.mem_filter.mp hxv).2] at this
        simpa using this.symm
      have hnotin : x ∉ a := fun hm => by
        have := h.nodup_preorder.filter d.isVisible
        rw [hv, List.nodup_append] at this
        exact this.2.2 x hm x List.mem_cons_self rfl
      have hcol : d.getLineColumn x = .ok ((a.map d.charOf).foldl advance (0, 0)) := by
        rw [getLineColumn, h.visible_eq, hv]
        exact lineColumnFrom_eq b hnotin (fun y hy => visible_mem (by rw [hv]; simp [hy])) _
      simp only [hroot, hmem, not_true_eq_false, and_false, if_false, elementAt_of_lookup hc, hdel,
        hcol, getCharacter_of_mem hmem, bind, Except.bind, Bool.false_eq_true]
      simp [position, pure, Except.pure]

theorem anchorFrom_eq {line column : ℕ} : ∀ {ids : List ElementID} {k : ℕ}, k ≤ ids.length →
    (∀ y ∈ ids, y ∈ d.elements) → ∀ (p : ℕ × ℕ) (previous : ElementID),
    ((ids.take k).map d.charOf).foldl advance p = (line, column) →
    (∀ j < k, ((ids.take j).map d.charOf).foldl advance p ≠ (line, column)) →
    d.anchorFrom line column p previous ids = .ok (previous :: ids)[k]?
  | [], k, hk, _, p, previous, hp, _ => by
      obtain rfl : k = 0 := Nat.le_zero.mp hk
      rw [anchorFrom, if_pos (by simpa using hp)]
      rfl
  | id :: ids, 0, _, _, p, previous, hp, _ => by
      rw [anchorFrom, if_pos (by simpa using hp)]
      rfl
  | id :: ids, k + 1, hk, hids, p, previous, hp, hbefore => by
      have h0 : p ≠ (line, column) := by simpa using hbefore 0 (Nat.succ_pos k)
      rw [anchorFrom, if_neg h0, getCharacter_of_mem (hids id List.mem_cons_self)]
      refine anchorFrom_eq (Nat.le_of_succ_le_succ hk)
        (fun z hz => hids z (List.mem_cons_of_mem _ hz)) _ id (by simpa using hp) fun j hj => ?_
      simpa using hbefore (j + 1) (Nat.succ_lt_succ hj)

/-- **`get_anchor_at` finds the anchor at a position of the text.** -/
theorem getAnchorAt_eq (h : d.IsTree) {line column k : ℕ} (hk : k ≤ d.text.length)
    (hp : position (d.text.take k) = (line, column)) :
    d.getAnchorAt line column = .ok d.anchors[k]? := by
  have htake : ∀ j, ((d.preorder.filter d.isVisible).take j).map d.charOf = d.text.take j :=
    fun j => List.map_take
  rw [getAnchorAt, h.visible_eq]
  refine anchorFrom_eq (by simpa [text] using hk) (fun y hy => visible_mem hy) _ _ ?_ fun j hj => ?_
  · rw [htake]
    exact hp
  · rw [htake]
    intro hj'
    have := position_take_injective (hj.le.trans hk) hk (hj'.trans hp.symm)
    omega

theorem anchorFrom_eq_none {line column : ℕ} : ∀ {ids : List ElementID},
    (∀ y ∈ ids, y ∈ d.elements) → ∀ (p : ℕ × ℕ) (previous : ElementID),
    (∀ j ≤ ids.length, ((ids.take j).map d.charOf).foldl advance p ≠ (line, column)) →
    d.anchorFrom line column p previous ids = .ok none
  | [], _, p, previous, hno => by
      have h0 : p ≠ (line, column) := by simpa using hno 0
      rw [anchorFrom, if_neg h0]
  | id :: ids, hids, p, previous, hno => by
      have h0 : p ≠ (line, column) := by simpa using hno 0 (Nat.zero_le _)
      rw [anchorFrom, if_neg h0, getCharacter_of_mem (hids id List.mem_cons_self)]
      refine anchorFrom_eq_none (fun z hz => hids z (List.mem_cons_of_mem _ hz)) _ id fun j hj => ?_
      simpa using hno (j + 1) (Nat.succ_le_succ hj)

/-- **Off the text there is no anchor.** -/
theorem getAnchorAt_eq_none (h : d.IsTree) {line column : ℕ}
    (hno : ∀ k ≤ d.text.length, position (d.text.take k) ≠ (line, column)) :
    d.getAnchorAt line column = .ok none := by
  rw [getAnchorAt, h.visible_eq]
  refine anchorFrom_eq_none (fun y hy => visible_mem hy) _ _ fun j hj => ?_
  rw [List.map_take]
  exact hno j (by simpa [text] using hj)

theorem elementFrom_eq {line column : ℕ} : ∀ {ids : List ElementID} {k : ℕ},
    (∀ y ∈ ids, y ∈ d.elements) → ∀ p : ℕ × ℕ,
    ((ids.take k).map d.charOf).foldl advance p = (line, column) →
    (∀ j < k, ((ids.take j).map d.charOf).foldl advance p ≠ (line, column)) →
    d.elementFrom line column p ids = .ok ids[k]?
  | [], _, _, _, _, _ => rfl
  | id :: ids, 0, _, p, hp, _ => by
      rw [elementFrom, if_pos (by simpa using hp)]
      rfl
  | id :: ids, k + 1, hids, p, hp, hbefore => by
      have h0 : p ≠ (line, column) := by simpa using hbefore 0 (Nat.succ_pos k)
      rw [elementFrom, if_neg h0, getCharacter_of_mem (hids id List.mem_cons_self)]
      refine elementFrom_eq (fun z hz => hids z (List.mem_cons_of_mem _ hz)) _ (by simpa using hp)
        fun j hj => ?_
      simpa using hbefore (j + 1) (Nat.succ_lt_succ hj)

/-- **`get_element_at` undoes `get_line_column`.** -/
theorem getElementAt_getLineColumn (h : d.IsTree) {x : ElementID} (hx : d.isVisible x = true) :
    ∃ line column, d.getLineColumn x = .ok (line, column) ∧
      d.getElementAt line column = .ok (some x) := by
  have hxv : x ∈ d.preorder.filter d.isVisible :=
    List.mem_filter.mpr ⟨h.mem_preorder.mpr (mem_of_isVisible hx), hx⟩
  obtain ⟨a, b, hv⟩ := List.append_of_mem hxv
  have hmem : ∀ y ∈ a ++ x :: b, y ∈ d.elements := fun y hy => visible_mem (hv ▸ hy)
  have hnotin : x ∉ a := fun hm => by
    have := h.nodup_preorder.filter d.isVisible
    rw [hv, List.nodup_append] at this
    exact this.2.2 x hm x List.mem_cons_self rfl
  have htake : ∀ j, ((a ++ x :: b).take j).map d.charOf = d.text.take j := fun j => by
    rw [text, hv, List.map_take]
  have hpos : ((a ++ x :: b).take a.length).map d.charOf = a.map d.charOf := by
    rw [List.take_left]
  have hcol : d.getLineColumn x = .ok ((a.map d.charOf).foldl advance (0, 0)) := by
    rw [getLineColumn, h.visible_eq, hv]
    exact lineColumnFrom_eq b hnotin (fun y hy => hmem y (List.mem_append_left _ hy)) _
  refine ⟨_, _, hcol, ?_⟩
  have hlen : a.length < d.text.length := by rw [text, hv]; simp
  rw [getElementAt, h.visible_eq, hv]
  refine (elementFrom_eq (k := a.length) hmem (0, 0) (by rw [hpos]) fun j hj he => ?_).trans ?_
  · rw [htake, ← hpos, htake] at he
    have := position_take_injective (hj.le.trans hlen.le) hlen.le he
    omega
  · simp

/-- **`get_line_length` is the length of the line.** -/
theorem getLineLength_eq (h : d.IsTree) (line : ℕ) :
    d.getLineLength line = .ok (lineLength d.text line) := by
  -- the counter of the target line starts when the loop reaches it
  have hloop : ∀ (ids : List ElementID) (current length : ℕ), (∀ y ∈ ids, y ∈ d.elements) →
      (current < line → length = 0) → d.lineLengthFrom line current length ids =
        .ok (if line < current then some length
          else (lineLength (ids.map d.charOf) (line - current)).map
            fun n => if current = line then length + n else n) := by
    intro ids
    induction ids with
    | nil =>
      intro current length _ hlen
      rw [lineLengthFrom]
      rcases Nat.lt_trichotomy current line with hlt | rfl | hgt
      · obtain ⟨m, hm⟩ := Nat.exists_eq_add_of_lt hlt
        rw [if_pos hlt, if_neg (by omega), show line - current = m + 1 by omega]
        rfl
      · simp [lineLength, lines]
      · rw [if_neg (by omega), if_pos hgt]
    | cons id ids ih =>
      intro current length hids hlen
      have hrest : ∀ y ∈ ids, y ∈ d.elements := fun y hy => hids y (List.mem_cons_of_mem _ hy)
      rw [lineLengthFrom, getCharacter_of_mem (hids id List.mem_cons_self)]
      simp only [bind, Except.bind]
      rcases Nat.lt_trichotomy current line with hlt | rfl | hgt
      · obtain ⟨m, hm⟩ := Nat.exists_eq_add_of_lt hlt
        have hgt : ¬ line < current := by omega
        have hne : current ≠ line := by omega
        have hsub : line - current = m + 1 := by omega
        simp only [hgt, hne, hsub, if_false, List.map_cons]
        split
        case isTrue hc =>
          rw [ih (current + 1) length hrest (fun _ => hlen hlt), hc, lineLength_cons_newline,
            if_neg (by omega), show line - (current + 1) = m by omega, hlen hlt]
          simp
        case isFalse hc =>
          rw [ih current length hrest hlen, lineLength_cons hc]
          simp only [hgt, hne, hsub, if_false]
      · have hgt : ¬ current < current := Nat.lt_irrefl _
        simp only [hgt, if_false, if_true, Nat.sub_self, List.map_cons]
        split
        case isTrue hc =>
          rw [ih (current + 1) length hrest (by omega), if_pos (by omega), hc]
          simp [lineLength, lines_cons_newline]
        case isFalse hc =>
          rw [ih current (length + 1) hrest (by omega), lineLength_cons_zero hc]
          simp [Option.map_map, Function.comp_def, Nat.add_assoc, Nat.add_comm 1]
      · simp only [hgt, if_true, ih current length hrest hlen]
  rw [getLineLength, h.visible_eq]
  refine (hloop _ 0 0 (fun y hy => visible_mem hy) fun _ => rfl).trans ?_
  rw [if_neg (Nat.not_lt_zero _), Nat.sub_zero]
  cases hl : lineLength d.text line with
  | none => rw [text] at hl; rw [hl]; rfl
  | some n => rw [text] at hl; rw [hl]; simp

/-- **`get_max_line_length` is the length of the longest line.** -/
theorem getMaxLineLength_eq (h : d.IsTree) :
    ∃ n, d.getMaxLineLength = .ok n ∧ ((lines d.text).map List.length).max? = some n := by
  have hloop : ∀ (ids : List ElementID) (longest current : ℕ), (∀ y ∈ ids, y ∈ d.elements) →
      d.maxLineLengthFrom longest current ids =
        .ok ((((lines (ids.map d.charOf)).map List.length).modifyHead (current + ·)).foldl max
          longest) := by
    intro ids
    induction ids with
    | nil => exact fun _ _ _ => rfl
    | cons id ids ih =>
      intro longest current hids
      have hrest : ∀ y ∈ ids, y ∈ d.elements := fun y hy => hids y (List.mem_cons_of_mem _ hy)
      rw [maxLineLengthFrom, getCharacter_of_mem (hids id List.mem_cons_self), List.map_cons]
      simp only [bind, Except.bind]
      obtain ⟨l, ls, hl⟩ := List.exists_cons_of_ne_nil
        (List.splitOn_ne_nil newline (ids.map d.charOf))
      by_cases hc : d.charOf id = newline
      · rw [if_pos hc, hc, lines_cons_newline, ih _ _ hrest, lines, hl]
        simp
      · obtain ⟨l, ls, hl, hcl⟩ := lines_cons hc (ids.map d.charOf)
        rw [if_neg hc, hcl, ih _ _ hrest, hl]
        simp only [List.map_cons, List.modifyHead_cons, List.length_cons, Nat.add_assoc,
          Nat.add_comm 1]
  obtain ⟨l, ls, hl⟩ := List.exists_cons_of_ne_nil (List.splitOn_ne_nil newline d.text)
  refine ⟨((lines d.text).map List.length).foldl max 0, ?_, ?_⟩
  · rw [getMaxLineLength, h.visible_eq]
    refine (hloop _ 0 0 fun y hy => visible_mem hy).trans ?_
    rw [show ((0 + ·) : ℕ → ℕ) = id from funext Nat.zero_add, List.modifyHead_id]
    rfl
  · rw [lines, hl, List.map_cons, List.max?_cons', List.foldl_cons, Nat.zero_max]

/-- **`get_line_count` is the number of lines.** -/
theorem getLineCount_eq (h : d.IsTree) : d.getLineCount = .ok (lines d.text).length := by
  have hloop : ∀ (ids : List ElementID) (line : ℕ), (∀ y ∈ ids, y ∈ d.elements) →
      d.lineCountFrom (line + 1) ids = .ok (line + (lines (ids.map d.charOf)).length) := by
    intro ids
    induction ids with
    | nil => exact fun _ _ => rfl
    | cons id ids ih =>
      intro line hids
      have hrest : ∀ y ∈ ids, y ∈ d.elements := fun y hy => hids y (List.mem_cons_of_mem _ hy)
      rw [lineCountFrom, getCharacter_of_mem (hids id List.mem_cons_self), List.map_cons]
      by_cases hc : d.charOf id = newline
      · rw [hc, lines_cons_newline, List.length_cons]
        exact (ih (line + 1) hrest).trans (congrArg Except.ok (by omega))
      · obtain ⟨l, ls, hl, hcl⟩ := lines_cons hc (ids.map d.charOf)
        have hrec := ih line hrest
        rw [hl, List.length_cons] at hrec
        rw [hcl, List.length_cons]
        simp only [bind, Except.bind, if_neg hc]
        exact hrec
  rw [getLineCount, h.visible_eq, text]
  exact (hloop _ 0 fun y hy => visible_mem hy).trans (congrArg Except.ok (Nat.zero_add _))

/-- **`clamp_position` ends on the text**: the line exists and has the column. -/
theorem exists_clampPosition (h : d.IsTree) (requestedLine requestedColumn : ℕ) :
    ∃ line column n, d.clampPosition requestedLine requestedColumn = .ok (line, column) ∧
      lineLength d.text line = some n ∧ column ≤ n := by
  have hne : (lines d.text).length ≠ 0 := fun h0 =>
    List.splitOn_ne_nil newline d.text (List.length_eq_zero_iff.mp h0)
  have hlt : min requestedLine ((lines d.text).length - 1) < (lines d.text).length := by omega
  obtain ⟨n, hn⟩ : ∃ n, lineLength d.text (min requestedLine ((lines d.text).length - 1)) = some n :=
    ⟨_, by rw [lineLength, List.getElem?_eq_getElem hlt]; rfl⟩
  refine ⟨_, min requestedColumn n, n, ?_, hn, min_le_right _ _⟩
  rw [clampPosition, h.getLineCount_eq]
  simp only [bind, Except.bind, if_neg hne, h.getLineLength_eq, hn]
  rfl

/-- `clamp_position` against the text. -/
theorem clampPosition_eq (h : d.IsTree) (requestedLine requestedColumn : ℕ) :
    d.clampPosition requestedLine requestedColumn =
      .ok (min requestedLine ((lines d.text).length - 1), min requestedColumn
        ((lineLength d.text (min requestedLine ((lines d.text).length - 1))).getD 0)) := by
  have hne : (lines d.text).length ≠ 0 := fun h0 =>
    List.splitOn_ne_nil newline d.text (List.length_eq_zero_iff.mp h0)
  rw [clampPosition, h.getLineCount_eq]
  simp only [bind, Except.bind, if_neg hne, h.getLineLength_eq]
  rfl

/-- **At a position of the text there is an anchor.** -/
theorem exists_getAnchorAt (h : d.IsTree) {line column n : ℕ} (hl : lineLength d.text line = some n)
    (hc : column ≤ n) : ∃ x ∈ d.anchors, d.getAnchorAt line column = .ok (some x) := by
  obtain ⟨hp, hk⟩ := position_take_offset hl hc
  have hlt : offset d.text line column < d.anchors.length := by
    rw [length_anchors]
    omega
  exact ⟨_, List.getElem_mem hlt, by rw [h.getAnchorAt_eq hk hp, List.getElem?_eq_getElem hlt]⟩

/-- **`get_anchor_at` undoes `get_cursor_position`.** -/
theorem getAnchorAt_getCursorPosition (h : d.IsTree) {x : ElementID} (hx : x ∈ d.anchors) :
    ∃ line column, d.getCursorPosition x = .ok (line, column) ∧
      d.getAnchorAt line column = .ok (some x) := by
  obtain ⟨a, b, hl⟩ := List.append_of_mem hx
  have hlen : a.length ≤ d.text.length := by
    have := length_anchors d
    rw [hl] at this
    simp at this
    omega
  refine ⟨_, _, h.getCursorPosition_eq hl, ?_⟩
  rw [h.getAnchorAt_eq hlen rfl, hl]
  simp

/-- **`get_cursor_position` undoes `get_anchor_at`**, which finds an anchor at every position of the
text and at no other. -/
theorem getCursorPosition_getAnchorAt (h : d.IsTree) (line column : ℕ) :
    ∃ a, d.getAnchorAt line column = .ok a ∧
      (a.isSome ↔ ∃ n, lineLength d.text line = some n ∧ column ≤ n) ∧
      ∀ x ∈ a, x ∈ d.anchors ∧ d.getCursorPosition x = .ok (line, column) := by
  by_cases hp : ∃ n, lineLength d.text line = some n ∧ column ≤ n
  · obtain ⟨n, hn, hc⟩ := hp
    obtain ⟨hpos, hk⟩ := position_take_offset hn hc
    obtain ⟨x, hx, hax⟩ := h.exists_getAnchorAt hn hc
    refine ⟨some x, hax, iff_of_true rfl ⟨n, hn, hc⟩, ?_⟩
    rintro _ ⟨⟩
    rw [h.getAnchorAt_eq hk hpos] at hax
    obtain ⟨hlt, hget⟩ := List.getElem?_eq_some_iff.mp (Except.ok.inj hax)
    have hl := List.take_append_drop (offset d.text line column) d.anchors
    rw [List.drop_eq_getElem_cons hlt, hget] at hl
    refine ⟨hx, ?_⟩
    rw [h.getCursorPosition_eq hl.symm, List.length_take, min_eq_left hlt.le, hpos]
  · refine ⟨none, h.getAnchorAt_eq_none fun k hk he => hp ?_, iff_of_false (by simp) hp, by simp⟩
    obtain ⟨n, hn, hc, -⟩ := position_take hk
    rw [he] at hn hc
    exact ⟨n, hn, hc⟩

end IsTree

/-- **Text coordinates and anchors are in bijection**, in every document that a stream of operations
leads to. -/
theorem coordinates_of_after (ops : List Operation) :
    let d := after ops
    ∃ text, d.render = .ok text ∧
    -- the lines
    d.getLineCount = .ok (lines text).length ∧
    (∀ line, d.getLineLength line = .ok ((lines text)[line]?.map List.length)) ∧
    (∃ n, d.getMaxLineLength = .ok n ∧ ((lines text).map List.length).max? = some n) ∧
    -- from a position to its anchor
    (∀ line column, ∃ a, d.getAnchorAt line column = .ok a ∧
      (a.isSome ↔ ∃ n, (lines text)[line]?.map List.length = some n ∧ column ≤ n) ∧
      ∀ x ∈ a, (x = rootId ∨ d.isVisible x) ∧ d.getCursorPosition x = .ok (line, column)) ∧
    -- and back
    (∀ x, x = rootId ∨ d.isVisible x → ∃ line column,
      d.getCursorPosition x = .ok (line, column) ∧ d.getAnchorAt line column = .ok (some x)) ∧
    (∀ requestedLine requestedColumn, ∃ line column x,
      d.clampPosition requestedLine requestedColumn = .ok (line, column) ∧
        d.getAnchorAt line column = .ok (some x)) ∧
    ∀ x, d.isVisible x → ∃ line column,
      d.getLineColumn x = .ok (line, column) ∧ d.getElementAt line column = .ok (some x) := by
  have h := isTree_after ops
  refine ⟨(after ops).text, h.render_eq_text, h.getLineCount_eq, h.getLineLength_eq,
    h.getMaxLineLength_eq, fun line column => ?_,
    fun x hx => h.getAnchorAt_getCursorPosition (h.mem_anchors.mpr hx), fun line column => ?_,
    fun x hx => h.getElementAt_getLineColumn hx⟩
  · obtain ⟨a, ha, hsome, hback⟩ := h.getCursorPosition_getAnchorAt line column
    exact ⟨a, ha, hsome, fun x hx => (hback x hx).imp_left h.mem_anchors.mp⟩
  · obtain ⟨l, c, n, hclamp, hn, hc⟩ := h.exists_clampPosition line column
    obtain ⟨x, -, hx⟩ := h.exists_getAnchorAt hn hc
    exact ⟨l, c, x, hclamp, hx⟩

end Document

end CrdtEditor
