import CrdtEditor.Foundations.Text

/-!
# Foundations/Lines — lines and columns of a text

A text is cut into lines at its newlines.  `position s` is the line and column behind `s`, `offset`
goes back from a line and column to a number of characters; on the positions a text has they are
inverse (`position_take_offset`, `exists_offset`), and no two prefixes of a text end at one position
(`position_take_injective`).
-/

namespace Text

/-- Where the character behind `c` stands. -/
def advance (p : ℕ × ℕ) (c : UInt8) : ℕ × ℕ := if c = newline then (p.1 + 1, 0) else (p.1, p.2 + 1)

/-- The line and column behind a text. -/
def position (s : Str) : ℕ × ℕ := s.foldl advance (0, 0)

/-- The lines of a text, without their newlines. -/
def lines (s : Str) : List Str := s.splitOn newline

/-- The length of a line, if there is such a line. -/
def lineLength (s : Str) (line : ℕ) : Option ℕ := (lines s)[line]?.map List.length

/-- How many characters stand before a line and column. -/
def offset (s : Str) (line column : ℕ) : ℕ :=
  (((lines s).take line).map fun l => l.length + 1).sum + column

/-- A newline in front is an empty line in front. -/
theorem lines_cons_newline (s : Str) : lines (newline :: s) = [] :: lines s := by
  rw [lines, List.splitOn_cons_eq_if_modifyHead, if_pos (by rfl), lines]

/-- Any other character lengthens the first line. -/
theorem lines_cons {c : UInt8} (hc : c ≠ newline) (s : Str) :
    ∃ l ls, lines s = l :: ls ∧ lines (c :: s) = (c :: l) :: ls := by
  obtain ⟨l, ls, h⟩ := List.exists_cons_of_ne_nil (List.splitOn_ne_nil newline s)
  refine ⟨l, ls, h, ?_⟩
  rw [lines, List.splitOn_cons_eq_if_modifyHead, if_neg (by simpa using hc), h, List.modifyHead_cons]

@[simp] theorem offset_zero (s : Str) (column : ℕ) : offset s 0 column = column := by simp [offset]

/-- Behind a leading newline every offset is one larger, and the lines count from one. -/
theorem offset_cons_newline (s : Str) (line column : ℕ) :
    offset (newline :: s) (line + 1) column = offset s line column + 1 := by
  simp only [offset, lines_cons_newline, List.take_succ_cons, List.map_cons, List.sum_cons,
    List.length_nil]
  omega

/-- So it is behind any other character, below the first line. -/
theorem offset_cons {c : UInt8} (hc : c ≠ newline) (s : Str) (line column : ℕ) :
    offset (c :: s) (line + 1) column = offset s (line + 1) column + 1 := by
  obtain ⟨l, ls, hs, hcs⟩ := lines_cons hc s
  simp only [offset, hs, hcs, List.take_succ_cons, List.map_cons, List.sum_cons, List.length_cons]
  omega

/-- Lengths below a leading newline. -/
theorem lineLength_cons_newline (s : Str) (line : ℕ) :
    lineLength (newline :: s) (line + 1) = lineLength s line := by
  rw [lineLength, lineLength, lines_cons_newline, List.getElem?_cons_succ]

/-- Lengths below the first line. -/
theorem lineLength_cons {c : UInt8} (hc : c ≠ newline) (s : Str) (line : ℕ) :
    lineLength (c :: s) (line + 1) = lineLength s (line + 1) := by
  obtain ⟨l, ls, hs, hcs⟩ := lines_cons hc s
  rw [lineLength, lineLength, hs, hcs, List.getElem?_cons_succ, List.getElem?_cons_succ]

/-- The first line is one longer. -/
theorem lineLength_cons_zero {c : UInt8} (hc : c ≠ newline) (s : Str) :
    lineLength (c :: s) 0 = (lineLength s 0).map (· + 1) := by
  obtain ⟨l, ls, hs, hcs⟩ := lines_cons hc s
  simp [lineLength, hs, hcs]

/-- The first line always exists. -/
theorem exists_lineLength_zero (s : Str) : ∃ n, lineLength s 0 = some n := by
  obtain ⟨l, ls, h⟩ := List.exists_cons_of_ne_nil (List.splitOn_ne_nil newline s)
  exact ⟨l.length, by simp [lineLength, lines, h]⟩

/-- **The prefix that ends at a line and column ends there.** -/
theorem position_take_offset {s : Str} {line n column : ℕ} (h : lineLength s line = some n)
    (hc : column ≤ n) :
    position (s.take (offset s line column)) = (line, column) ∧ offset s line column ≤ s.length := by
  -- from any start, which the lines and the columns of the first line are counted on from
  have hrun : ∀ (s : Str) (line n column l₀ c₀ : ℕ), lineLength s line = some n → column ≤ n →
      (s.take (offset s line column)).foldl advance (l₀, c₀) =
          (l₀ + line, if line = 0 then c₀ + column else column) ∧
        offset s line column ≤ s.length := by
    intro s
    induction s with
    | nil =>
      intro line n column l₀ c₀ h hc
      cases line with
      | zero =>
        obtain rfl : 0 = n := Option.some.inj h
        obtain rfl : column = 0 := by omega
        simp
      | succ line => simp [lineLength, lines] at h
    | cons a s ih =>
      intro line n column l₀ c₀ h hc
      by_cases ha : a = newline
      · subst ha
        cases line with
        | zero =>
          obtain rfl : 0 = n := by simpa [lineLength, lines_cons_newline] using h
          obtain rfl : column = 0 := by omega
          simp
        | succ line =>
          rw [lineLength_cons_newline] at h
          obtain ⟨hfold, hlen⟩ := ih line n column (l₀ + 1) 0 h hc
          rw [offset_cons_newline, List.take_succ_cons, List.foldl_cons, advance, if_pos rfl, hfold]
          refine ⟨?_, Nat.succ_le_succ hlen⟩
          simp
          omega
      · cases line with
        | zero =>
          rw [lineLength_cons_zero ha, Option.map_eq_some_iff] at h
          obtain ⟨m, hm, rfl⟩ := h
          cases column with
          | zero => simp
          | succ column =>
            obtain ⟨hfold, hlen⟩ := ih 0 m column l₀ (c₀ + 1) hm (by omega)
            rw [offset_zero] at hfold hlen ⊢
            rw [List.take_succ_cons, List.foldl_cons, advance, if_neg ha, hfold]
            refine ⟨?_, Nat.succ_le_succ hlen⟩
            simp
            omega
        | succ line =>
          rw [lineLength_cons ha] at h
          obtain ⟨hfold, hlen⟩ := ih (line + 1) n column l₀ (c₀ + 1) h hc
          rw [offset_cons ha, List.take_succ_cons, List.foldl_cons, advance, if_neg ha, hfold]
          exact ⟨by simp, Nat.succ_le_succ hlen⟩
  simpa [position] using hrun s line n column 0 0 h hc

/-- **Every prefix ends at some line and column.** -/
theorem exists_offset : ∀ {s : Str} {k : ℕ}, k ≤ s.length →
    ∃ line n column, lineLength s line = some n ∧ column ≤ n ∧ offset s line column = k
  | s, 0, _ => by
      obtain ⟨n, hn⟩ := exists_lineLength_zero s
      exact ⟨0, n, 0, hn, Nat.zero_le n, offset_zero s 0⟩
  | [], k + 1, hk => absurd hk (by simp)
  | a :: s, k + 1, hk => by
      obtain ⟨line, n, column, hn, hc, hoff⟩ := exists_offset (Nat.le_of_succ_le_succ hk)
      by_cases ha : a = newline
      · subst ha
        refine ⟨line + 1, n, column, ?_, hc, ?_⟩
        · rw [lineLength_cons_newline, hn]
        · rw [offset_cons_newline, hoff]
      · cases line with
        | zero =>
          refine ⟨0, n + 1, column + 1, ?_, Nat.succ_le_succ hc, ?_⟩
          · rw [lineLength_cons_zero ha, hn]
            rfl
          · rw [offset_zero] at hoff ⊢
            omega
        | succ line =>
          refine ⟨line + 1, n, column, ?_, hc, ?_⟩
          · rw [lineLength_cons ha, hn]
          · rw [offset_cons ha, hoff]

/-- A text has at most one line more than characters. -/
theorem length_lines_le (s : Str) : (lines s).length ≤ s.length + 1 := by
  induction s with
  | nil => rfl
  | cons c s ih =>
    rw [List.length_cons]
    by_cases hc : c = newline
    · rw [hc, lines_cons_newline, List.length_cons]
      omega
    · obtain ⟨l, ls, hs, hcs⟩ := lines_cons hc s
      rw [hs, List.length_cons] at ih
      rw [hcs, List.length_cons]
      omega

/-- A position is at most as far as the text is long. -/
theorem foldl_advance_le (s : Str) (p : ℕ × ℕ) :
    (s.foldl advance p).1 + (s.foldl advance p).2 ≤ p.1 + p.2 + s.length := by
  induction s generalizing p with
  | nil => exact le_rfl
  | cons c s ih =>
    have hstep : (advance p c).1 + (advance p c).2 ≤ p.1 + p.2 + 1 := by
      rw [advance]
      split <;> dsimp only <;> omega
    have hrest := ih (advance p c)
    rw [List.foldl_cons, List.length_cons]
    omega

/-- A position is no farther than the text in front of it is long. -/
theorem position_le (s : Str) : (position s).1 + (position s).2 ≤ s.length := by
  have := foldl_advance_le s (0, 0)
  rwa [Nat.add_zero, Nat.zero_add] at this

/-- Reading on stays on the line and moves right, or goes to a later line. -/
theorem foldl_advance_cases : ∀ (s : Str) (p : ℕ × ℕ),
    p.1 < (s.foldl advance p).1 ∨
      (s.foldl advance p).1 = p.1 ∧ (s.foldl advance p).2 = p.2 + s.length
  | [], _ => Or.inr ⟨rfl, rfl⟩
  | a :: s, p => by
      rw [List.foldl_cons]
      have h := foldl_advance_cases s (advance p a)
      by_cases ha : a = newline
      · rw [advance, if_pos ha] at h ⊢
        refine Or.inl (h.elim (fun h => ?_) fun h => ?_)
        · exact (Nat.lt_succ_self _).trans h
        · rw [h.1]
          exact Nat.lt_succ_self _
      · rw [advance, if_neg ha] at h ⊢
        refine h.imp id fun h => ⟨h.1, ?_⟩
        rw [h.2, List.length_cons]
        omega

/-- **Two prefixes of a text end at two positions.** -/
theorem position_take_injective {s : Str} {i j : ℕ} (hi : i ≤ s.length) (hj : j ≤ s.length)
    (h : position (s.take i) = position (s.take j)) : i = j := by
  have hlt : ∀ {i j : ℕ}, i < j → j ≤ s.length →
      position (s.take i) ≠ position (s.take j) := fun {i j} hij hj he => by
    have hsplit : s.take j = s.take i ++ (s.take j).drop i := by
      have := List.take_append_drop i (s.take j)
      rwa [List.take_take, min_eq_left hij.le, eq_comm] at this
    have hlen : ((s.take j).drop i).length = j - i := by
      rw [List.length_drop, List.length_take, min_eq_left hj]
    rw [hsplit, position, position, List.foldl_append] at he
    have := foldl_advance_cases ((s.take j).drop i) ((s.take i).foldl advance (0, 0))
    rw [← he, hlen] at this
    omega
  obtain hij | rfl | hij := Nat.lt_trichotomy i j
  exacts [absurd h (hlt hij hj), rfl, absurd h.symm (hlt hij hi)]

/-- The position of a prefix is a position of the text. -/
theorem position_take {s : Str} {k : ℕ} (hk : k ≤ s.length) :
    ∃ n, lineLength s (position (s.take k)).1 = some n ∧ (position (s.take k)).2 ≤ n ∧
      offset s (position (s.take k)).1 (position (s.take k)).2 = k := by
  obtain ⟨line, n, column, hn, hc, rfl⟩ := exists_offset hk
  rw [(position_take_offset hn hc).1]
  exact ⟨n, hn, hc, rfl⟩

/-! ## The characters of a text at their positions -/

/-- The characters of a text that begins at a position, each with its position. -/
def placedFrom : ℕ × ℕ → Str → List ((ℕ × ℕ) × UInt8)
  | _, [] => []
  | p, c :: s => (p, c) :: placedFrom (advance p c) s

/-- A text with the position of every character. -/
def placed (s : Str) : List ((ℕ × ℕ) × UInt8) := placedFrom (0, 0) s

/-- The position of a character is where the text in front of it ends. -/
theorem getElem?_placedFrom (p : ℕ × ℕ) (s : Str) (k : ℕ) :
    (placedFrom p s)[k]? = s[k]?.map fun c => ((s.take k).foldl advance p, c) := by
  induction s generalizing p k with
  | nil => rfl
  | cons c s ih =>
    cases k with
    | zero => rfl
    | succ k =>
      rw [placedFrom, List.getElem?_cons_succ, ih, List.getElem?_cons_succ, List.take_succ_cons,
        List.foldl_cons]

/-- There is one for every character. -/
theorem length_placedFrom (p : ℕ × ℕ) (s : Str) : (placedFrom p s).length = s.length := by
  induction s generalizing p with
  | nil => rfl
  | cons c s ih => exact congrArg Nat.succ (ih _)

/-- **Every character stands where the text in front of it ends.** -/
theorem getElem?_placed (s : Str) (k : ℕ) :
    (placed s)[k]? = s[k]?.map fun c => (position (s.take k), c) :=
  getElem?_placedFrom (0, 0) s k

end Text
