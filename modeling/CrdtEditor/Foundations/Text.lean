import CrdtEditor.Foundations.Exception

/-!
# Foundations/Text — byte strings, decimal numbers and delimiters

The text side of a C++ program, as far as a delimiter-based codec needs it: byte strings ordered
byte by byte, `std::to_string` (`decimal`) and the lenient `std::stoull` that reads it back
(`stoull_decimal`), `std::views::split` and the cut at a first delimiter.  A codec built from these
round-trips once its fields avoid the delimiters: `split_intercalate`, `cutAt_append`.
-/

open scoped List

/-! ## Machine words in their numeric order -/

instance Text.linearOrderUInt8 : LinearOrder UInt8 where
  le_refl := UInt8.le_refl
  le_trans _ _ _ := UInt8.le_trans
  lt_iff_le_not_ge a b := by simp only [UInt8.lt_iff_toNat_lt, UInt8.le_iff_toNat_le]; omega
  le_antisymm _ _ := UInt8.le_antisymm
  le_total := UInt8.le_total
  toDecidableLE := inferInstance

instance Text.linearOrderUInt64 : LinearOrder UInt64 where
  le_refl := UInt64.le_refl
  le_trans _ _ _ := UInt64.le_trans
  lt_iff_le_not_ge a b := by simp only [UInt64.lt_iff_toNat_lt, UInt64.le_iff_toNat_le]; omega
  le_antisymm _ _ := UInt64.le_antisymm
  le_total := UInt64.le_total
  toDecidableLE := inferInstance

namespace Text

/-! ## The bytes a codec treats specially -/

abbrev nul : UInt8 := 0

abbrev newline : UInt8 := 10

abbrev comma : UInt8 := 44

abbrev bar : UInt8 := 124

/-! ## Decimal numbers -/

/-- The ASCII digit of a number below ten. -/
def digit (d : ℕ) : UInt8 := UInt8.ofNat (48 + d)

/-- `std::to_string` of an unsigned number. -/
def decimal (n : ℕ) : Str := if n = 0 then [digit 0] else (Nat.digits 10 n).reverse.map digit

/-- `std::isdigit`. -/
def isDigit (b : UInt8) : Bool := 48 ≤ b.toNat && b.toNat ≤ 57

/-- The bytes `std::isspace` accepts in the C locale. -/
def isSpace (b : UInt8) : Bool := b.toNat = 32 || (9 ≤ b.toNat && b.toNat ≤ 13)

/-- The number a digit string names. -/
def value (s : Str) : ℕ := s.foldl (fun v b => 10 * v + (b.toNat - 48)) 0

theorem toNat_digit {d : ℕ} (h : d < 10) : (digit d).toNat = 48 + d := by
  rw [digit, UInt8.toNat_ofNat']
  omega

theorem isDigit_digit {d : ℕ} (h : d < 10) : isDigit (digit d) = true := by
  rw [isDigit, toNat_digit h]
  simp only [Bool.and_eq_true, decide_eq_true_eq]
  omega

/-- A printed number consists of digits. -/
theorem isDigit_of_mem_decimal {n : ℕ} {b : UInt8} (hb : b ∈ decimal n) : isDigit b = true := by
  rw [decimal] at hb
  split at hb
  · rw [List.mem_singleton.mp hb]
    exact isDigit_digit (by decide)
  · obtain ⟨d, hd, rfl⟩ := List.mem_map.mp hb
    exact isDigit_digit (Nat.digits_lt_base (by decide) (List.mem_reverse.mp hd))

/-- It has at least one. -/
theorem decimal_ne_nil (n : ℕ) : decimal n ≠ [] := by
  rw [decimal]
  split
  case isTrue => simp
  case isFalse h => simpa [Nat.digits_eq_nil_iff_eq_zero] using h

/-- **Printing then reading a number gives it back.** -/
theorem value_decimal (n : ℕ) : value (decimal n) = n := by
  have hdigits : ∀ l : List ℕ, (∀ d ∈ l, d < 10) →
      value (l.reverse.map digit) = Nat.ofDigits 10 l := by
    intro l
    induction l with
    | nil => intro _; rfl
    | cons d l ih =>
      intro h
      have hd : d < 10 := h d (by simp)
      have hl := ih fun e he => h e (List.mem_cons_of_mem _ he)
      rw [value] at hl ⊢
      rw [List.reverse_cons, List.map_append, List.foldl_append, hl, Nat.ofDigits_cons]
      simp only [List.map_cons, List.map_nil, List.foldl_cons, List.foldl_nil, toNat_digit hd]
      omega
  rw [decimal]
  split
  case isTrue h => subst h; rfl
  case isFalse h =>
    rw [hdigits _ fun d hd => Nat.digits_lt_base (by decide) hd, Nat.ofDigits_digits]

/-- A number as `std::to_string` prints it: digits, and no zero in front of others. -/
def Numeral (t : Str) : Prop :=
  t ≠ [] ∧ (∀ b ∈ t, isDigit b = true) ∧ (t.head? = some (digit 0) → t = [digit 0])

instance (t : Str) : Decidable (Numeral t) := inferInstanceAs (Decidable (_ ∧ _ ∧ _))

/-- Reading a string of digits is Horner's rule, from its last digit. -/
theorem value_eq_ofDigits (t : Str) :
    value t = Nat.ofDigits 10 (t.reverse.map fun b => b.toNat - 48) := by
  induction t using List.reverseRecOn with
  | nil => rfl
  | append_singleton t b ih =>
    rw [value] at ih ⊢
    rw [List.foldl_append, ih, List.reverse_append, List.reverse_singleton, List.singleton_append,
      List.map_cons, Nat.ofDigits_cons, List.foldl_cons, List.foldl_nil]
    exact Nat.add_comm _ _

/-- A digit is printed as it was read. -/
theorem digit_sub {b : UInt8} (h : isDigit b = true) : digit (b.toNat - 48) = b := by
  rw [isDigit, Bool.and_eq_true, decide_eq_true_eq] at h
  rw [digit, Nat.add_sub_cancel' h.1, UInt8.ofNat_toNat]

/-- **Reading then printing a numeral gives it back.** -/
theorem decimal_value {t : Str} (h : Numeral t) : decimal (value t) = t := by
  obtain ⟨hne, hdigits, hzero⟩ := h
  obtain ⟨b, s, rfl⟩ := List.exists_cons_of_ne_nil hne
  by_cases hb : b = digit 0
  · rw [hzero (by rw [List.head?_cons, hb])]
    rfl
  · have hread : Nat.digits 10 (value (b :: s)) = (b :: s).reverse.map fun b => b.toNat - 48 := by
      rw [value_eq_ofDigits]
      refine Nat.digits_ofDigits 10 (by decide) _ (fun d hd => ?_) fun hl => ?_
      · obtain ⟨c, hc, rfl⟩ := List.mem_map.mp hd
        have hdigit := hdigits c (List.mem_reverse.mp hc)
        rw [isDigit, Bool.and_eq_true, decide_eq_true_eq, decide_eq_true_eq] at hdigit
        omega
      · rw [List.getLast_map, List.getLast_reverse, List.head_cons]
        intro h0
        have := digit_sub (hdigits b List.mem_cons_self)
        rw [h0] at this
        exact hb this.symm
    have hpos : value (b :: s) ≠ 0 := by
      intro h0
      rw [h0, Nat.digits_zero] at hread
      exact absurd (congrArg List.length hread) (by simp)
    rw [decimal, if_neg hpos, hread, ← List.map_reverse, List.reverse_reverse, List.map_map]
    calc (b :: s).map (digit ∘ fun b => b.toNat - 48)
        = (b :: s).map id := List.map_congr_left fun c hc => digit_sub (hdigits c hc)
      _ = b :: s := List.map_id _

/-- What is printed is a numeral. -/
theorem numeral_decimal (n : ℕ) : Numeral (decimal n) := by
  refine ⟨decimal_ne_nil n, fun b hb => isDigit_of_mem_decimal hb, fun hhead => ?_⟩
  rw [decimal] at hhead ⊢
  split_ifs at hhead ⊢ with h0
  · rfl
  · exfalso
    have hne : Nat.digits 10 n ≠ [] := Nat.digits_ne_nil_iff_ne_zero.mpr h0
    rw [List.head?_map, List.head?_reverse, List.getLast?_eq_getLast_of_ne_nil hne, Option.map_some,
      Option.some_inj] at hhead
    have hlt : (Nat.digits 10 n).getLast hne < 10 :=
      Nat.digits_lt_base (by decide) (List.getLast_mem hne)
    have hzero := congrArg UInt8.toNat hhead
    rw [toNat_digit hlt, toNat_digit (by decide)] at hzero
    exact Nat.getLast_digit_ne_zero 10 h0 (by omega)

/-- What `std::stoul` and `std::stoull` share (both read 64 bits): leading blanks, an optional sign,
then the longest run of digits; a minus sign negates modulo the word size and whatever follows the
digits is ignored.  `fname` is the text of the exceptions. -/
def parse (fname s : Str) : Except Exn UInt64 :=
  let t := s.dropWhile isSpace
  let negative := t.head? = some 45
  let u := if t.head? = some 43 ∨ negative then t.tail else t
  let ds := u.takeWhile isDigit
  if ds = [] then .error (.invalidArgument fname)
  else if 2 ^ 64 ≤ value ds then .error (.outOfRange fname)
  else .ok (if negative then -UInt64.ofNat (value ds) else UInt64.ofNat (value ds))

/-- `std::stoull`. -/
def stoull (s : Str) : Except Exn UInt64 := parse (str "stoull") s

/-- `std::stoul`, where `unsigned long` has 64 bits. -/
def stoul (s : Str) : Except Exn UInt64 := parse (str "stoul") s

/-- **A printed number below `2 ^ 64` is read back.** -/
theorem parse_decimal (fname : Str) {n : ℕ} (hn : n < 2 ^ 64) :
    parse fname (decimal n) = .ok (UInt64.ofNat n) := by
  obtain ⟨b, s, hs⟩ := List.exists_cons_of_ne_nil (decimal_ne_nil n)
  have hall : ∀ c ∈ b :: s, isDigit c = true := fun c hc => isDigit_of_mem_decimal (hs ▸ hc)
  have hb := hall b (by simp)
  rw [isDigit, Bool.and_eq_true, decide_eq_true_eq, decide_eq_true_eq] at hb
  have hspace : isSpace b = false := by
    simp only [isSpace, Bool.or_eq_false_iff, Bool.and_eq_false_iff, decide_eq_false_iff_not]
    omega
  have hplus : ¬ (some b = some (43 : UInt8)) := fun h => by
    have := congrArg UInt8.toNat (Option.some.inj h); simp at this; omega
  have hminus : ¬ (some b = some (45 : UInt8)) := fun h => by
    have := congrArg UInt8.toNat (Option.some.inj h); simp at this; omega
  have hvalue : value (b :: s) = n := hs ▸ value_decimal n
  have hdrop : (b :: s).dropWhile isSpace = b :: s := by
    rw [List.dropWhile_cons_of_neg (by simp [hspace])]
  rw [hs, parse]
  simp only [hdrop, List.head?_cons, hplus, hminus, or_self, if_false,
    List.takeWhile_eq_self_iff.mpr hall, hvalue]
  rw [if_neg (by simp), if_neg (by omega)]

/-- **A printed 64-bit number is read back.** -/
theorem stoull_decimal (n : UInt64) : stoull (decimal n.toNat) = .ok n := by
  rw [stoull, parse_decimal _ n.toNat_lt, UInt64.ofNat_toNat]

/-- A number below `10 ^ k` prints in at most `k` digits, zero in one. -/
theorem length_decimal_le {n k : ℕ} (hk : 0 < k) (h : n < 10 ^ k) : (decimal n).length ≤ k := by
  rw [decimal]
  split
  · exact hk
  · rw [List.length_map, List.length_reverse]
    exact (Nat.digits_length_le_iff (by decide) n).mpr h

/-! ## Delimiters -/

/-- `std::views::split` on one byte: an empty source has no piece at all. -/
def split (d : UInt8) (s : Str) : List Str := if s = [] then [] else s.splitOn d

/-- **Joining pieces that avoid the delimiter and splitting again gives the pieces back.** -/
theorem split_intercalate (d : UInt8) {ls : List Str} (h : ∀ l ∈ ls, d ∉ l)
    (hne : [d].intercalate ls ≠ []) : split d ([d].intercalate ls) = ls := by
  rw [split, if_neg hne]
  refine List.splitOn_intercalate d h ?_
  rintro rfl
  exact hne rfl

/-- A piece holds no delimiter, and is a part of the string. -/
theorem of_mem_splitOn {d : UInt8} : ∀ {s l : Str}, l ∈ s.splitOn d → d ∉ l ∧ l <+ s
  | [], l, h => by
      rw [List.splitOn_nil, List.mem_singleton] at h
      simp [h]
  | c :: s, l, h => by
      rw [List.splitOn_cons_eq_if_modifyHead] at h
      split at h
      case isTrue =>
        rcases List.mem_cons.mp h with rfl | h
        · simp
        · obtain ⟨hd, hs⟩ := of_mem_splitOn h
          exact ⟨hd, hs.cons c⟩
      case isFalse hc =>
        have hcd : d ≠ c := fun he => hc (by simp [he])
        obtain ⟨p, ps, hps⟩ := List.exists_cons_of_ne_nil (List.splitOn_ne_nil d s)
        rw [hps, List.modifyHead_cons] at h
        rcases List.mem_cons.mp h with rfl | h
        · obtain ⟨hd, hs⟩ := of_mem_splitOn (hps ▸ List.mem_cons_self : p ∈ s.splitOn d)
          exact ⟨fun hm => (List.mem_cons.mp hm).elim hcd hd, hs.cons_cons c⟩
        · obtain ⟨hd, hs⟩ := of_mem_splitOn (hps ▸ List.mem_cons_of_mem p h : l ∈ s.splitOn d)
          exact ⟨hd, hs.cons c⟩

/-- **A piece avoids the delimiter and is part of the source.** -/
theorem of_mem_split {d : UInt8} {s l : Str} (h : l ∈ split d s) : d ∉ l ∧ l <+ s := by
  rw [split] at h
  split at h
  · exact absurd h List.not_mem_nil
  · exact of_mem_splitOn h

/-- Two joined parts, joined. -/
theorem intercalate_append_cons (d : UInt8) : ∀ (l : Str) (ls : List Str) (m : Str) (ms : List Str),
    [d].intercalate (l :: (ls ++ m :: ms))
      = [d].intercalate (l :: ls) ++ d :: [d].intercalate (m :: ms)
  | l, [], m, ms => by
      rw [List.nil_append, List.intercalate_cons_cons, List.intercalate_singleton, List.append_assoc,
        List.singleton_append]
  | l, k :: ks, m, ms => by
      rw [List.cons_append, List.intercalate_cons_cons, intercalate_append_cons d k ks m ms,
        List.intercalate_cons_cons, List.append_assoc, List.append_assoc, List.append_assoc]

/-- What is put in front of the first delimiter belongs to the first piece. -/
theorem splitOn_append_left {d : UInt8} {a : Str} (ha : d ∉ a) (s : Str) :
    ∃ q qs, s.splitOn d = q :: qs ∧ (a ++ s).splitOn d = (a ++ q) :: qs := by
  obtain ⟨q, qs, hs⟩ := List.exists_cons_of_ne_nil (List.splitOn_ne_nil d s)
  have hpieces : ∀ l ∈ (a ++ q) :: qs, d ∉ l := by
    intro l hl
    obtain rfl | hl := List.mem_cons.mp hl
    · rw [List.mem_append, not_or]
      exact ⟨ha, (of_mem_splitOn (hs ▸ List.mem_cons_self)).1⟩
    · exact (of_mem_splitOn (hs ▸ List.mem_cons_of_mem q hl)).1
  have hjoin : [d].intercalate ((a ++ q) :: qs) = a ++ s := by
    have hback : [d].intercalate (q :: qs) = s := hs ▸ List.intercalate_splitOn d
    rw [← hback]
    cases qs with
    | nil => simp only [List.intercalate_singleton]
    | cons r rs => simp only [List.intercalate_cons_cons, List.append_assoc]
  exact ⟨q, qs, hs, hjoin ▸ List.splitOn_intercalate d hpieces (List.cons_ne_nil _ _)⟩

/-- The text before and after the first occurrence of a delimiter. -/
def cutAt (d : UInt8) : Str → Option (Str × Str)
  | [] => none
  | c :: s => if c = d then some ([], s) else (cutAt d s).map fun p => (c :: p.1, p.2)

/-- Cutting what was joined at its first delimiter. -/
theorem cutAt_append {d : UInt8} (b : Str) : ∀ {a : Str}, d ∉ a →
    cutAt d (a ++ d :: b) = some (a, b)
  | [], _ => by rw [List.nil_append, cutAt, if_pos rfl]
  | c :: a, h => by
      have hc : c ≠ d := fun hcd => h (hcd ▸ List.mem_cons_self)
      rw [List.cons_append, cutAt, if_neg hc,
        cutAt_append b fun ha => h (List.mem_cons_of_mem c ha), Option.map_some]

/-- A text is cut at its last delimiter in one way. -/
theorem eq_of_append_cons_eq {d : UInt8} {a a' b b' : Str} (hb : d ∉ b) (hb' : d ∉ b')
    (h : a ++ d :: b = a' ++ d :: b') : a = a' ∧ b = b' := by
  have hrev : b.reverse ++ d :: a.reverse = b'.reverse ++ d :: a'.reverse := by
    simpa using congrArg List.reverse h
  have hcut := congrArg (cutAt d) hrev
  rw [cutAt_append _ (by simpa using hb), cutAt_append _ (by simpa using hb')] at hcut
  simpa [and_comm] using hcut

/-- Joining what was cut. -/
theorem cutAt_eq_some {d : UInt8} : ∀ {s a b : Str}, cutAt d s = some (a, b) →
    s = a ++ d :: b ∧ d ∉ a
  | [], _, _, h => by simp [cutAt] at h
  | c :: s, a, b, h => by
      rw [cutAt] at h
      split at h
      case isTrue hc =>
        obtain ⟨rfl, rfl⟩ := Prod.mk.inj (Option.some.inj h)
        exact ⟨by rw [hc, List.nil_append], by simp⟩
      case isFalse hc =>
        obtain ⟨⟨a', b'⟩, hp, hab⟩ := Option.map_eq_some_iff.mp h
        obtain ⟨rfl, rfl⟩ := Prod.mk.inj hab
        obtain ⟨rfl, hd⟩ := cutAt_eq_some hp
        refine ⟨rfl, fun hm => ?_⟩
        rcases List.mem_cons.mp hm with rfl | hm
        · exact hc rfl
        · exact hd hm

end Text
