import CrdtEditor.Wire.OperationCodec

/-!
# Wire/Canonical — the encoder's language and what the decoder accepts

Both are properties of the pieces between the bars of a text.  The encoder writes numerals and puts the
site ids behind them as they are, so their bars make pieces of their own: `encoded_iff`.  The decoder
wants the number of pieces of an operation without such bars, and reads numbers as `std::stoull` and
`std::stoul` do: `readable_iff`.

So the two differ on texts with a piece that is read but not written (`Lax`), and on texts of operations
with a bar in a site id (`Barred`), and on no others: `exact_iff`.
-/

namespace CrdtEditor

open Text

/-! ## Numbers and ids -/

namespace ElementID

/-- The text of an id: a numeral of 64 bits, a comma, and anything. -/
def IsText (t : Str) : Prop := ∃ p ∈ cutAt comma t, Numeral p.1 ∧ value p.1 < 2 ^ 64

/-- A text read as an id: before the first comma `std::stoull` finds a number. -/
def Reads (t : Str) : Prop := ∃ p ∈ cutAt comma t, ∃ n, stoull p.1 = .ok n

theorem isText_iff {t : Str} : IsText t ↔ ∃ e : ElementID, e.serialize = t := by
  constructor
  · rintro ⟨⟨a, b⟩, hcut, hnumeral, hlt⟩
    have ht := (cutAt_eq_some (a := a) (b := b) hcut).1
    refine ⟨⟨UInt64.ofNat (value a), b⟩, ?_⟩
    have hlamport : (UInt64.ofNat (value a)).toNat = value a := by
      rw [UInt64.toNat_ofNat', Nat.mod_eq_of_lt hlt]
    rw [serialize, hlamport, decimal_value hnumeral, ht]
  · rintro ⟨e, rfl⟩
    have hcut : cutAt comma e.serialize = some (decimal e.lamport.toNat, e.siteId) :=
      cutAt_append _ (notMem_decimal (not_isDigit_of_lt (by decide)) _)
    refine ⟨_, hcut, numeral_decimal _, ?_⟩
    rw [value_decimal]
    exact e.lamport.toNat_lt

theorem reads_iff {t : Str} : Reads t ↔ ∃ e, deserialize t = .ok e := by
  constructor
  · rintro ⟨p, hcut, n, hn⟩
    exact ⟨⟨n, p.2⟩, deserialize_eq_ok.mpr ⟨p.1, hcut, hn⟩⟩
  · rintro ⟨e, he⟩
    obtain ⟨a, hcut, hl⟩ := deserialize_eq_ok.mp he
    exact ⟨(a, e.siteId), hcut, e.lamport, hl⟩

theorem IsText.reads {t : Str} (h : IsText t) : Reads t := by
  obtain ⟨e, rfl⟩ := isText_iff.mp h
  exact reads_iff.mpr ⟨e, deserialize_serialize e⟩

end ElementID

namespace InsertOperation

/-- The text of a character: a numeral below 256. -/
def IsCharacter (t : Str) : Prop := Numeral t ∧ value t < 256

/-- A text read as a character: its number is below 256 once it is narrowed to 32 bits. -/
def ReadsCharacter (t : Str) : Prop := ∃ v, stoul t = .ok v ∧ v.toNat % 2 ^ 32 ≤ 255

theorem isCharacter_iff {t : Str} : IsCharacter t ↔ ∃ c : UInt8, decimal c.toNat = t := by
  constructor
  · rintro ⟨hnumeral, hlt⟩
    refine ⟨UInt8.ofNat (value t), ?_⟩
    rw [UInt8.toNat_ofNat', Nat.mod_eq_of_lt hlt, decimal_value hnumeral]
  · rintro ⟨c, rfl⟩
    refine ⟨numeral_decimal _, ?_⟩
    rw [value_decimal]
    exact c.toNat_lt

theorem IsCharacter.reads {t : Str} (h : IsCharacter t) : ReadsCharacter t := by
  obtain ⟨c, rfl⟩ := isCharacter_iff.mp h
  have hc : c.toNat < 256 := c.toNat_lt
  refine ⟨UInt64.ofNat c.toNat, parse_decimal _ (by omega), ?_⟩
  rw [UInt64.toNat_ofNat']
  omega

end InsertOperation

namespace Operation

open ElementID (IsText Reads)

open InsertOperation (IsCharacter ReadsCharacter)

/-- A text starts with a tag and a bar if it has the tag as its first piece, and others. -/
theorem prefix_iff_split {tag s : Str} (htag : bar ∉ tag) :
    tag ++ [bar] <+: s ↔ ∃ piece pieces, split bar s = tag :: piece :: pieces := by
  constructor
  · rintro ⟨u, rfl⟩
    obtain ⟨q, qs, hq⟩ := List.exists_cons_of_ne_nil (List.splitOn_ne_nil bar u)
    refine ⟨q, qs, ?_⟩
    rw [List.append_assoc, List.singleton_append, split, if_neg (by simp),
      List.splitOn_append_cons_self_of_not_mem htag, hq]
  · rintro ⟨piece, pieces, hs⟩
    rw [split] at hs
    split_ifs at hs
    have hback : [bar].intercalate (s.splitOn bar) = s := List.intercalate_splitOn bar
    rw [hs, List.intercalate_cons_cons] at hback
    exact ⟨_, hback⟩

/-! ## What is read -/

/-- The pieces of a text that decodes. -/
def Readable (s : Str) : Prop :=
  (∃ p i c, split bar s = [str "INSERT", p, i, c] ∧ Reads p ∧ Reads i ∧ ReadsCharacter c) ∨
    ∃ t, split bar s = [str "REMOVE", t] ∧ Reads t

theorem insert_readable_iff {s : Str} :
    (∃ oper, InsertOperation.deserialize s = .ok oper) ↔
      ∃ tag p i c, split bar s = [tag, p, i, c] ∧ Reads p ∧ Reads i ∧ ReadsCharacter c := by
  constructor
  · rintro ⟨oper, h⟩
    obtain ⟨tag, p, i, c, v, hs, hp, hi, hc, hle, -⟩ := InsertOperation.deserialize_eq_ok.mp h
    exact ⟨tag, p, i, c, hs, ElementID.reads_iff.mpr ⟨_, hp⟩, ElementID.reads_iff.mpr ⟨_, hi⟩, v, hc, hle⟩
  · rintro ⟨tag, p, i, c, hs, hp, hi, v, hc, hle⟩
    obtain ⟨parent, hparent⟩ := ElementID.reads_iff.mp hp
    obtain ⟨ident, hident⟩ := ElementID.reads_iff.mp hi
    exact ⟨⟨parent, ident, _⟩, InsertOperation.deserialize_eq_ok.mpr
      ⟨tag, p, i, c, v, hs, hparent, hident, hc, hle, rfl⟩⟩

theorem remove_readable_iff {s : Str} :
    (∃ oper, RemoveOperation.deserialize s = .ok oper) ↔
      ∃ tag t, split bar s = [tag, t] ∧ Reads t := by
  constructor
  · rintro ⟨oper, h⟩
    obtain ⟨tag, t, hs, ht⟩ := RemoveOperation.deserialize_eq_ok.mp h
    exact ⟨tag, t, hs, ElementID.reads_iff.mpr ⟨_, ht⟩⟩
  · rintro ⟨tag, t, hs, ht⟩
    obtain ⟨target, htarget⟩ := ElementID.reads_iff.mp ht
    exact ⟨⟨target⟩, RemoveOperation.deserialize_eq_ok.mpr ⟨tag, t, hs, htarget⟩⟩

theorem insert_prefix_iff {s : Str} :
    str "INSERT|" <+: s ↔ ∃ piece pieces, split bar s = str "INSERT" :: piece :: pieces := by
  rw [show str "INSERT|" = str "INSERT" ++ [bar] from by decide]
  exact prefix_iff_split (by decide)

theorem remove_prefix_iff {s : Str} :
    str "REMOVE|" <+: s ↔ ∃ piece pieces, split bar s = str "REMOVE" :: piece :: pieces := by
  rw [show str "REMOVE|" = str "REMOVE" ++ [bar] from by decide]
  exact prefix_iff_split (by decide)

/-- **What decodes**, by its pieces. -/
theorem readable_iff {s : Str} : Readable s ↔ ∃ op, deserialize s = .ok op := by
  constructor
  · rintro (⟨p, i, c, hs, hreads⟩ | ⟨t, hs, hreads⟩)
    · obtain ⟨oper, hoper⟩ := insert_readable_iff.mpr ⟨_, p, i, c, hs, hreads⟩
      exact ⟨insert oper, deserialize_eq_insert.mpr ⟨insert_prefix_iff.mpr ⟨p, [i, c], hs⟩, hoper⟩⟩
    · obtain ⟨oper, hoper⟩ := remove_readable_iff.mpr ⟨_, t, hs, hreads⟩
      exact ⟨remove oper, deserialize_eq_remove.mpr ⟨remove_prefix_iff.mpr ⟨t, [], hs⟩, hoper⟩⟩
  · rintro ⟨op, h⟩
    cases op with
    | insert oper =>
      obtain ⟨hstarts, hoper⟩ := deserialize_eq_insert.mp h
      obtain ⟨piece, pieces, htag⟩ := insert_prefix_iff.mp hstarts
      obtain ⟨tag, p, i, c, hs, hreads⟩ := insert_readable_iff.mp ⟨oper, hoper⟩
      obtain rfl : tag = str "INSERT" := (List.cons.inj (hs.symm.trans htag)).1
      exact .inl ⟨p, i, c, hs, hreads⟩
    | remove oper =>
      obtain ⟨hstarts, hoper⟩ := deserialize_eq_remove.mp h
      obtain ⟨piece, pieces, htag⟩ := remove_prefix_iff.mp hstarts
      obtain ⟨tag, t, hs, hreads⟩ := remove_readable_iff.mp ⟨oper, hoper⟩
      obtain rfl : tag = str "REMOVE" := (List.cons.inj (hs.symm.trans htag)).1
      exact .inr ⟨t, hs, hreads⟩

/-! ## What is written -/

/-- The pieces of a text that is written: behind the id of the parent come the pieces of its site, then
the id of the insert with those of its own. -/
def Encoded (s : Str) : Prop :=
  (∃ p rest c, split bar s = str "INSERT" :: p :: (rest ++ [c]) ∧ IsText p ∧ (∃ i ∈ rest, IsText i) ∧
      IsCharacter c) ∨
    ∃ t rest, split bar s = str "REMOVE" :: t :: rest ∧ IsText t

/-- The first piece of an id is the text of one, and the others are any. -/
theorem exists_splitOn_id (e : ElementID) :
    ∃ t rest, e.serialize.splitOn bar = t :: rest ∧ IsText t := by
  have hnumber : bar ∉ decimal e.lamport.toNat ++ [comma] := by
    rw [List.mem_append, List.mem_singleton, not_or]
    exact ⟨ElementID.notMem_decimal (by decide) _, by decide⟩
  obtain ⟨q, qs, -, hq⟩ := splitOn_append_left hnumber e.siteId
  rw [List.append_assoc, List.singleton_append] at hq
  refine ⟨_, qs, hq, ElementID.isText_iff.mpr ⟨⟨e.lamport, q⟩, ?_⟩⟩
  rw [ElementID.serialize, List.append_assoc, List.singleton_append]

/-- Any pieces may follow the text of an id. -/
theorem exists_id_of_isText {t : Str} (h : IsText t) (rest : List Str) :
    ∃ e : ElementID, e.serialize = [bar].intercalate (t :: rest) := by
  obtain ⟨e, rfl⟩ := ElementID.isText_iff.mp h
  refine ⟨⟨e.lamport, [bar].intercalate (e.siteId :: rest)⟩, ?_⟩
  cases rest with
  | nil => simp only [ElementID.serialize, List.intercalate_singleton]
  | cons r rs =>
    simp only [ElementID.serialize, List.intercalate_cons_cons, List.append_assoc, List.cons_append]

theorem eq_intercalate_of_split {s : Str} {pieces : List Str} (h : split bar s = pieces)
    (hne : pieces ≠ []) : s = [bar].intercalate pieces := by
  rw [split] at h
  split_ifs at h
  · exact absurd h.symm hne
  · rw [← h, List.intercalate_splitOn]

/-- The pieces of the text of an insert. -/
theorem split_insert (oper : InsertOperation) :
    split bar oper.serialize = str "INSERT" :: (oper.parent.serialize.splitOn bar ++
      oper.ident.serialize.splitOn bar ++ [decimal oper.ch.toNat]) := by
  have htext : oper.serialize = str "INSERT" ++ bar :: (oper.parent.serialize ++
      bar :: (oper.ident.serialize ++ bar :: decimal oper.ch.toNat)) := by
    rw [InsertOperation.serialize, show str "INSERT|" = str "INSERT" ++ [bar] from by decide]
    simp only [List.append_assoc, List.cons_append, List.nil_append]
  have hch : (decimal oper.ch.toNat).splitOn bar = [decimal oper.ch.toNat] :=
    List.splitOn_eq_singleton (ElementID.notMem_decimal (by decide) _)
  have hne : oper.serialize ≠ [] := serialize_ne_nil (insert oper)
  rw [split, if_neg hne, htext,
    List.splitOn_append_cons_self_of_not_mem (by decide), List.splitOn_append_cons_self,
    List.splitOn_append_cons_self, hch, List.append_assoc]

theorem split_remove (oper : RemoveOperation) :
    split bar oper.serialize = str "REMOVE" :: oper.theTarget.serialize.splitOn bar := by
  have htext : oper.serialize = str "REMOVE" ++ bar :: oper.theTarget.serialize := by
    rw [RemoveOperation.serialize, show str "REMOVE|" = str "REMOVE" ++ [bar] from by decide,
      List.append_assoc, List.singleton_append]
  have hne : oper.serialize ≠ [] := serialize_ne_nil (remove oper)
  rw [split, if_neg hne, htext,
    List.splitOn_append_cons_self_of_not_mem (by decide)]

/-- **What is written**, by its pieces. -/
theorem encoded_iff {s : Str} : Encoded s ↔ ∃ op : Operation, op.serialize = s := by
  constructor
  · rintro (⟨p, rest, c, hs, hp, ⟨i, hi, hitext⟩, hc⟩ | ⟨t, rest, hs, ht⟩)
    · obtain ⟨before, behind, rfl⟩ := List.append_of_mem hi
      obtain ⟨parent, hparent⟩ := exists_id_of_isText hp before
      obtain ⟨ident, hident⟩ := exists_id_of_isText hitext behind
      obtain ⟨ch, rfl⟩ := InsertOperation.isCharacter_iff.mp hc
      refine ⟨insert ⟨parent, ident, ch⟩, ?_⟩
      have hs' : split bar s = str "INSERT" :: ([] ++
          p :: (before ++ i :: (behind ++ decimal ch.toNat :: []))) := by
        rw [hs, List.append_assoc]
        rfl
      rw [eq_intercalate_of_split hs' (List.cons_ne_nil _ _), serialize, serialize_insert_eq, hparent,
        hident, intercalate_append_cons, intercalate_append_cons, intercalate_append_cons]
      simp only [List.intercalate_cons_cons, List.intercalate_singleton, List.append_assoc,
        List.cons_append, List.nil_append]
    · obtain ⟨target, htarget⟩ := exists_id_of_isText ht rest
      refine ⟨remove ⟨target⟩, ?_⟩
      rw [eq_intercalate_of_split hs (List.cons_ne_nil _ _), serialize, serialize_remove_eq, htarget,
        List.intercalate_cons_cons, List.intercalate_singleton, List.intercalate_cons_cons]
  · rintro ⟨op, rfl⟩
    cases op with
    | insert oper =>
      obtain ⟨p, ps, hp, hptext⟩ := exists_splitOn_id oper.parent
      obtain ⟨i, is, hi, hitext⟩ := exists_splitOn_id oper.ident
      refine .inl ⟨p, ps ++ i :: is, decimal oper.ch.toNat, ?_, hptext,
        ⟨i, List.mem_append_right _ List.mem_cons_self, hitext⟩,
        InsertOperation.isCharacter_iff.mpr ⟨oper.ch, rfl⟩⟩
      rw [serialize, split_insert, hp, hi]
      rfl
    | remove oper =>
      obtain ⟨t, rest, ht, httext⟩ := exists_splitOn_id oper.theTarget
      exact .inr ⟨t, rest, by rw [serialize, split_remove, ht], httext⟩

/-! ## Where the two differ -/

theorem bar_notMem_of_length_le {s : Str} (h : (s.splitOn bar).length ≤ 1) : bar ∉ s := by
  obtain ⟨q, qs, hs⟩ := List.exists_cons_of_ne_nil (List.splitOn_ne_nil bar s)
  rw [hs, List.length_cons] at h
  obtain rfl : qs = [] := List.length_eq_zero_iff.mp (by omega)
  have hback : [bar].intercalate (s.splitOn bar) = s := List.intercalate_splitOn bar
  rw [hs, List.intercalate_singleton] at hback
  exact hback ▸ (of_mem_splitOn (hs ▸ List.mem_cons_self)).1

theorem bar_notMem_siteId {e : ElementID} (h : bar ∉ e.serialize) : bar ∉ e.siteId := fun hm =>
  h (List.mem_append_right _ (List.mem_cons_of_mem comma hm))

/-- An operation whose text decodes has no bar in its site ids. -/
theorem avoids_of_readable {op : Operation} (h : Readable op.serialize) : op.Avoids bar := by
  have hpos (e : ElementID) : 0 < (e.serialize.splitOn bar).length :=
    List.length_pos_of_ne_nil (List.splitOn_ne_nil bar e.serialize)
  cases op with
  | insert oper =>
    obtain ⟨p, i, c, hs, -⟩ | ⟨t, hs, -⟩ := h
    · have hlength := congrArg List.length ((split_insert oper).symm.trans hs)
      simp only [List.length_cons, List.length_append, List.length_nil] at hlength
      have hparent := hpos oper.parent
      have hident := hpos oper.ident
      intro site hsite
      simp only [sites, List.mem_cons, List.not_mem_nil, or_false] at hsite
      obtain rfl | rfl := hsite
      · exact bar_notMem_siteId (bar_notMem_of_length_le (by omega))
      · exact bar_notMem_siteId (bar_notMem_of_length_le (by omega))
    · exact absurd (List.cons.inj ((split_insert oper).symm.trans hs)).1 (by decide)
  | remove oper =>
    obtain ⟨p, i, c, hs, -⟩ | ⟨t, hs, -⟩ := h
    · exact absurd (List.cons.inj ((split_remove oper).symm.trans hs)).1 (by decide)
    · have hlength := congrArg List.length ((split_remove oper).symm.trans hs)
      simp only [List.length_cons, List.length_nil] at hlength
      intro site hsite
      rw [sites, List.mem_singleton] at hsite
      exact hsite ▸ bar_notMem_siteId (bar_notMem_of_length_le (by omega))

/-- The text of an operation without a bar is the text of nothing else. -/
theorem eq_of_serialize_eq {op op' : Operation} (hop : op.Avoids bar)
    (h : op.serialize = op'.serialize) : op = op' := by
  have hread : Readable op'.serialize := readable_iff.mpr ⟨op, h ▸ deserialize_serialize hop⟩
  exact serialize_injOn hop (avoids_of_readable hread) h

/-- Two inserts of one site with one text insert one id, whatever the site is called. -/
theorem ident_eq_of_serialize_eq {oper oper' : InsertOperation}
    (hsite : oper.ident.siteId = oper'.ident.siteId) (h : oper.serialize = oper'.serialize) :
    oper.ident = oper'.ident := by
  have hdecimal (n : ℕ) : bar ∉ decimal n := ElementID.notMem_decimal (by decide) n
  have htext (o : InsertOperation) : o.serialize =
      ((str "INSERT|" ++ o.parent.serialize) ++ bar :: decimal o.ident.lamport.toNat ++
        comma :: o.ident.siteId) ++ bar :: decimal o.ch.toNat := by
    simp only [InsertOperation.serialize, ElementID.serialize, List.append_assoc, List.cons_append,
      List.nil_append]
  rw [htext, htext, hsite] at h
  -- the character behind the last bar, then the site, then the clock value behind the next bar
  obtain ⟨hfront, -⟩ := eq_of_append_cons_eq (hdecimal _) (hdecimal _) h
  obtain ⟨-, hclock⟩ :=
    eq_of_append_cons_eq (hdecimal _) (hdecimal _) (List.append_cancel_right hfront)
  have hlamport : oper.ident.lamport = oper'.ident.lamport := by
    rw [← UInt64.toNat_inj, ← value_decimal oper.ident.lamport.toNat, hclock, value_decimal]
  exact congrArg₂ ElementID.mk hlamport hsite

/-- What decodes and is the text of an operation decodes to that operation. -/
theorem serialize_of_encoded {s : Str} {op : Operation} (h : deserialize s = .ok op)
    (he : Encoded s) : op.serialize = s := by
  obtain ⟨op', rfl⟩ := encoded_iff.mp he
  have hback := deserialize_serialize (avoids_of_readable (readable_iff.mpr ⟨op, h⟩))
  rw [Except.ok.inj (h.symm.trans hback)]

/-- The decoder accepts the text if the encoder writes it, and gives back what it wrote. -/
def Exact (s : Str) : Prop :=
  ((∃ op, deserialize s = .ok op) ↔ ∃ op : Operation, op.serialize = s) ∧
    ∀ op, deserialize s = .ok op → op.serialize = s

/-- As many pieces as an operation has, all read, but not all as they are written. -/
def Lax (s : Str) : Prop :=
  (∃ p i c, split bar s = [str "INSERT", p, i, c] ∧ (Reads p ∧ Reads i ∧ ReadsCharacter c) ∧
      ¬ (IsText p ∧ IsText i ∧ IsCharacter c)) ∨
    ∃ t, split bar s = [str "REMOVE", t] ∧ Reads t ∧ ¬ IsText t

/-- More pieces than an operation has without a bar in a site id, but pieces of one with. -/
def Barred (s : Str) : Prop :=
  (∃ p rest c, split bar s = str "INSERT" :: p :: (rest ++ [c]) ∧ 2 ≤ rest.length ∧ IsText p ∧
      (∃ i ∈ rest, IsText i) ∧ IsCharacter c) ∨
    ∃ t rest, split bar s = str "REMOVE" :: t :: rest ∧ rest ≠ [] ∧ IsText t

/-- Four pieces leave one between the first two and the last. -/
theorem four_pieces {tag tag' p q i c d : Str} {rest : List Str}
    (h : [tag, p, i, c] = tag' :: q :: (rest ++ [d])) : p = q ∧ [i] = rest ∧ c = d := by
  obtain ⟨hp, h⟩ := List.cons.inj (List.cons.inj h).2
  have hsplit : [i] ++ [c] = rest ++ [d] := h
  obtain ⟨hrest, hc⟩ := List.append_inj' hsplit rfl
  exact ⟨hp, hrest, (List.cons.inj hc).1⟩

theorem lax_iff {s : Str} : Lax s ↔ Readable s ∧ ¬ Encoded s := by
  constructor
  · rintro (⟨p, i, c, hs, hreads, hnot⟩ | ⟨t, hs, hreads, hnot⟩)
    · refine ⟨.inl ⟨p, i, c, hs, hreads⟩, ?_⟩
      rintro (⟨q, rest, d, hs', hq, ⟨j, hj, hjtext⟩, hd⟩ | ⟨t, rest, hs', -⟩)
      · obtain ⟨rfl, rfl, rfl⟩ := four_pieces (hs.symm.trans hs')
        rw [List.mem_singleton] at hj
        exact hnot ⟨hq, hj ▸ hjtext, hd⟩
      · exact absurd (List.cons.inj (hs.symm.trans hs')).1 (by decide)
    · refine ⟨.inr ⟨t, hs, hreads⟩, ?_⟩
      rintro (⟨q, rest, d, hs', -⟩ | ⟨u, rest, hs', hu⟩)
      · exact absurd (List.cons.inj (hs.symm.trans hs')).1 (by decide)
      · exact hnot ((List.cons.inj (List.cons.inj (hs.symm.trans hs')).2).1 ▸ hu)
  · rintro ⟨⟨p, i, c, hs, hreads⟩ | ⟨t, hs, hreads⟩, hnot⟩
    · refine .inl ⟨p, i, c, hs, hreads, fun htext => hnot (.inl ⟨p, [i], c, hs, htext.1, ?_, htext.2.2⟩)⟩
      exact ⟨i, List.mem_singleton_self i, htext.2.1⟩
    · exact .inr ⟨t, hs, hreads, fun htext => hnot (.inr ⟨t, [], hs, htext⟩)⟩

theorem barred_iff {s : Str} : Barred s ↔ Encoded s ∧ ¬ Readable s := by
  constructor
  · rintro (⟨p, rest, c, hs, hlength, htext⟩ | ⟨t, rest, hs, hne, ht⟩)
    · refine ⟨.inl ⟨p, rest, c, hs, htext⟩, ?_⟩
      rintro (⟨q, i, d, hs', -⟩ | ⟨t, hs', -⟩)
      · obtain ⟨-, rfl, -⟩ := four_pieces (hs'.symm.trans hs)
        exact absurd hlength (by simp)
      · exact absurd (List.cons.inj (hs'.symm.trans hs)).1 (by decide)
    · refine ⟨.inr ⟨t, rest, hs, ht⟩, ?_⟩
      rintro (⟨q, i, d, hs', -⟩ | ⟨u, hs', -⟩)
      · exact absurd (List.cons.inj (hs'.symm.trans hs)).1 (by decide)
      · exact hne (List.cons.inj (List.cons.inj (hs'.symm.trans hs)).2).2.symm
  · rintro ⟨⟨p, rest, c, hs, hp, ⟨i, hi, hitext⟩, hc⟩ | ⟨t, rest, hs, ht⟩, hnot⟩
    · refine .inl ⟨p, rest, c, hs, ?_, hp, ⟨i, hi, hitext⟩, hc⟩
      by_contra hlt
      have hpos := List.length_pos_of_mem hi
      obtain ⟨j, rfl⟩ := List.length_eq_one_iff.mp (show rest.length = 1 by omega)
      rw [List.mem_singleton] at hi
      exact hnot (.inl ⟨p, j, c, hs, hp.reads, (hi ▸ hitext).reads, hc.reads⟩)
    · refine .inr ⟨t, rest, hs, ?_, ht⟩
      rintro rfl
      exact hnot (.inr ⟨t, hs, ht.reads⟩)

/-- **The decoder accepts the encoder's language** at every text but these: one with a number that is not
as it is printed, or a character code that is narrowed into range; and one that is written for an
operation with a bar in a site id. -/
theorem exact_iff (s : Str) : Exact s ↔ ¬ Lax s ∧ ¬ Barred s := by
  rw [Exact, ← readable_iff, ← encoded_iff, lax_iff, barred_iff]
  constructor
  · rintro ⟨hiff, -⟩
    exact ⟨fun h => h.2 (hiff.mp h.1), fun h => h.2 (hiff.mpr h.1)⟩
  · rintro ⟨hlax, hbarred⟩
    have hiff : Readable s ↔ Encoded s :=
      ⟨fun h => not_not.mp fun hn => hlax ⟨h, hn⟩, fun h => not_not.mp fun hn => hbarred ⟨h, hn⟩⟩
    exact ⟨hiff, fun op hop => serialize_of_encoded hop (hiff.mp (readable_iff.mpr ⟨op, hop⟩))⟩

/-- The code `2 ^ 32 + 65` is narrowed to that of an `A`. -/
theorem not_exact_of_narrowed : ¬ Exact (str "INSERT|0,__ROOT__|1,a|4294967361") := by
  intro h
  have hdecodes : deserialize (str "INSERT|0,__ROOT__|1,a|4294967361") =
      .ok (insert ⟨rootId, ⟨1, str "a"⟩, 65⟩) := by decide
  exact absurd (h.2 _ hdecodes) (by decide)

end Operation

end CrdtEditor
