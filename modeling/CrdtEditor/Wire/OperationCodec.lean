import CrdtEditor.Document.Operation

/-!
# Wire/OperationCodec — operations as text

`ElementID::serialize` and `deserialize`, the two operations' codecs and `operation_serializer`.  A
line is split at `'|'` and an id cut at its first comma, so a site id may hold anything but a `'|'`:
`Operation.deserialize_serialize`.  What the decoder returns never holds one, hence reads back:
`Operation.avoids_of_deserialize`.
-/

open scoped List

namespace CrdtEditor

open Text

namespace ElementID

def serialize (e : ElementID) : Str := decimal e.lamport.toNat ++ comma :: e.siteId

def deserialize (serializedElementID : Str) : Except Exn ElementID :=
  match cutAt comma serializedElementID with
  | none => .error (.invalidArgument (str "Malformed PositionComponent: " ++ serializedElementID))
  | some (l, s) => do
    let lamport ← stoull l
    pure ⟨lamport, s⟩

theorem not_isDigit_of_lt {c : UInt8} (h : c < 48) : isDigit c = false := by
  rw [isDigit, Bool.and_eq_false_iff, decide_eq_false_iff_not]
  have := UInt8.lt_iff_toNat_lt.mp h
  exact Or.inl (by simp at this; omega)

/-- A printed number holds no delimiter. -/
theorem notMem_decimal {c : UInt8} (h : isDigit c = false) (n : ℕ) : c ∉ decimal n := fun hm => by
  rw [isDigit_of_mem_decimal hm] at h
  exact Bool.noConfusion h

/-- **Every id reads back.** -/
theorem deserialize_serialize (e : ElementID) : deserialize e.serialize = .ok e := by
  have hcut : cutAt comma e.serialize = some (decimal e.lamport.toNat, e.siteId) :=
    cutAt_append _ (notMem_decimal (not_isDigit_of_lt (by decide)) _)
  rw [deserialize, hcut]
  simp only [stoull_decimal, bind, Except.bind, pure, Except.pure]

/-- **What an id is read from.** -/
theorem deserialize_eq_ok {s : Str} {e : ElementID} :
    deserialize s = .ok e ↔ ∃ a, cutAt comma s = some (a, e.siteId) ∧ stoull a = .ok e.lamport := by
  rw [deserialize]
  constructor
  · intro h
    cases hcut : cutAt comma s with
    | none => rw [hcut] at h; cases h
    | some p =>
      rw [hcut] at h
      cases hl : stoull p.1 with
      | error x => simp only [hl, bind, Except.bind] at h; cases h
      | ok lamport =>
        simp only [hl, bind, Except.bind, pure, Except.pure] at h
        obtain rfl := Except.ok.inj h
        exact ⟨p.1, rfl, hl⟩
  · rintro ⟨a, hcut, hl⟩
    rw [hcut]
    simp only [hl, bind, Except.bind, pure, Except.pure]

/-- The site id is part of the text it is read from. -/
theorem sublist_of_deserialize {s : Str} {e : ElementID} (h : deserialize s = .ok e) :
    e.siteId <+ s := by
  obtain ⟨a, hcut, -⟩ := deserialize_eq_ok.mp h
  rw [(cutAt_eq_some hcut).1]
  exact (List.sublist_cons_self comma e.siteId).trans (List.sublist_append_right a _)

/-- A printed id holds a byte that is neither a digit nor the comma only if its site does. -/
theorem notMem_serialize {e : ElementID} {c : UInt8} (hdigit : isDigit c = false)
    (hcomma : c ≠ comma) (hsite : c ∉ e.siteId) : c ∉ e.serialize := by
  rw [serialize, List.mem_append, List.mem_cons]
  rintro (h | h | h)
  exacts [notMem_decimal hdigit _ h, hcomma h, hsite h]

/-- A printed id is at most 21 bytes longer than its site: twenty digits and a comma. -/
theorem length_serialize_le (e : ElementID) : e.serialize.length ≤ 21 + e.siteId.length := by
  have hlt : e.lamport.toNat < 10 ^ 20 := lt_trans e.lamport.toNat_lt (by decide)
  have := length_decimal_le (by decide) hlt
  rw [serialize, List.length_append, List.length_cons]
  omega

end ElementID

namespace InsertOperation

def serialize (oper : InsertOperation) : Str :=
  str "INSERT|" ++ oper.parent.serialize ++ [bar] ++ oper.ident.serialize ++ [bar] ++
    decimal oper.ch.toNat

/-- The character is read as an `unsigned long` and narrowed to 32 bits before its range is
checked. -/
def deserialize (serialized : Str) : Except Exn InsertOperation :=
  match split bar serialized with
  | [_, parent, ident, ch] => do
    let elemID1 ← ElementID.deserialize parent
    let elemID2 ← ElementID.deserialize ident
    let value ← stoul ch
    let value := value.toNat % 2 ^ 32
    if value > 255 then
      throw (.invalidArgument (str "serialized character value is out of range"))
    pure ⟨elemID1, elemID2, UInt8.ofNat value⟩
  | _ => .error (.invalidArgument
      (str "serialized insert operation does not have a singleton character."))

/-- **What an insert is read from.** -/
theorem deserialize_eq_ok {s : Str} {oper : InsertOperation} :
    deserialize s = .ok oper ↔ ∃ tag p i c v, split bar s = [tag, p, i, c] ∧
      ElementID.deserialize p = .ok oper.parent ∧ ElementID.deserialize i = .ok oper.ident ∧
      stoul c = .ok v ∧ v.toNat % 2 ^ 32 ≤ 255 ∧ oper.ch = UInt8.ofNat (v.toNat % 2 ^ 32) := by
  constructor
  · intro h
    rw [deserialize] at h
    split at h
    case _ tag p i c hs =>
      cases hp : ElementID.deserialize p with
      | error x => simp only [hp, bind, Except.bind] at h; cases h
      | ok parent =>
        cases hi : ElementID.deserialize i with
        | error x => simp only [hp, hi, bind, Except.bind] at h; cases h
        | ok ident =>
          cases hc : stoul c with
          | error x => simp only [hp, hi, hc, bind, Except.bind] at h; cases h
          | ok v =>
            simp only [hp, hi, hc, bind, Except.bind] at h
            split at h
            case isTrue => cases h
            case isFalse hle =>
              obtain rfl := Except.ok.inj h
              exact ⟨tag, p, i, c, v, hs, hp, hi, hc, not_lt.mp hle, rfl⟩
    case _ => cases h
  · rintro ⟨tag, p, i, c, v, hs, hp, hi, hc, hle, hch⟩
    rw [deserialize, hs]
    simp only [hp, hi, hc, bind, Except.bind]
    rw [if_neg hle.not_gt, ← hch]
    rfl

end InsertOperation

namespace RemoveOperation

def serialize (oper : RemoveOperation) : Str := str "REMOVE|" ++ oper.theTarget.serialize

def deserialize (serialized : Str) : Except Exn RemoveOperation :=
  match split bar serialized with
  | [_, target] => do
    let elemID ← ElementID.deserialize target
    pure ⟨elemID⟩
  | _ => .error (.invalidArgument (str "serialized insert operation is incorrect."))

/-- **What a removal is read from.** -/
theorem deserialize_eq_ok {s : Str} {oper : RemoveOperation} :
    deserialize s = .ok oper ↔
      ∃ tag t, split bar s = [tag, t] ∧ ElementID.deserialize t = .ok oper.theTarget := by
  constructor
  · intro h
    rw [deserialize] at h
    split at h
    case _ tag t hs =>
      cases ht : ElementID.deserialize t with
      | error x => simp only [ht, bind, Except.bind] at h; cases h
      | ok target =>
        simp only [ht, bind, Except.bind] at h
        obtain rfl := Except.ok.inj h
        exact ⟨tag, t, hs, ht⟩
    case _ => cases h
  · rintro ⟨tag, t, hs, ht⟩
    rw [deserialize, hs]
    simp only [ht, bind, Except.bind]
    rfl

end RemoveOperation

namespace Operation

/-- `operation_serializer::serialize`. -/
def serialize : Operation → Str
  | insert oper => oper.serialize
  | remove oper => oper.serialize

/-- `operation_serializer::deserialize`. -/
def deserialize (s : Str) : Except Exn Operation :=
  if s.length ≠ 0 then
    if str "INSERT|" <+: s then insert <$> InsertOperation.deserialize s
    else if str "REMOVE|" <+: s then remove <$> RemoveOperation.deserialize s
    else .error (.invalidArgument (str "serialized operation has failed"))
  else .error (.invalidArgument (str "nothing passed to deserialize."))

/-- The site ids an operation names. -/
def sites : Operation → List Str
  | insert oper => [oper.parent.siteId, oper.ident.siteId]
  | remove oper => [oper.theTarget.siteId]

/-- No site id of the operation holds the byte. -/
def Avoids (c : UInt8) (op : Operation) : Prop := ∀ s ∈ op.sites, c ∉ s

instance (c : UInt8) (op : Operation) : Decidable (op.Avoids c) :=
  inferInstanceAs (Decidable (∀ s ∈ op.sites, c ∉ s))

/-! ## The round trip -/

/-- A printed insert is its four fields, joined by bars. -/
theorem serialize_insert_eq (oper : InsertOperation) :
    oper.serialize = [bar].intercalate
      [str "INSERT", oper.parent.serialize, oper.ident.serialize, decimal oper.ch.toNat] := by
  rw [List.intercalate_cons_cons, List.intercalate_cons_cons, List.intercalate_cons_cons,
    List.intercalate_singleton, InsertOperation.serialize,
    show str "INSERT|" = str "INSERT" ++ [bar] from by decide]
  simp only [List.append_assoc]

/-- A printed removal is two fields. -/
theorem serialize_remove_eq (oper : RemoveOperation) :
    oper.serialize = [bar].intercalate [str "REMOVE", oper.theTarget.serialize] := by
  rw [List.intercalate_cons_cons, List.intercalate_singleton, RemoveOperation.serialize,
    show str "REMOVE|" = str "REMOVE" ++ [bar] from by decide]

/-- An id can be a field if its site can. -/
theorem bar_notMem_serialize {e : ElementID} (h : bar ∉ e.siteId) : bar ∉ e.serialize :=
  ElementID.notMem_serialize (by decide) (by decide) h

/-- **The fields of a printed insert come apart again.** -/
theorem split_serialize_insert {oper : InsertOperation} (h : (insert oper).Avoids bar) :
    split bar oper.serialize =
      [str "INSERT", oper.parent.serialize, oper.ident.serialize, decimal oper.ch.toNat] := by
  rw [serialize_insert_eq]
  refine split_intercalate bar (fun l hl => ?_) (by simp [List.intercalate_cons_cons, str])
  simp only [List.mem_cons, List.not_mem_nil, or_false] at hl
  obtain rfl | rfl | rfl | rfl := hl
  exacts [by decide, bar_notMem_serialize (h _ (by simp [sites])),
    bar_notMem_serialize (h _ (by simp [sites])), ElementID.notMem_decimal (by decide) _]

/-- The fields of a printed removal too. -/
theorem split_serialize_remove {oper : RemoveOperation} (h : (remove oper).Avoids bar) :
    split bar oper.serialize = [str "REMOVE", oper.theTarget.serialize] := by
  rw [serialize_remove_eq]
  refine split_intercalate bar (fun l hl => ?_) (by simp [List.intercalate_cons_cons, str])
  simp only [List.mem_cons, List.not_mem_nil, or_false] at hl
  obtain rfl | rfl := hl
  exacts [by decide, bar_notMem_serialize (h _ (by simp [sites]))]

/-- **An operation whose site ids avoid `'|'` reads back.** -/
theorem deserialize_serialize {op : Operation} (h : op.Avoids bar) :
    deserialize op.serialize = .ok op := by
  match op, h with
  | insert oper, h =>
    have hprefix : str "INSERT|" <+: oper.serialize := by
      rw [InsertOperation.serialize]
      simp only [List.append_assoc]
      exact List.prefix_append _ _
    have hne : oper.serialize.length ≠ 0 := fun h0 => by
      rw [List.length_eq_zero_iff.mp h0] at hprefix
      exact absurd hprefix (by decide)
    have hch : oper.ch.toNat < 256 := oper.ch.toNat_lt
    have hstoul : stoul (decimal oper.ch.toNat) = .ok (UInt64.ofNat oper.ch.toNat) :=
      parse_decimal _ (by omega)
    have hvalue : (UInt64.ofNat oper.ch.toNat).toNat % 2 ^ 32 = oper.ch.toNat := by
      rw [UInt64.toNat_ofNat']
      omega
    rw [serialize, deserialize, if_pos hne, if_pos hprefix, InsertOperation.deserialize,
      split_serialize_insert h]
    simp only [ElementID.deserialize_serialize, hstoul, hvalue, bind, Except.bind]
    rw [if_neg (by omega), UInt8.ofNat_toNat]
    rfl
  | remove oper, h =>
    have hprefix : str "REMOVE|" <+: oper.serialize := List.prefix_append _ _
    have hne : oper.serialize.length ≠ 0 := fun h0 => by
      rw [List.length_eq_zero_iff.mp h0] at hprefix
      exact absurd hprefix (by decide)
    have hinsert : ¬ str "INSERT|" <+: oper.serialize := fun hi =>
      absurd (List.prefix_of_prefix_length_le hi hprefix (by decide)) (by decide)
    rw [serialize, deserialize, if_pos hne, if_neg hinsert, if_pos hprefix,
      RemoveOperation.deserialize, split_serialize_remove h]
    simp only [ElementID.deserialize_serialize, bind, Except.bind]
    rfl

/-- Operations that read back are told apart by their text. -/
theorem serialize_injOn : Set.InjOn serialize {op | op.Avoids bar} := fun a ha b hb hab => by
  have := deserialize_serialize ha
  rw [hab, deserialize_serialize hb] at this
  exact (Except.ok.inj this).symm

/-! ## What the decoder returns -/

/-- What is read as an insert begins like one, and its fields are those of one. -/
theorem deserialize_eq_insert {s : Str} {oper : InsertOperation} :
    deserialize s = .ok (insert oper) ↔
      str "INSERT|" <+: s ∧ InsertOperation.deserialize s = .ok oper := by
  rw [deserialize]
  split_ifs with hne hinsert hremove
  · cases h : InsertOperation.deserialize s with
    | error x => exact iff_of_false (fun he => by cases he) fun he => by cases he.2
    | ok oper' =>
      constructor
      · intro he
        obtain rfl := insert.inj (Except.ok.inj he)
        exact ⟨hinsert, rfl⟩
      · rintro ⟨-, he⟩
        obtain rfl := Except.ok.inj he
        rfl
  · refine iff_of_false (fun he => ?_) fun he => hinsert he.1
    cases h : RemoveOperation.deserialize s with
    | error x =>
      rw [h] at he
      cases he
    | ok oper' =>
      rw [h] at he
      cases he
  · exact iff_of_false (fun he => by cases he) fun he => hinsert he.1
  · refine iff_of_false (fun he => by cases he) fun he => ?_
    rw [not_not, List.length_eq_zero_iff] at hne
    rw [hne] at he
    exact absurd he.1 (by decide)

/-- The same of a removal. -/
theorem deserialize_eq_remove {s : Str} {oper : RemoveOperation} :
    deserialize s = .ok (remove oper) ↔
      str "REMOVE|" <+: s ∧ RemoveOperation.deserialize s = .ok oper := by
  rw [deserialize]
  split_ifs with hne hinsert hremove
  · refine iff_of_false (fun he => ?_) fun he => ?_
    · cases h : InsertOperation.deserialize s with
      | error x =>
        rw [h] at he
        cases he
      | ok oper' =>
        rw [h] at he
        cases he
    · exact absurd (List.prefix_of_prefix_length_le hinsert he.1 (by decide)) (by decide)
  · cases h : RemoveOperation.deserialize s with
    | error x => exact iff_of_false (fun he => by cases he) fun he => by cases he.2
    | ok oper' =>
      constructor
      · intro he
        obtain rfl := remove.inj (Except.ok.inj he)
        exact ⟨hremove, rfl⟩
      · rintro ⟨-, he⟩
        obtain rfl := Except.ok.inj he
        rfl
  · exact iff_of_false (fun he => by cases he) fun he => hremove he.1
  · refine iff_of_false (fun he => by cases he) fun he => ?_
    rw [not_not, List.length_eq_zero_iff] at hne
    rw [hne] at he
    exact absurd he.1 (by decide)

/-- A decoded site id is a piece of the line. -/
theorem sublist_of_mem_sites {s : Str} {op : Operation} (h : deserialize s = .ok op) :
    ∀ site ∈ op.sites, bar ∉ site ∧ site <+ s := by
  have hid : ∀ {e : ElementID} {l : Str}, l ∈ split bar s → ElementID.deserialize l = .ok e →
      bar ∉ e.siteId ∧ e.siteId <+ s := fun hl he => by
    obtain ⟨hbar, hsub⟩ := of_mem_split hl
    have hsite := ElementID.sublist_of_deserialize he
    exact ⟨fun hm => hbar (hsite.subset hm), hsite.trans hsub⟩
  cases op with
  | insert oper =>
    obtain ⟨tag, p, i, c, -, hs, hp, hi, -⟩ :=
      InsertOperation.deserialize_eq_ok.mp (deserialize_eq_insert.mp h).2
    simpa [sites] using ⟨hid (by simp [hs]) hp, hid (by simp [hs]) hi⟩
  | remove oper =>
    obtain ⟨tag, t, hs, ht⟩ := RemoveOperation.deserialize_eq_ok.mp (deserialize_eq_remove.mp h).2
    simpa [sites] using hid (by simp [hs]) ht

/-- **A decoded operation avoids `'|'`, and every byte its line avoids.** -/
theorem avoids_of_deserialize {s : Str} {op : Operation} (h : deserialize s = .ok op) :
    op.Avoids bar ∧ ∀ c ∉ s, op.Avoids c :=
  ⟨fun site hsite => (sublist_of_mem_sites h site hsite).1,
    fun _ hc site hsite hm => hc ((sublist_of_mem_sites h site hsite).2.subset hm)⟩

/-- A control byte in the text of an operation is in one of its site ids. -/
theorem notMem_serialize {op : Operation} {c : UInt8} (hc : c < 32) (h : op.Avoids c) :
    c ∉ op.serialize := by
  have hdigit : isDigit c = false := ElementID.not_isDigit_of_lt (lt_trans hc (by decide))
  have hne : ∀ {b : UInt8}, 32 ≤ b → c ≠ b := fun hb he => absurd hb (not_le.mpr (he ▸ hc))
  have hid : ∀ {e : ElementID}, c ∉ e.siteId → c ∉ e.serialize := fun hs =>
    ElementID.notMem_serialize hdigit (hne (by decide)) hs
  have htag : ∀ t : Str, (∀ b ∈ t, 32 ≤ b.toNat) → c ∉ t := fun t ht hm =>
    hne (UInt8.le_iff_toNat_le.mpr (ht c hm)) rfl
  match op, h with
  | insert oper, h =>
    simp only [serialize, InsertOperation.serialize, List.mem_append, List.mem_singleton, not_or]
    exact ⟨⟨⟨⟨⟨htag (str "INSERT|") (by decide +kernel), hid (h _ (by simp [sites]))⟩, hne (by decide)⟩,
      hid (h _ (by simp [sites]))⟩, hne (by decide)⟩, ElementID.notMem_decimal hdigit _⟩
  | remove oper, h =>
    simp only [serialize, RemoveOperation.serialize, List.mem_append, not_or]
    exact ⟨htag (str "REMOVE|") (by decide +kernel), hid (h _ (by simp [sites]))⟩

/-- No operation is printed as nothing. -/
theorem serialize_ne_nil (op : Operation) : op.serialize ≠ [] := by
  match op with
  | insert oper => simp [serialize, InsertOperation.serialize, str]
  | remove oper => simp [serialize, RemoveOperation.serialize, str]

/-- The text of an operation is little longer than its site ids. -/
theorem length_serialize_le {op : Operation} {n : ℕ} (h : ∀ s ∈ op.sites, s.length ≤ n) :
    op.serialize.length ≤ 2 * n + 60 := by
  match op, h with
  | insert oper, h =>
    have hp := ElementID.length_serialize_le oper.parent
    have hi := ElementID.length_serialize_le oper.ident
    have hps := h oper.parent.siteId (by simp [sites])
    have his := h oper.ident.siteId (by simp [sites])
    have hc : (decimal oper.ch.toNat).length ≤ 3 :=
      length_decimal_le (by decide) (lt_trans oper.ch.toNat_lt (by decide))
    simp only [serialize, InsertOperation.serialize, List.length_append, List.length_singleton]
    have ht : (str "INSERT|").length = 7 := rfl
    omega
  | remove oper, h =>
    have ht' := ElementID.length_serialize_le oper.theTarget
    have hts := h oper.theTarget.siteId (by simp [sites])
    simp only [serialize, RemoveOperation.serialize, List.length_append]
    have ht : (str "REMOVE|").length = 7 := rfl
    omega

/-- A text that decodes to an insert has three bars. -/
theorem three_le_count_of_deserialize {s : Str} {oper : InsertOperation}
    (h : InsertOperation.deserialize s = .ok oper) : 3 ≤ s.count bar := by
  obtain ⟨tag, p, i, c, -, hs, -⟩ := InsertOperation.deserialize_eq_ok.mp h
  rw [split] at hs
  split at hs
  case isTrue => cases hs
  case isFalse =>
    have hcut : [bar].intercalate (s.splitOn bar) = s := List.intercalate_splitOn bar
    rw [← hcut, hs]
    simp only [List.intercalate_cons_cons, List.intercalate_singleton, List.count_append,
      List.count_singleton_self]
    omega

/-- **An insert that is cut at a control byte does not decode as another insert.** -/
theorem insert_of_deserialize_takeWhile {op : Operation} {oper : InsertOperation} {c : UInt8}
    (hc : c < 32) (hbar : op.Avoids bar)
    (h : deserialize (op.serialize.takeWhile (· ≠ c)) = .ok (insert oper)) : op = insert oper := by
  by_cases hm : c ∈ op.serialize
  · exfalso
    obtain ⟨hstarts, hd⟩ := deserialize_eq_insert.mp h
    -- three bars are left, so nothing before the character was cut
    have hcount := three_le_count_of_deserialize hd
    match op, hbar, hm with
    | remove oper, _, _ =>
      have hi : str "INSERT|" <+: oper.serialize := hstarts.trans (List.takeWhile_prefix _)
      exact absurd (List.prefix_of_prefix_length_le hi
        (List.prefix_append (str "REMOVE|") oper.theTarget.serialize) (by decide)) (by decide)
    | insert oper, hbar, hm =>
      have hsplit : (insert oper).serialize = (str "INSERT|" ++ oper.parent.serialize ++ [bar] ++
          oper.ident.serialize) ++ ([bar] ++ decimal oper.ch.toNat) := by
        simp only [serialize, InsertOperation.serialize, List.append_assoc]
      have hlast : c ∉ [bar] ++ decimal oper.ch.toNat := by
        rw [List.mem_append, List.mem_singleton, not_or]
        exact ⟨fun he => absurd hc (by rw [he]; decide), ElementID.notMem_decimal
          (ElementID.not_isDigit_of_lt (lt_trans hc (by decide))) _⟩
      have hfirst := (List.mem_append.mp (hsplit ▸ hm)).resolve_right hlast
      have hle : ((insert oper).serialize.takeWhile (· ≠ c)).count bar ≤ 2 := by
        rw [hsplit, List.takeWhile_append, if_neg fun he => ?_]
        · refine ((List.takeWhile_sublist _).count_le _).trans (le_of_eq ?_)
          simp only [List.count_append, List.count_eq_zero_of_not_mem
            (bar_notMem_serialize (hbar oper.parent.siteId (by simp [sites]))),
            List.count_eq_zero_of_not_mem
            (bar_notMem_serialize (hbar oper.ident.siteId (by simp [sites])))]
          decide
        · have hall := (List.takeWhile_prefix (p := (· ≠ c)) (l := str "INSERT|" ++
            oper.parent.serialize ++ [bar] ++ oper.ident.serialize)).eq_of_length he
          rw [← hall] at hfirst
          exact absurd (List.mem_takeWhile_imp hfirst) (by simp)
      omega
  · have hall : op.serialize.takeWhile (· ≠ c) = op.serialize :=
      List.takeWhile_eq_self_iff.mpr fun b hb => decide_eq_true fun he => hm (he ▸ hb)
    rw [hall, deserialize_serialize hbar] at h
    exact Except.ok.inj h

end Operation

end CrdtEditor
