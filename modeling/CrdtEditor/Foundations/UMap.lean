import Mathlib

/-!
# Foundations/UMap — hash maps as duplicate-free association lists

`UMap κ ν` is Mathlib's `AList` with one value type: each key occurs once, so a lookup determines
the entry and the order of the entries carries no meaning.  On top of it sit the two shapes a
program builds from hash maps: the keep-the-old-entry insertion `emplace`, and a map of *buckets*
(`push`, `contents`), whose contents are a multiset because a bucket map is emptied bucket by
bucket.
-/

/-- A map from keys to values; the order of its entries is not observable through `lookup`. -/
abbrev UMap (κ : Type*) (ν : Type*) := AList fun _ : κ => ν

namespace UMap

section Lookup

variable {κ ν : Type*} [DecidableEq κ]

/-- What is found after an assignment. -/
theorem lookup_insert (m : UMap κ ν) (k k' : κ) (v : ν) :
    AList.lookup k' (AList.insert k v m) = if k' = k then some v else AList.lookup k' m := by
  by_cases h : k' = k
  · subst h
    rw [AList.lookup_insert, if_pos rfl]
  · rw [AList.lookup_insert_ne h, if_neg h]

/-- What is found after an erasure. -/
theorem lookup_erase (m : UMap κ ν) (k k' : κ) :
    AList.lookup k' (AList.erase k m) = if k' = k then none else AList.lookup k' m := by
  by_cases h : k' = k
  · subst h
    rw [AList.lookup_erase, if_pos rfl]
  · rw [AList.lookup_erase_ne h, if_neg h]

/-- A key is present if something is found there. -/
theorem mem_iff_lookup {m : UMap κ ν} {k : κ} : k ∈ m ↔ ∃ v, AList.lookup k m = some v := by
  rw [← AList.lookup_isSome, Option.isSome_iff_exists]

theorem mem_of_lookup {m : UMap κ ν} {k : κ} {v : ν} (h : AList.lookup k m = some v) : k ∈ m :=
  mem_iff_lookup.mpr ⟨v, h⟩

/-- Iterating and looking up agree. -/
theorem mem_entries {m : UMap κ ν} {k : κ} {v : ν} :
    (⟨k, v⟩ : Sigma fun _ : κ => ν) ∈ m.entries ↔ AList.lookup k m = some v :=
  AList.mem_lookup_iff.symm

/-- Insertion that leaves an existing entry alone. -/
def emplace (m : UMap κ ν) (k : κ) (v : ν) : UMap κ ν := if k ∈ m then m else AList.insert k v m

theorem emplace_of_notMem {m : UMap κ ν} {k : κ} (h : k ∉ m) (v : ν) :
    emplace m k v = AList.insert k v m := if_neg h

/-- A map of known size gains one entry per new key. -/
theorem length_keys_insert {m : UMap κ ν} {k : κ} (h : k ∉ m) (v : ν) :
    (AList.insert k v m).keys.length = m.keys.length + 1 := by
  rw [AList.keys_insert, List.erase_of_not_mem h, List.length_cons]

omit [DecidableEq κ] in
/-- Maps with the same keys have the same size. -/
theorem length_keys_congr {m m' : UMap κ ν} (h : ∀ k, k ∈ m ↔ k ∈ m') :
    m.keys.length = m'.keys.length :=
  ((List.perm_ext_iff_of_nodup m.keys_nodup m'.keys_nodup).mpr h).length_eq

end Lookup

/-! ## Buckets

A map whose values are lists, read as the multiset of everything filed under some key. -/

section Buckets

variable {κ α : Type*} [DecidableEq κ]

/-- The bucket of a key, empty where the key is missing. -/
def bucket (m : UMap κ (List α)) (k : κ) : List α := (AList.lookup k m).getD []

theorem lookup_eq_bucket {m : UMap κ (List α)} {k : κ} (h : k ∈ m) :
    AList.lookup k m = some (bucket m k) := by
  obtain ⟨xs, hxs⟩ := mem_iff_lookup.mp h
  rw [bucket, hxs, Option.getD_some]

/-- File an item under a key, creating the bucket on first use. -/
def push (m : UMap κ (List α)) (k : κ) (x : α) : UMap κ (List α) :=
  AList.insert k (bucket m k ++ [x]) m

/-- What is in a bucket is found under its key. -/
theorem mem_bucket {m : UMap κ (List α)} {k : κ} {x : α} :
    x ∈ bucket m k ↔ ∃ xs, AList.lookup k m = some xs ∧ x ∈ xs := by
  rw [bucket]
  cases AList.lookup k m with
  | none => simp
  | some xs => simp

/-- Assigning a bucket. -/
theorem bucket_insert (m : UMap κ (List α)) (k k' : κ) (xs : List α) :
    bucket (AList.insert k xs m) k' = if k' = k then xs else bucket m k' := by
  rw [bucket, lookup_insert]
  split
  · exact Option.getD_some
  · rw [bucket]

/-- Erasing one leaves the empty bucket. -/
theorem bucket_erase (m : UMap κ (List α)) (k k' : κ) :
    bucket (AList.erase k m) k' = if k' = k then [] else bucket m k' := by
  rw [bucket, lookup_erase]
  split
  · exact Option.getD_none
  · rw [bucket]

/-- Pushing to one leaves the others. -/
theorem bucket_push (m : UMap κ (List α)) (k k' : κ) (x : α) :
    bucket (push m k x) k' = if k' = k then bucket m k ++ [x] else bucket m k' :=
  bucket_insert m k k' _

/-- Everything filed, over all buckets. -/
def contents (m : UMap κ (List α)) : Multiset α := (m.entries.flatMap fun e => e.2 : List α)

omit [DecidableEq κ] in
@[simp] theorem contents_empty : contents (∅ : UMap κ (List α)) = 0 := rfl

/-- Something is among the contents if it is in some bucket. -/
theorem mem_contents {m : UMap κ (List α)} {x : α} :
    x ∈ contents m ↔ ∃ k xs, AList.lookup k m = some xs ∧ x ∈ xs := by
  rw [contents, Multiset.mem_coe, List.mem_flatMap]
  constructor
  · rintro ⟨⟨k, xs⟩, hk, hx⟩
    exact ⟨k, xs, mem_entries.mp hk, hx⟩
  · rintro ⟨k, xs, hk, hx⟩
    exact ⟨⟨k, xs⟩, mem_entries.mpr hk, hx⟩

/-- **Taking a bucket out splits the contents.** -/
theorem contents_erase (m : UMap κ (List α)) (k : κ) :
    contents m = (bucket m k : Multiset α) + contents (AList.erase k m) := by
  by_cases h : k ∈ m
  · obtain ⟨xs, l₁, l₂, -, hm, he⟩ := List.exists_of_kerase (a := k) (l := m.entries) h
    have hb : bucket m k = xs := by
      have : AList.lookup k m = some xs := mem_entries.mp (by rw [hm]; simp)
      rw [bucket, this, Option.getD_some]
    have he' : (AList.erase k m).entries = l₁ ++ l₂ := he
    rw [contents, contents, he', hb, hm, Multiset.coe_add, Multiset.coe_eq_coe]
    simp only [List.flatMap_append, List.flatMap_cons]
    rw [← List.append_assoc, ← List.append_assoc]
    exact List.Perm.append_right _ List.perm_append_comm
  · have hb : bucket m k = [] := by rw [bucket, AList.lookup_eq_none.mpr h, Option.getD_none]
    have he : (AList.erase k m).entries = m.entries := List.kerase_of_notMem_keys h
    rw [hb, contents, contents, he, Multiset.coe_nil, zero_add]

/-- Assigning a bucket replaces its old contents. -/
theorem contents_insert (m : UMap κ (List α)) (k : κ) (xs : List α) :
    contents (AList.insert k xs m) = (xs : Multiset α) + contents (AList.erase k m) := by
  rw [contents_erase (AList.insert k xs m) k]
  have hb : bucket (AList.insert k xs m) k = xs := by rw [bucket_insert, if_pos rfl]
  have he : AList.erase k (AList.insert k xs m) = AList.erase k m := by
    apply AList.ext
    change List.kerase k (List.kinsert k xs m.entries) = List.kerase k m.entries
    rw [List.kinsert_def, List.kerase_cons_eq (by rfl)]
  rw [hb, he]

/-- **Filing an item adds exactly that item.** -/
theorem contents_push (m : UMap κ (List α)) (k : κ) (x : α) :
    contents (push m k x) = x ::ₘ contents m := by
  rw [push, contents_insert, contents_erase m k, ← Multiset.coe_add, ← Multiset.cons_add,
    add_comm (bucket m k : Multiset α), Multiset.coe_singleton, Multiset.singleton_add]

/-- The bucket filed under a key is part of the contents. -/
theorem mem_contents_of_mem_bucket {m : UMap κ (List α)} {k : κ} {x : α} (h : x ∈ bucket m k) :
    x ∈ contents m := by
  rw [contents_erase m k]
  exact Multiset.mem_add.mpr (Or.inl (Multiset.mem_coe.mpr h))

end Buckets

end UMap
