import CrdtEditor.Foundations.Text

/-!
# Document/Operation — element ids, characters and the two operations

`src/elementID.hpp`, `src/character.hpp`, `src/operation.hpp`.  An `ElementID` is a Lamport clock
value and the site that drew it; ids are compared by clock first and by site second, so the order
is total on ids.
-/

namespace CrdtEditor

/-- The name of an element: a 64-bit Lamport value and the site that generated it. -/
structure ElementID where
  lamport : UInt64
  siteId : Str
  deriving DecidableEq, Repr

/-- `ROOT_ID`, the element every document starts from. -/
def rootId : ElementID := ⟨0, str "__ROOT__"⟩

namespace ElementID

/-- `operator<=>`: by Lamport value, then by site. -/
instance : LinearOrder ElementID :=
  LinearOrder.lift' (fun e => toLex (e.lamport, e.siteId)) fun a b h => by
    obtain ⟨hl, hs⟩ := Prod.mk.inj (toLex.injective h)
    cases a
    cases b
    exact congrArg₂ ElementID.mk hl hs

theorem lt_iff {a b : ElementID} :
    a < b ↔ a.lamport < b.lamport ∨ a.lamport = b.lamport ∧ a.siteId < b.siteId :=
  Prod.Lex.toLex_lt_toLex

/-- A larger clock value makes a larger id, whatever the sites. -/
theorem lt_of_lamport_lt {a b : ElementID} (h : a.lamport < b.lamport) : a < b :=
  lt_iff.mpr (Or.inl h)

/-- `to_String`. -/
def toStr (e : ElementID) : Str :=
  str "<" ++ Text.decimal e.lamport.toNat ++ str ", " ++ e.siteId ++ str ">"

end ElementID

/-- A character with its tombstone flag. -/
structure Character where
  actualChar : UInt8
  deleted : Bool
  deriving DecidableEq, Repr

structure InsertOperation where
  parent : ElementID
  ident : ElementID
  ch : UInt8
  deriving DecidableEq, Repr

structure RemoveOperation where
  theTarget : ElementID
  deriving DecidableEq, Repr

inductive Operation
  | insert (oper : InsertOperation)
  | remove (oper : RemoveOperation)
  deriving DecidableEq, Repr

namespace Operation

/-- Inserts that carry the same id carry the same parent and character. -/
def Consistent (S : Set Operation) : Prop :=
  ∀ a b : InsertOperation, insert a ∈ S → insert b ∈ S → a.ident = b.ident → a = b

/-- The same of two operations. -/
def Agree : Operation → Operation → Prop
  | insert a, insert b => a.ident = b.ident → a = b
  | _, _ => True

instance : DecidableRel Agree
  | insert a, insert b => inferInstanceAs (Decidable (a.ident = b.ident → a = b))
  | insert _, remove _ => inferInstanceAs (Decidable True)
  | remove _, _ => inferInstanceAs (Decidable True)

theorem consistent_iff {S : Set Operation} : Consistent S ↔ ∀ a ∈ S, ∀ b ∈ S, Agree a b := by
  refine ⟨fun h a ha b hb => ?_, fun h a b ha hb => h _ ha _ hb⟩
  match a, b, ha, hb with
  | insert a, insert b, ha, hb => exact h a b ha hb
  | insert _, remove _, _, _ => exact trivial
  | remove _, _, _, _ => exact trivial

/-- Consistency of a finite set is a finite check. -/
instance (ops : List Operation) : Decidable (Consistent {op | op ∈ ops}) :=
  decidable_of_iff (∀ a ∈ ops, ∀ b ∈ ops, Agree a b) consistent_iff.symm

theorem Consistent.mono {S T : Set Operation} (h : Consistent T) (hST : S ⊆ T) : Consistent S :=
  fun a b ha hb => h a b (hST ha) (hST hb)

end Operation

end CrdtEditor
