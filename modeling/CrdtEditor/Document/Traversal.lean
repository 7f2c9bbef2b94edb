import CrdtEditor.Document.Tree
import CrdtEditor.Foundations.OrderedTree

/-!
# Document/Traversal — the depth-first order and the text

`Document::visit_visible` and `Document::render`.  `IsTree.toTree` reads a document that satisfies
the tree invariant as an `OrderedTree`; its order `preorder` lists every element, tombstones
included, and the traversal of the code returns exactly the visible ones among them, in that order
(`visible_eq`).  An operation only inserts into `preorder` (`Extends.preorder_sublist`).
-/

open scoped List

namespace CrdtEditor.Document

/-- `elements.at`. -/
def elementAt (d : Document) (x : ElementID) : Except Exn Character :=
  match AList.lookup x d.elements with
  | some c => .ok c
  | none => .error (.outOfRange (str "unordered_map::at"))

/-- `visit_visible`, as the list of ids its visitor is called on. -/
def visitVisible (d : Document) : ℕ → ElementID → Except Exn (List ElementID)
  | 0, _ => .error .outOfFuel
  | fuel + 1, node => do
    let here ← if node = rootId then pure [] else do
      let c ← d.elementAt node
      pure (if c.deleted then [] else [node])
    let below ← (d.childrenOf node).mapM (d.visitVisible fuel)
    pure (here ++ below.flatten)

/-- The traversal from the root; no element lies deeper than the number of elements. -/
def visible (d : Document) : Except Exn (List ElementID) :=
  d.visitVisible d.elements.keys.length rootId

/-- `get_character`. -/
def getCharacter (d : Document) (x : ElementID) : Except Exn UInt8 := do
  let c ← d.elementAt x
  pure c.actualChar

/-- `Document::render`: the characters of the visible elements, in order. -/
def render (d : Document) : Except Exn Str := do
  let ids ← d.visible
  ids.mapM d.getCharacter

/-- Every element in depth-first order, tombstones included. -/
def preorder (d : Document) : List ElementID :=
  depthFirst d.childrenOf d.elements.keys.length rootId

/-- The steps up to the root, counted within a bound. -/
def depthFrom (d : Document) : ℕ → ElementID → ℕ
  | 0, _ => 0
  | n + 1, x => if x = rootId then 0 else d.depthFrom n (d.parent x) + 1

/-- The depth of an element below the root. -/
def depth (d : Document) (x : ElementID) : ℕ := d.depthFrom d.elements.keys.length x

/-- Visible in the text: neither the root nor a tombstone. -/
def isVisible (d : Document) (x : ElementID) : Bool :=
  x ≠ rootId && (AList.lookup x d.elements).any fun c => !c.deleted

/-- The character an element carries. -/
def charOf (d : Document) (x : ElementID) : UInt8 :=
  ((AList.lookup x d.elements).map Character.actualChar).getD 0

theorem elementAt_of_lookup {d : Document} {x : ElementID} {c : Character}
    (h : AList.lookup x d.elements = some c) : d.elementAt x = .ok c := by rw [elementAt, h]

/-- The character of an element that exists is found. -/
theorem getCharacter_of_mem {d : Document} {x : ElementID} (h : x ∈ d.elements) :
    d.getCharacter x = .ok (d.charOf x) := by
  obtain ⟨c, hc⟩ := UMap.mem_iff_lookup.mp h
  rw [getCharacter, elementAt_of_lookup hc, charOf, hc]
  rfl

theorem isVisible_of_lookup {d : Document} {x : ElementID} {c : Character} (hx : x ≠ rootId)
    (h : AList.lookup x d.elements = some c) : d.isVisible x = !c.deleted := by
  simp [isVisible, hx, h]

/-- Only elements are visible. -/
theorem mem_of_isVisible {d : Document} {x : ElementID} (h : d.isVisible x = true) :
    x ∈ d.elements := by
  rw [isVisible, Bool.and_eq_true] at h
  cases hc : AList.lookup x d.elements with
  | none => simp [hc] at h
  | some c => exact UMap.mem_of_lookup hc

/-- The root is never visible. -/
theorem ne_root_of_isVisible {d : Document} {x : ElementID} (h : d.isVisible x = true) :
    x ≠ rootId := by
  rw [isVisible, Bool.and_eq_true] at h
  simpa using h.1

theorem isVisible_root (d : Document) : d.isVisible rootId = false := by simp [isVisible]

/-! ## The document as a tree -/

/-- The search for the depth finds it, once it may climb that far. -/
theorem AtDepth.depthFrom {d : Document} {n : ℕ} {x : ElementID} (h : d.AtDepth n x) :
    ∀ {m : ℕ}, n ≤ m → d.depthFrom m x = n := by
  induction h with
  | root =>
    intro m _
    cases m with
    | zero => rfl
    | succ m => rw [Document.depthFrom, if_pos rfl]
  | child hx hp _ ih =>
    intro m hm
    obtain ⟨m, rfl⟩ := Nat.exists_eq_succ_of_ne_zero (Nat.ne_of_gt (Nat.lt_of_succ_le hm).pos)
    rw [Document.depthFrom, if_neg hx, parent, hp, Option.getD_some,
      ih (Nat.le_of_succ_le_succ hm)]

namespace IsTree

variable {d : Document}

/-- Every element has a depth, and it is less than the number of elements. -/
theorem atDepth_depth (h : d.IsTree) {x : ElementID} (hx : x ∈ d.elements) :
    d.AtDepth (d.depth x) x ∧ d.depth x < d.elements.keys.length := by
  obtain ⟨n, hn, hd⟩ := h.depth x hx
  have he : d.depth x = n := hd.depthFrom hn.le
  rw [he]
  exact ⟨hd, hn⟩

/-- A child is one deeper than its parent. -/
theorem depth_of_mem_childrenOf (h : d.IsTree) {c p : ElementID} (hc : c ∈ d.childrenOf p) :
    d.depth c = d.depth p + 1 := by
  obtain ⟨hr, hp⟩ := (h.mem_childrenOf c p).mp hc
  obtain ⟨hcd, hlt⟩ := h.atDepth_depth (h.mem_of_mem_childrenOf hc)
  obtain ⟨hpd, -⟩ := h.atDepth_depth (h.parent_mem_of_mem_childrenOf hc)
  have hstep := AtDepth.child hr hp hpd
  -- two depths of one element agree, both being counted by `depthFrom`
  have := hcd.depthFrom (m := d.depth c + (d.depth p + 1)) (by omega)
  rw [hstep.depthFrom (by omega)] at this
  exact this.symm

/-- **The elements are what descends from the root.** -/
theorem mem_iff_descends (h : d.IsTree) {x : ElementID} :
    x ∈ d.elements ↔ Descends d.childrenOf rootId x := by
  constructor
  · intro hx
    obtain ⟨hd, -⟩ := h.atDepth_depth hx
    generalize d.depth x = n at hd
    induction hd with
    | root => exact .root
    | child hr hp _ ih =>
      exact .child (ih (h.parent_mem hr hp)) ((h.mem_childrenOf _ _).mpr ⟨hr, hp⟩)
  · intro hx
    cases hx with
    | root => exact h.root_mem
    | child _ hc => exact h.mem_of_mem_childrenOf hc

/-- **A document that satisfies the invariant is a finite tree.** -/
def toTree (h : d.IsTree) : OrderedTree ElementID where
  kids := d.childrenOf
  root := rootId
  parent := d.parent
  depth := d.depth
  height := d.elements.keys.length
  depth_root := AtDepth.root.depthFrom (Nat.zero_le _)
  parent_of_mem hc := by rw [parent, ((h.mem_childrenOf _ _).mp hc).2, Option.getD_some]
  depth_of_mem hc := h.depth_of_mem_childrenOf hc
  nodup_kids := h.nodup_childrenOf
  depth_lt hx := (h.atDepth_depth (h.mem_iff_descends.mpr hx)).2

@[simp] theorem toTree_kids (h : d.IsTree) : h.toTree.kids = d.childrenOf := rfl

@[simp] theorem toTree_root (h : d.IsTree) : h.toTree.root = rootId := rfl

/-- The traversal visits nothing twice. -/
theorem nodup_preorder (h : d.IsTree) : d.preorder.Nodup := h.toTree.nodup_list

/-- It visits every element, deleted ones included. -/
theorem mem_preorder (h : d.IsTree) {x : ElementID} : x ∈ d.preorder ↔ x ∈ d.elements :=
  (OrderedTree.mem_list (T := h.toTree)).trans h.mem_iff_descends.symm

/-- **The traversal of the code returns the visible part of a subtree.** -/
theorem visitVisible_eq (h : d.IsTree) : ∀ (fuel : ℕ) {x : ElementID}, x ∈ d.elements →
    d.elements.keys.length ≤ d.depth x + fuel →
    d.visitVisible fuel x = .ok ((h.toTree.subtree x).filter d.isVisible)
  | 0, x, hx, hf => absurd (h.atDepth_depth hx).2 (by omega)
  | fuel + 1, x, hx, hf => by
      have hbelow : (d.childrenOf x).mapM (d.visitVisible fuel) =
          .ok ((d.childrenOf x).map fun c => (h.toTree.subtree c).filter d.isVisible) := by
        refine Except.mapM_eq_ok fun c hc =>
          h.visitVisible_eq fuel (h.mem_of_mem_childrenOf hc) ?_
        rw [h.depth_of_mem_childrenOf hc]
        omega
      have hsub : h.toTree.subtree x =
          x :: (d.childrenOf x).flatMap h.toTree.subtree :=
        OrderedTree.subtree_eq (h.mem_iff_descends.mp hx)
      have hflat : ((d.childrenOf x).map fun c => (h.toTree.subtree c).filter d.isVisible).flatten =
          ((d.childrenOf x).flatMap h.toTree.subtree).filter d.isVisible := by
        rw [List.filter_flatMap, List.flatMap_def]
      rw [visitVisible, hbelow, hsub]
      by_cases hr : x = rootId
      · subst hr
        rw [List.filter_cons_of_neg (by simp [isVisible_root])]
        simp only [if_pos, hflat, bind, Except.bind, pure, Except.pure,
          List.nil_append]
      · obtain ⟨c, hc⟩ := UMap.mem_iff_lookup.mp hx
        have hvis := isVisible_of_lookup hr hc
        cases hdel : c.deleted with
        | true =>
          rw [List.filter_cons_of_neg (by simp [hvis, hdel])]
          simp [hr, elementAt_of_lookup hc, hdel, hflat, bind, Except.bind, pure, Except.pure]
        | false =>
          rw [List.filter_cons_of_pos (by simp [hvis, hdel])]
          simp [hr, elementAt_of_lookup hc, hdel, hflat, bind, Except.bind, pure, Except.pure]

/-- **`visit_visible` from the root: the visible part of the depth-first order.** -/
theorem visible_eq (h : d.IsTree) : d.visible = .ok (d.preorder.filter d.isVisible) := by
  rw [visible, h.visitVisible_eq _ h.root_mem (by omega)]
  exact congrArg (fun l => Except.ok (List.filter d.isVisible l)) OrderedTree.subtree_root

/-- **`render`: the characters of the visible part.** -/
theorem render_eq (h : d.IsTree) :
    d.render = .ok ((d.preorder.filter d.isVisible).map d.charOf) := by
  rw [render, h.visible_eq]
  exact Except.mapM_eq_ok fun x hx =>
    getCharacter_of_mem (mem_of_isVisible (List.mem_filter.mp hx).2)

end IsTree

/-! ## The order only grows -/

/-- A strictly descending list inside another one is a sublist. -/
theorem sublist_of_pairwise_gt {α : Type*} [LinearOrder α] {l l' : List α}
    (hl : l.Pairwise (· > ·)) (hl' : l'.Pairwise (· > ·)) (h : l ⊆ l') : l <+ l' := by
  have hnodup : l.Nodup := hl.imp fun hab => ne_of_gt hab
  exact List.sublist_of_subperm_of_pairwise (List.subperm_of_subset hnodup h) (r := (· ≥ ·))
    (hl.imp le_of_lt) (hl'.imp le_of_lt)

/-- **Extending a document only inserts into its order**: what is there keeps its order. -/
theorem Extends.preorder_sublist {d d' : Document} (he : Extends d d') (h : d.IsTree)
    (h' : d'.IsTree) : d.preorder <+ d'.preorder := by
  refine depthFirst_sublist (fun p => ?_) rootId ?_
  · refine sublist_of_pairwise_gt (h.descending p) (h'.descending p) fun x hx => ?_
    obtain ⟨hr, hp⟩ := (h.mem_childrenOf x p).mp hx
    exact (h'.mem_childrenOf x p).mpr ⟨hr, he.parentOf x p hp⟩
  · exact (List.subperm_of_subset d.elements.keys_nodup fun x hx => he.mem hx).length_le

end CrdtEditor.Document
