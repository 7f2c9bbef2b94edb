import CrdtEditor.Document.Traversal

/-!
# Document/Navigation — walking the tree is walking its order

`successor`, `predecessor` and their visible variants walk parents, siblings and last children.  In
terms of the depth-first order they step to the neighbour (`successor_eq`, `predecessor_eq`), and the
visible variants to the nearest visible one.  A caret stands behind one of the `anchors`, the root
and the visible elements in order; between anchors the visible variants move by one.
-/

namespace CrdtEditor.Document

/-! ## The walks -/

/-- `children.at`. -/
def childrenAt (d : Document) (x : ElementID) : Except Exn (List ElementID) :=
  match AList.lookup x d.children with
  | some l => .ok l
  | none => .error (.outOfRange (str "unordered_map::at"))

/-- `parent_of.at`. -/
def parentAt (d : Document) (x : ElementID) : Except Exn ElementID :=
  match AList.lookup x d.parentOf with
  | some p => .ok p
  | none => .error (.outOfRange (str "unordered_map::at"))

/-- The sibling behind the first occurrence of a node. -/
def nextSibling (curr : ElementID) : List ElementID → Option ElementID
  | [] => none
  | x :: l => if x = curr then l.head? else nextSibling curr l

/-- The climbing loop of `successor`: the next sibling of the nearest ancestor that has one. -/
def climb (d : Document) : ℕ → ElementID → Except Exn (Option ElementID)
  | 0, _ => .error .outOfFuel
  | fuel + 1, curr =>
    if curr = rootId then .ok none
    else do
      let parent ← d.parentAt curr
      let siblings ← d.childrenAt parent
      match nextSibling curr siblings with
      | some next => pure (some next)
      | none => d.climb fuel parent

def successor (d : Document) (node : ElementID) : Except Exn (Option ElementID) :=
  match AList.lookup node d.children with
  | none =>
    .error (.runtimeError (str "successor called on node absent from children: " ++ node.toStr))
  | some (c :: _) => .ok (some c)
  | some [] => d.climb d.elements.keys.length node

/-- The loop of `visible_successor`. -/
def nextVisible (d : Document) : ℕ → ElementID → Except Exn (Option ElementID)
  | 0, _ => .error .outOfFuel
  | fuel + 1, node => do
    match ← d.successor node with
    | none => pure none
    | some next =>
      let c ← d.elementAt next
      if c.deleted then d.nextVisible fuel next else pure (some next)

def visibleSuccessor (d : Document) (node : ElementID) : Except Exn (Option ElementID) :=
  d.nextVisible d.elements.keys.length node

/-- The descending loop of `predecessor`: last children all the way down. -/
def deepest (d : Document) : ℕ → ElementID → Except Exn ElementID
  | 0, _ => .error .outOfFuel
  | fuel + 1, x => do
    let below ← d.childrenAt x
    match below.getLast? with
    | none => pure x
    | some c => d.deepest fuel c

def predecessor (d : Document) (node : ElementID) : Except Exn ElementID := do
  let parent ← d.parentAt node
  let siblings ← d.childrenAt parent
  let before := siblings.takeWhile (· ≠ node)
  if before.length = siblings.length then
    throw (.runtimeError (str "Node not found among parent's children."))
  match before.getLast? with
  | none => pure parent
  | some previous => d.deepest d.elements.keys.length previous

/-- The loop of `visible_predecessor`. -/
def lastVisible (d : Document) : ℕ → ElementID → Except Exn ElementID
  | 0, _ => .error .outOfFuel
  | fuel + 1, node => do
    let last ← d.predecessor node
    if last = rootId then pure rootId
    else
      let c ← d.elementAt last
      if c.deleted then d.lastVisible fuel last else pure last

def visiblePredecessor (d : Document) (node : ElementID) : Except Exn ElementID :=
  if node = rootId then .ok rootId else d.lastVisible d.elements.keys.length node

def resolveCursorAnchor (d : Document) (anchor : ElementID) : Except Exn (Option ElementID) := do
  if anchor = rootId then return some rootId
  if anchor ∉ d.elements then return none
  let c ← d.elementAt anchor
  if !c.deleted then return some anchor
  let resolved ← d.visiblePredecessor anchor
  if resolved = rootId then return some rootId
  if resolved ∉ d.elements then return none
  let c ← d.elementAt resolved
  if c.deleted then return none
  let again ← d.visiblePredecessor anchor
  return some again

/-- Where a caret may stand: at the root or behind a visible element. -/
def anchors (d : Document) : List ElementID := rootId :: d.preorder.filter d.isVisible

/-- How many characters are visible up to an element, the element included. -/
def visibleThrough (d : Document) (x : ElementID) : ℕ :=
  (d.preorder.take (d.preorder.idxOf x + 1)).countP d.isVisible

/-! ## One step in the order -/

theorem nextSibling_append {c : ElementID} {l : List ElementID} (h : c ∉ l) (r : List ElementID) :
    nextSibling c (l ++ c :: r) = r.head? := by
  induction l with
  | nil => rw [List.nil_append, nextSibling, if_pos rfl]
  | cons a l ih =>
    rw [List.mem_cons, not_or] at h
    rw [List.cons_append, nextSibling, if_neg (Ne.symm h.1), ih h.2]

namespace IsTree

variable {d : Document}

theorem childrenAt_eq (h : d.IsTree) {x : ElementID} (hx : x ∈ d.elements) :
    d.childrenAt x = .ok (d.childrenOf x) := by
  rw [childrenAt, UMap.lookup_eq_bucket ((h.mem_children x).mpr hx), childrenOf]

theorem parentAt_eq (h : d.IsTree) {x p : ElementID} (hx : x ∈ d.childrenOf p) :
    d.parentAt x = .ok p := by
  rw [parentAt, ((h.mem_childrenOf x p).mp hx).2]

theorem node_iff (h : d.IsTree) {x : ElementID} : h.toTree.Node x ↔ x ∈ d.elements :=
  h.mem_iff_descends.symm

/-- A sibling list cut at a node that occurs once. -/
theorem notMem_of_childrenOf_eq (h : d.IsTree) {p c : ElementID} {l r : List ElementID}
    (hk : d.childrenOf p = l ++ c :: r) : c ∉ l := fun hm => by
  have := h.nodup_childrenOf p
  rw [hk, List.nodup_append] at this
  exact this.2.2 c hm c List.mem_cons_self rfl

/-- **Climbing finds what stands behind the subtree.** -/
theorem climb_eq (h : d.IsTree) {x : ElementID} {pre post : List ElementID}
    (hs : h.toTree.Split x pre post) : ∀ {fuel : ℕ}, d.depth x < fuel →
    d.climb fuel x = .ok post.head? := by
  induction hs with
  | root =>
    intro fuel hf
    obtain ⟨fuel, rfl⟩ := Nat.exists_eq_add_of_lt hf
    rw [climb, toTree_root, if_pos rfl]
    rfl
  | @child p c pre post l r hp hk ih =>
    intro fuel hf
    obtain ⟨fuel, rfl⟩ := Nat.exists_eq_succ_of_ne_zero (Nat.ne_of_gt (Nat.zero_lt_of_lt hf))
    rw [toTree_kids] at hk
    have hc : c ∈ d.childrenOf p := by simp [hk]
    have hroot : c ≠ rootId := ((h.mem_childrenOf c p).mp hc).1
    have hsib : nextSibling c (d.childrenOf p) = r.head? := by
      rw [hk, nextSibling_append (h.notMem_of_childrenOf_eq hk)]
    rw [climb, if_neg hroot, h.parentAt_eq hc]
    simp only [bind, Except.bind, h.childrenAt_eq (h.parent_mem_of_mem_childrenOf hc), hsib]
    cases r with
    | nil =>
      rw [List.flatMap_nil, List.nil_append]
      refine ih ?_
      rw [h.depth_of_mem_childrenOf hc] at hf
      omega
    | cons c' r =>
      have hc' : h.toTree.Node c' := .child hp.node (by simp [hk])
      rw [List.flatMap_cons, OrderedTree.subtree_eq hc']
      rfl

/-- The order, cut at a node. -/
theorem exists_split (h : d.IsTree) {x : ElementID} {a b : List ElementID}
    (hl : d.preorder = a ++ x :: b) :
    ∃ post, h.toTree.Split x a post ∧
      b = (d.childrenOf x).flatMap h.toTree.subtree ++ post := by
  have hx : x ∈ d.preorder := by rw [hl]; simp
  obtain ⟨pre, post, hs⟩ := OrderedTree.exists_split (h.node_iff.mpr (h.mem_preorder.mp hx))
  have hlist : d.preorder = pre ++ x :: ((d.childrenOf x).flatMap h.toTree.subtree ++ post) := by
    have := hs.list_eq
    rw [OrderedTree.subtree_eq hs.node] at this
    exact this
  have hnodup := h.nodup_preorder
  rw [hl, List.nodup_append, List.nodup_cons] at hnodup
  have hxa : x ∉ a := fun hm => hnodup.2.2 x hm x List.mem_cons_self rfl
  obtain ⟨rfl, -, rfl⟩ :=
    (List.append_cons_inj_of_notMem hxa hnodup.2.1.1).mp (hl.symm.trans hlist)
  exact ⟨post, hs, rfl⟩

/-- **`successor` steps forward in the order.** -/
theorem successor_eq (h : d.IsTree) {x : ElementID} {a b : List ElementID}
    (hl : d.preorder = a ++ x :: b) : d.successor x = .ok b.head? := by
  obtain ⟨post, hs, rfl⟩ := h.exists_split hl
  have hx := h.node_iff.mp hs.node
  rw [successor, UMap.lookup_eq_bucket ((h.mem_children x).mpr hx)]
  change (match some (d.childrenOf x) with
    | none => _
    | some (c :: _) => Except.ok (some c)
    | some [] => d.climb d.elements.keys.length x) = _
  cases hk : d.childrenOf x with
  | nil => exact h.climb_eq hs (h.atDepth_depth hx).2
  | cons c l =>
    have hc : h.toTree.Node c := .child hs.node (by simp [hk])
    rw [List.flatMap_cons, OrderedTree.subtree_eq hc]
    rfl

/-- **Descending finds the last node of a subtree.** -/
theorem deepest_eq (h : d.IsTree) : ∀ {fuel : ℕ} {x : ElementID}, x ∈ d.elements →
    d.elements.keys.length ≤ d.depth x + fuel →
    ∃ y, (h.toTree.subtree x).getLast? = some y ∧ d.deepest fuel x = .ok y
  | 0, x, hx, hf => absurd (h.atDepth_depth hx).2 (by omega)
  | fuel + 1, x, hx, hf => by
      rw [OrderedTree.getLast?_subtree (h.node_iff.mpr hx), deepest, h.childrenAt_eq hx, toTree_kids]
      simp only [bind, Except.bind]
      cases hk : (d.childrenOf x).getLast? with
      | none => exact ⟨x, rfl, rfl⟩
      | some c =>
        have hc := List.mem_of_getLast? hk
        refine h.deepest_eq (h.mem_of_mem_childrenOf hc) ?_
        rw [h.depth_of_mem_childrenOf hc]
        omega

/-- **`predecessor` steps back in the order.** -/
theorem predecessor_eq (h : d.IsTree) {x y : ElementID} {a b : List ElementID}
    (hl : d.preorder = a ++ y :: x :: b) : d.predecessor x = .ok y := by
  obtain ⟨post, hs, -⟩ := h.exists_split (x := x) (a := a ++ [y]) (b := b) (by rw [hl]; simp)
  generalize hpre : a ++ [y] = pre at hs
  cases hs with
  | root => exact absurd hpre (by simp)
  | @child p _ pre post l r hp hk =>
    rw [toTree_kids] at hk
    have hx : x ∈ d.childrenOf p := by simp [hk]
    have hbefore : (d.childrenOf p).takeWhile (· ≠ x) = l := by
      have hxl := h.notMem_of_childrenOf_eq hk
      have hne : ∀ z ∈ l, decide (z ≠ x) = true := fun z hz =>
        decide_eq_true fun he => hxl (he ▸ hz)
      rw [hk, List.takeWhile_append_of_pos hne]
      simp
    have hlen : l.length ≠ (d.childrenOf p).length := by simp [hk]
    rw [predecessor, h.parentAt_eq hx]
    simp only [bind, Except.bind, h.childrenAt_eq (h.parent_mem_of_mem_childrenOf hx), hbefore,
      if_neg hlen]
    cases hlast : l.getLast? with
    | none =>
      rw [List.getLast?_eq_none_iff.mp hlast, List.flatMap_nil] at hpre
      rw [(List.append_inj' hpre rfl).2 |> List.singleton_inj.mp]
      rfl
    | some c =>
      have hc : c ∈ d.childrenOf p := by
        rw [hk]
        exact List.mem_append_left _ (List.mem_of_getLast? hlast)
      have hmem := h.mem_of_mem_childrenOf hc
      obtain ⟨z, hz, hdeep⟩ : ∃ z, (h.toTree.subtree c).getLast? = some z ∧
          d.deepest d.elements.keys.length c = .ok z := h.deepest_eq hmem (by omega)
      obtain ⟨l', rfl⟩ := List.getLast?_eq_some_iff.mp hlast
      have hy : (a ++ [y]).getLast? = some z := by
        have hne : h.toTree.subtree c ≠ [] := fun hn => by simp [hn] at hz
        rw [hpre, List.flatMap_append, List.flatMap_singleton, ← List.cons_append,
          ← List.append_assoc, List.getLast?_append_of_ne_nil _ hne, hz]
      rw [List.getLast?_append_of_ne_nil _ (by simp), List.getLast?_singleton] at hy
      rw [Option.some.inj hy]
      exact hdeep

/-! ## The nearest visible element -/

theorem length_preorder_le (h : d.IsTree) : d.preorder.length ≤ d.elements.keys.length :=
  (List.subperm_of_subset h.nodup_preorder fun _ hx => h.mem_preorder.mp hx).length_le

/-- The order begins with the root. -/
theorem head?_preorder (h : d.IsTree) : d.preorder.head? = some rootId :=
  OrderedTree.head?_list (T := h.toTree)

theorem ne_root_of_preorder_eq (h : d.IsTree) {x y : ElementID} {a b : List ElementID}
    (hl : d.preorder = a ++ x :: b) (hy : y ∈ b) : y ≠ rootId := by
  rintro rfl
  have hnodup := h.nodup_preorder
  have hhead := h.head?_preorder
  rw [hl] at hnodup hhead
  cases a with
  | nil =>
    obtain rfl : x = rootId := by simpa using hhead
    exact (List.nodup_cons.mp hnodup).1 hy
  | cons z a =>
    obtain rfl : z = rootId := by simpa using hhead
    rw [List.cons_append, List.nodup_cons] at hnodup
    exact hnodup.1 (List.mem_append_right _ (List.mem_cons_of_mem _ hy))

/-- **`visible_successor` finds the next visible element.** -/
theorem visibleSuccessor_eq (h : d.IsTree) {x : ElementID} {a b : List ElementID}
    (hl : d.preorder = a ++ x :: b) : d.visibleSuccessor x = .ok (b.find? d.isVisible) := by
  have hloop : ∀ (fuel : ℕ) (a b : List ElementID) (x : ElementID), d.preorder = a ++ x :: b →
      b.length < fuel → d.nextVisible fuel x = .ok (b.find? d.isVisible) := by
    intro fuel
    induction fuel with
    | zero => exact fun _ _ _ _ hf => absurd hf (Nat.not_lt_zero _)
    | succ fuel ih =>
      intro a b x hl hf
      rw [nextVisible, h.successor_eq hl]
      cases b with
      | nil => rfl
      | cons y b =>
        have hy : y ∈ d.elements := h.mem_preorder.mp (by rw [hl]; simp)
        obtain ⟨c, hc⟩ := UMap.mem_iff_lookup.mp hy
        have hvis := isVisible_of_lookup (h.ne_root_of_preorder_eq hl List.mem_cons_self) hc
        simp only [bind, Except.bind, List.head?_cons, elementAt_of_lookup hc, List.find?_cons, hvis]
        cases hdel : c.deleted with
        | true => exact ih (a ++ [x]) b y (by rw [hl]; simp) (by simpa using hf)
        | false => rfl
  refine hloop _ a b x hl ?_
  have := h.length_preorder_le
  rw [hl] at this
  simp at this
  omega

/-- **`visible_predecessor` finds the last visible element in front, or the root.** -/
theorem visiblePredecessor_eq (h : d.IsTree) {x : ElementID} {a b : List ElementID}
    (hl : d.preorder = a ++ x :: b) :
    d.visiblePredecessor x = .ok ((a.reverse.find? d.isVisible).getD rootId) := by
  have hloop : ∀ (fuel : ℕ) (a b : List ElementID) (x y : ElementID),
      d.preorder = a ++ y :: x :: b → a.length < fuel →
      d.lastVisible fuel x = .ok (((a ++ [y]).reverse.find? d.isVisible).getD rootId) := by
    intro fuel
    induction fuel with
    | zero => exact fun _ _ _ _ _ hf => absurd hf (Nat.not_lt_zero _)
    | succ fuel ih =>
      intro a b x y hl hf
      rw [lastVisible, h.predecessor_eq hl, List.reverse_append, List.reverse_singleton,
        List.singleton_append, List.find?_cons]
      simp only [bind, Except.bind]
      by_cases hroot : y = rootId
      · subst hroot
        obtain rfl : a = [] := by
          cases a with
          | nil => rfl
          | cons z a =>
            refine absurd rfl (h.ne_root_of_preorder_eq (x := z) (a := []) (by rw [hl]; rfl) ?_)
            simp
        simp [isVisible_root, pure, Except.pure]
      · have hy : y ∈ d.elements := h.mem_preorder.mp (by rw [hl]; simp)
        obtain ⟨c, hc⟩ := UMap.mem_iff_lookup.mp hy
        have hvis := isVisible_of_lookup hroot hc
        rw [if_neg hroot, elementAt_of_lookup hc, hvis]
        dsimp only
        cases hdel : c.deleted with
        | false => rfl
        | true =>
          rw [if_pos rfl]
          rcases List.eq_nil_or_concat a with rfl | ⟨a, z, rfl⟩
          · have hhead := h.head?_preorder
            rw [hl] at hhead
            exact absurd (by simpa using hhead) hroot
          · rw [List.concat_eq_append] at hl hf ⊢
            exact ih a (x :: b) y z (by rw [hl]; simp) (by simpa using hf)
  rw [visiblePredecessor]
  split
  case isTrue hroot =>
    obtain rfl : a = [] := by
      cases a with
      | nil => rfl
      | cons z a =>
        refine absurd hroot (h.ne_root_of_preorder_eq (x := z) (a := []) (by rw [hl]; rfl) ?_)
        simp
    rfl
  case isFalse hroot =>
    rcases List.eq_nil_or_concat a with rfl | ⟨a, y, rfl⟩
    · have hhead := h.head?_preorder
      rw [hl] at hhead
      exact absurd (by simpa using hhead) hroot
    · rw [List.concat_eq_append] at hl ⊢
      refine hloop _ a b x y (by rw [hl]; simp) ?_
      have := h.length_preorder_le
      rw [hl] at this
      simp at this
      omega

/-! ## Between anchors -/

theorem nodup_anchors (h : d.IsTree) : d.anchors.Nodup :=
  List.nodup_cons.mpr ⟨fun hm => by simp [isVisible_root] at hm, h.nodup_preorder.filter _⟩

theorem mem_anchors (h : d.IsTree) {x : ElementID} :
    x ∈ d.anchors ↔ x = rootId ∨ d.isVisible x = true := by
  rw [anchors, List.mem_cons, List.mem_filter, h.mem_preorder]
  exact or_congr_right ⟨fun hx => hx.2, fun hx => ⟨mem_of_isVisible hx, hx⟩⟩

theorem mem_of_mem_anchors (h : d.IsTree) {x : ElementID} (hx : x ∈ d.anchors) :
    x ∈ d.elements :=
  (h.mem_anchors.mp hx).elim (fun he => he ▸ h.root_mem) mem_of_isVisible

/-- The order cut at an anchor: the anchors in front, and those behind. -/
theorem exists_preorder_eq (h : d.IsTree) {x : ElementID} {a b : List ElementID}
    (hx : d.anchors = a ++ x :: b) :
    ∃ a' b', d.preorder = a' ++ x :: b' ∧ b'.filter d.isVisible = b ∧
      (x = rootId → a = [] ∧ a' = []) ∧ (x ≠ rootId → a = rootId :: a'.filter d.isVisible) := by
  cases a with
  | nil =>
    obtain ⟨rfl, rfl⟩ : rootId = x ∧ d.preorder.filter d.isVisible = b := by
      simpa [anchors] using hx
    obtain ⟨l, hl⟩ := List.head?_eq_some_iff.mp h.head?_preorder
    refine ⟨[], l, hl, ?_, fun _ => ⟨rfl, rfl⟩, fun hne => absurd rfl hne⟩
    rw [hl, List.filter_cons_of_neg (by simp [isVisible_root])]
  | cons r a =>
    obtain ⟨rfl, hv⟩ : rootId = r ∧ d.preorder.filter d.isVisible = a ++ x :: b := by
      simpa [anchors] using hx
    obtain ⟨a', b'', hl, ha, hb⟩ := List.filter_eq_append_iff.mp hv
    obtain ⟨c, b', rfl, hc, hxvis, hb'⟩ := List.filter_eq_cons_iff.mp hb
    refine ⟨a' ++ c, b', by rw [hl, List.append_assoc], hb', fun he => ?_, fun _ => ?_⟩
    · exact absurd he (ne_root_of_isVisible hxvis)
    · have hc' : c.filter d.isVisible = [] := List.filter_eq_nil_iff.mpr hc
      rw [List.filter_append, ha, hc', List.append_nil]

/-- **`visible_successor` moves to the next anchor.** -/
theorem visibleSuccessor_anchors (h : d.IsTree) {x : ElementID} {a b : List ElementID}
    (hx : d.anchors = a ++ x :: b) : d.visibleSuccessor x = .ok b.head? := by
  obtain ⟨a', b', hl, rfl, -, -⟩ := h.exists_preorder_eq hx
  rw [h.visibleSuccessor_eq hl, List.head?_filter]

/-- **`visible_predecessor` moves to the anchor in front, and stays at the root.** -/
theorem visiblePredecessor_anchors (h : d.IsTree) {x : ElementID} {a b : List ElementID}
    (hx : d.anchors = a ++ x :: b) : d.visiblePredecessor x = .ok (a.getLast?.getD rootId) := by
  obtain ⟨a', b', hl, -, hroot, hne⟩ := h.exists_preorder_eq hx
  rw [h.visiblePredecessor_eq hl, ← List.head?_filter, List.filter_reverse, List.head?_reverse]
  by_cases he : x = rootId
  · obtain ⟨rfl, rfl⟩ := hroot he
    rfl
  · rw [hne he]
    cases hlast : (a'.filter d.isVisible).getLast? with
    | none => rw [List.getLast?_eq_none_iff.mp hlast]; rfl
    | some y =>
      obtain ⟨l, hl⟩ := List.getLast?_eq_some_iff.mp hlast
      rw [hl, ← List.cons_append, List.getLast?_append_of_ne_nil _ (by simp)]
      rfl

/-- **`visible_predecessor` of an element, visible or not, is an anchor.** -/
theorem exists_visiblePredecessor (h : d.IsTree) {x : ElementID} (hx : x ∈ d.elements) :
    ∃ y ∈ d.anchors, d.visiblePredecessor x = .ok y ∧ (x = rootId → y = rootId) := by
  obtain ⟨a, b, hl⟩ := List.append_of_mem (h.mem_preorder.mpr hx)
  refine ⟨_, h.mem_anchors.mpr ?_, h.visiblePredecessor_eq hl, fun he => ?_⟩
  · cases hf : a.reverse.find? d.isVisible with
    | none => exact Or.inl rfl
    | some y => exact Or.inr (List.find?_some hf)
  · have hok := h.visiblePredecessor_eq hl
    rw [visiblePredecessor, if_pos he] at hok
    exact (Except.ok.inj hok).symm

/-- **Between anchors the two variants undo each other.** -/
theorem visibleSuccessor_iff (h : d.IsTree) {x y : ElementID} (hx : x ∈ d.anchors)
    (hy : y ∈ d.anchors) :
    d.visibleSuccessor x = .ok (some y) ↔ y ≠ rootId ∧ d.visiblePredecessor y = .ok x := by
  constructor
  · intro hs
    obtain ⟨a, b, hl⟩ := List.append_of_mem hx
    rw [h.visibleSuccessor_anchors hl] at hs
    obtain ⟨b, rfl⟩ := List.head?_eq_some_iff.mp (Except.ok.inj hs)
    have hl' : d.anchors = (a ++ [x]) ++ y :: b := by rw [hl]; simp
    refine ⟨fun he => ?_, by rw [h.visiblePredecessor_anchors hl']; simp⟩
    have hnodup := h.nodup_anchors
    rw [hl', List.nodup_append] at hnodup
    refine hnodup.2.2 rootId ?_ y List.mem_cons_self he.symm
    cases a with
    | nil => simpa [anchors] using congrArg List.head? hl
    | cons r a => simp [show rootId = r by simpa [anchors] using congrArg List.head? hl]
  · rintro ⟨hne, hp⟩
    obtain ⟨a, b, hl⟩ := List.append_of_mem hy
    rw [h.visiblePredecessor_anchors hl] at hp
    rcases List.eq_nil_or_concat a with rfl | ⟨a, z, rfl⟩
    · exact absurd (by simpa [anchors] using (congrArg List.head? hl).symm) hne
    · obtain rfl : z = x := by simpa using hp
      have hl' : d.anchors = a ++ z :: y :: b := by rw [hl]; simp
      rw [h.visibleSuccessor_anchors hl', List.head?_cons]

/-- **`resolve_cursor_anchor` steps off a tombstone only.** -/
theorem resolveCursorAnchor_eq (h : d.IsTree) {x : ElementID} (hx : x ∈ d.elements) :
    d.resolveCursorAnchor x =
      if x = rootId ∨ d.isVisible x then .ok (some x) else (d.visiblePredecessor x).map some := by
  by_cases hroot : x = rootId
  · simp [resolveCursorAnchor, hroot, pure, Except.pure]
  obtain ⟨c, hc⟩ := UMap.mem_iff_lookup.mp hx
  have hvis := isVisible_of_lookup hroot hc
  cases hdel : c.deleted with
  | false =>
    simp [resolveCursorAnchor, hroot, hx, hvis, elementAt_of_lookup hc, hdel, pure, Except.pure,
      bind, Except.bind]
  | true =>
    obtain ⟨y, hy, hok, -⟩ := h.exists_visiblePredecessor hx
    have hno : ¬ (x = rootId ∨ d.isVisible x = true) := by simp [hroot, hvis, hdel]
    rw [if_neg hno, hok]
    by_cases hy0 : y = rootId
    · simp [resolveCursorAnchor, hroot, hx, elementAt_of_lookup hc, hdel, hok, hy0, pure,
        Except.pure, bind, Except.bind, Except.map]
    · have hymem := h.mem_of_mem_anchors hy
      obtain ⟨c', hc'⟩ := UMap.mem_iff_lookup.mp hymem
      have hdel' : c'.deleted = false := by
        have := (h.mem_anchors.mp hy).resolve_left hy0
        rw [isVisible_of_lookup hy0 hc'] at this
        simpa using this
      simp [resolveCursorAnchor, hroot, hx, elementAt_of_lookup hc, hdel, hok, hy0, hymem,
        elementAt_of_lookup hc', hdel', pure, Except.pure, bind, Except.bind, Except.map]

/-- A cursor position resolves to an anchor as soon as its element is present. -/
theorem exists_resolveCursorAnchor (h : d.IsTree) {x : ElementID} (hx : x ∈ d.elements) :
    ∃ y ∈ d.anchors, d.resolveCursorAnchor x = .ok (some y) := by
  rw [h.resolveCursorAnchor_eq hx]
  split
  case isTrue ha => exact ⟨x, h.mem_anchors.mpr ha, rfl⟩
  case isFalse =>
    obtain ⟨y, hy, hok, -⟩ := h.exists_visiblePredecessor hx
    exact ⟨y, hy, by rw [hok]; rfl⟩

/-- **A cursor position resolves to the anchor behind the characters that are visible up to it.** -/
theorem resolveCursorAnchor_getElem? (h : d.IsTree) {x : ElementID} (hx : x ∈ d.elements) :
    ∃ y, d.resolveCursorAnchor x = .ok (some y) ∧ d.anchors[d.visibleThrough x]? = some y := by
  obtain ⟨a, b, hl⟩ := List.append_of_mem (h.mem_preorder.mpr hx)
  have hnodup := h.nodup_preorder
  rw [hl, List.nodup_append, List.nodup_cons] at hnodup
  have hxa : x ∉ a := fun hm => hnodup.2.2 x hm x List.mem_cons_self rfl
  have htake : d.preorder.take (d.preorder.idxOf x + 1) = a ++ [x] := by
    rw [hl, List.idxOf_append_of_notMem hxa, List.idxOf_cons_self, List.take_append,
      List.take_of_length_le (Nat.le_succ _), Nat.add_zero, Nat.add_sub_cancel_left]
    rfl
  have hanchors : d.anchors = rootId :: (a.filter d.isVisible ++ (x :: b).filter d.isVisible) := by
    rw [anchors, hl, List.filter_append]
  rw [h.resolveCursorAnchor_eq hx, visibleThrough, htake, List.countP_append, List.countP_singleton,
    List.countP_eq_length_filter]
  by_cases hroot : x = rootId
  · obtain rfl : a = [] := by
      have hhead := h.head?_preorder
      rw [hl] at hhead
      cases a with
      | nil => rfl
      | cons r a =>
        exact absurd ((Option.some.inj hhead).trans hroot.symm ▸ List.mem_cons_self) hxa
    rw [if_pos (Or.inl hroot), hroot, isVisible_root]
    exact ⟨rootId, rfl, rfl⟩
  by_cases hvis : d.isVisible x = true
  · rw [if_pos (Or.inr hvis), if_pos hvis, hanchors, List.filter_cons_of_pos hvis,
      List.getElem?_cons_succ, List.getElem?_append_right le_rfl, Nat.sub_self]
    exact ⟨x, rfl, rfl⟩
  · rw [if_neg (not_or.mpr ⟨hroot, hvis⟩), if_neg hvis, h.visiblePredecessor_eq hl, Nat.add_zero,
      hanchors, ← List.head?_filter, List.filter_reverse, List.head?_reverse]
    refine ⟨_, rfl, ?_⟩
    obtain hnil | ⟨l, z, hz⟩ := List.eq_nil_or_concat (a.filter d.isVisible)
    · rw [hnil]
      rfl
    · rw [hz, List.concat_eq_append, List.getLast?_concat, List.length_append, List.length_singleton,
        List.getElem?_cons_succ, List.append_assoc, List.getElem?_append_right le_rfl, Nat.sub_self]
      rfl

/-- Until then it stays unresolved. -/
theorem resolveCursorAnchor_of_notMem (h : d.IsTree) {x : ElementID} (hx : x ∉ d.elements) :
    d.resolveCursorAnchor x = .ok none := by
  have hroot : x ≠ rootId := fun he => hx (he ▸ h.root_mem)
  simp [resolveCursorAnchor, hroot, hx, pure, Except.pure]

end IsTree

/-- **Navigation agrees with the traversal**, in every document that a stream of operations leads to:
`preorder` is the depth-first order of all elements, the walks step along it, the visible variants
and `resolve_cursor_anchor` to what is visible in it, and none of them throws. -/
theorem navigation_of_after (ops : List Operation) :
    let d := after ops
    -- the order
    (∃ below : ElementID → List ElementID, d.preorder = below rootId ∧
      ∀ x ∈ d.elements, below x = x :: (d.childrenOf x).flatMap below) ∧
    d.preorder.Nodup ∧ (∀ x, x ∈ d.preorder ↔ x ∈ d.elements) ∧
    d.preorder.head? = some rootId ∧ d.visible = .ok (d.preorder.filter d.isVisible) ∧
    -- the walks
    (∀ a x b, d.preorder = a ++ x :: b →
      d.successor x = .ok b.head? ∧
      (x ≠ rootId → ∃ y, a.getLast? = some y ∧ d.predecessor x = .ok y) ∧
      d.visibleSuccessor x = .ok (b.find? d.isVisible) ∧
      d.visiblePredecessor x = .ok ((a.reverse.find? d.isVisible).getD rootId) ∧
      d.resolveCursorAnchor x =
        if x = rootId ∨ d.isVisible x then .ok (some x) else (d.visiblePredecessor x).map some) ∧
    -- and back
    ∀ x ∈ rootId :: d.preorder.filter d.isVisible, ∀ y ∈ rootId :: d.preorder.filter d.isVisible,
      d.visibleSuccessor x = .ok (some y) ↔ y ≠ rootId ∧ d.visiblePredecessor y = .ok x := by
  have h := isTree_after ops
  refine ⟨⟨h.toTree.subtree, (OrderedTree.subtree_root (T := h.toTree)).symm, fun x hx =>
    OrderedTree.subtree_eq (h.node_iff.mpr hx)⟩, h.nodup_preorder, fun x => h.mem_preorder,
    h.head?_preorder, h.visible_eq, fun a x b hl => ?_, fun x hx y hy => h.visibleSuccessor_iff hx hy⟩
  have hx : x ∈ (after ops).elements := h.mem_preorder.mp (by rw [hl]; simp)
  refine ⟨h.successor_eq hl, fun hne => ?_, h.visibleSuccessor_eq hl, h.visiblePredecessor_eq hl,
    h.resolveCursorAnchor_eq hx⟩
  rcases List.eq_nil_or_concat a with rfl | ⟨a, y, rfl⟩
  · have hhead := h.head?_preorder
    rw [hl] at hhead
    exact absurd (by simpa using hhead) hne
  · refine ⟨y, by simp, h.predecessor_eq (a := a) (b := b) ?_⟩
    rw [hl]
    simp

end CrdtEditor.Document
