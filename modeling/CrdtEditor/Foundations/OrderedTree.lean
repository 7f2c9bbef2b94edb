import Mathlib

/-!
# Foundations/OrderedTree — a finite tree given by its child lists

An `OrderedTree` is what a pointer structure gives: a list of children for each node, a parent for
each node and a bound on the depth.  Its depth-first order is `list`.  Every node cuts it into three
parts, `list = pre ++ subtree x ++ post`, and `Split` builds the parts downwards from the root: the
last entry of `pre` is the node before `x`, the first entry after `x` the one behind it.  A loop
that walks parents, siblings and last children is verified against `pre` and `post`.

Growing the child lists only inserts into the order: `depthFirst_sublist`.
-/

open scoped List

section DepthFirst

variable {α : Type*}

/-- The depth-first order of everything less than `n` levels below a node. -/
def depthFirst (kids : α → List α) : ℕ → α → List α
  | 0, _ => []
  | n + 1, a => a :: (kids a).flatMap (depthFirst kids n)

/-- Mapping over a longer list, to longer lists, gives a longer list. -/
theorem List.Sublist.flatMap_of_sublist {β : Type*} {f g : α → List β} (hfg : ∀ a, f a <+ g a)
    {l l' : List α} (h : l <+ l') : l.flatMap f <+ l'.flatMap g := by
  induction h with
  | slnil => exact List.Sublist.refl _
  | cons a _ ih => exact ih.trans (List.sublist_append_right _ _)
  | cons_cons a _ ih => exact (hfg a).append ih

/-- **Longer child lists only insert into the depth-first order.** -/
theorem depthFirst_sublist {kids kids' : α → List α} (h : ∀ a, kids a <+ kids' a) :
    ∀ {n m : ℕ} (a : α), n ≤ m → depthFirst kids n a <+ depthFirst kids' m a
  | 0, _, _, _ => List.nil_sublist _
  | _ + 1, 0, _, hnm => absurd hnm (Nat.not_succ_le_zero _)
  | _ + 1, _ + 1, a, hnm =>
      ((h a).flatMap_of_sublist fun b => depthFirst_sublist h b (Nat.le_of_succ_le_succ hnm)).cons_cons a

/-- In a duplicate-free list two entries stand in one order only. -/
theorem List.Nodup.not_sublist_swap {l : List α} (h : l.Nodup) {x y : α} (hxy : [x, y] <+ l) :
    ¬ [y, x] <+ l := by
  intro hyx
  induction l with
  | nil => exact absurd (List.sublist_nil.mp hxy) (by simp)
  | cons a l ih =>
    obtain ⟨ha, hl⟩ := List.nodup_cons.mp h
    rcases List.cons_sublist_cons'.mp hxy with hxy' | ⟨rfl, hy⟩
    · rcases List.cons_sublist_cons'.mp hyx with hyx' | ⟨rfl, -⟩
      · exact ih hl hxy' hyx'
      · exact ha (hxy'.subset (by simp))
    · rcases List.cons_sublist_cons'.mp hyx with hyx' | ⟨rfl, -⟩
      · exact ha (hyx'.subset (by simp))
      · exact ha (hy.subset (by simp))

/-- Two entries of a list stand in one order or the other. -/
theorem List.pair_sublist_or {l : List α} {x y : α} (hx : x ∈ l) (hy : y ∈ l) (hne : x ≠ y) :
    [x, y] <+ l ∨ [y, x] <+ l := by
  induction l with
  | nil => exact absurd hx List.not_mem_nil
  | cons a l ih =>
    rcases List.mem_cons.mp hx with rfl | hx'
    · have hy' : y ∈ l := (List.mem_cons.mp hy).resolve_left hne.symm
      exact Or.inl ((List.singleton_sublist.mpr hy').cons_cons x)
    · rcases List.mem_cons.mp hy with rfl | hy'
      · exact Or.inr ((List.singleton_sublist.mpr hx').cons_cons y)
      · exact (ih hx' hy').imp (·.cons a) (·.cons a)

/-- **A sublist keeps the order of its entries.** -/
theorem List.Nodup.pair_sublist_iff {l l' : List α} (h : l'.Nodup) (hl : l <+ l') {x y : α}
    (hx : x ∈ l) (hy : y ∈ l) : [x, y] <+ l ↔ [x, y] <+ l' := by
  refine ⟨fun hxy => hxy.trans hl, fun hxy => ?_⟩
  have hne : x ≠ y := by
    rintro rfl
    exact h.not_sublist_swap hxy hxy
  exact (List.pair_sublist_or hx hy hne).resolve_right fun hyx =>
    h.not_sublist_swap hxy (hyx.trans hl)

end DepthFirst

/-- What is reached from the root by descending the child lists. -/
inductive Descends {α : Type*} (kids : α → List α) (root : α) : α → Prop
  | root : Descends kids root root
  | child {p c : α} (hp : Descends kids root p) (hc : c ∈ kids p) : Descends kids root c

/-- **A finite tree**: child lists, with the parent and the depth they agree with. -/
structure OrderedTree (α : Type*) where
  kids : α → List α
  root : α
  parent : α → α
  depth : α → ℕ
  height : ℕ
  depth_root : depth root = 0
  parent_of_mem : ∀ {c p}, c ∈ kids p → parent c = p
  depth_of_mem : ∀ {c p}, c ∈ kids p → depth c = depth p + 1
  nodup_kids : ∀ p, (kids p).Nodup
  depth_lt : ∀ {x}, Descends kids root x → depth x < height

namespace OrderedTree

variable {α : Type*} (T : OrderedTree α)

/-- The nodes of the tree. -/
abbrev Node (x : α) : Prop := Descends T.kids T.root x

/-- The depth-first order of the tree. -/
def list : List α := depthFirst T.kids T.height T.root

/-- The depth-first order of what hangs at a node, the node included. -/
def subtree (x : α) : List α := depthFirst T.kids (T.height - T.depth x) x

variable {T}

theorem subtree_root : T.subtree T.root = T.list := by rw [subtree, T.depth_root, Nat.sub_zero, list]

/-- **A subtree is its root followed by the subtrees of the children.** -/
theorem subtree_eq {x : α} (hx : T.Node x) :
    T.subtree x = x :: (T.kids x).flatMap T.subtree := by
  obtain ⟨n, hn⟩ := Nat.exists_eq_add_of_lt (T.depth_lt hx)
  have hh : T.height - T.depth x = n + 1 := by omega
  rw [subtree, hh, depthFirst]
  refine congrArg (x :: ·) (List.flatMap_congr fun c hc => ?_)
  rw [subtree, T.depth_of_mem hc, show T.height - (T.depth x + 1) = n by omega]

/-- An entry of a depth-first list hangs at its start, as deep as its parents say. -/
theorem of_mem_depthFirst : ∀ {n : ℕ} {a x : α}, x ∈ depthFirst T.kids n a →
    ∃ k < n, T.parent^[k] x = a ∧ T.depth x = T.depth a + k
  | 0, _, _, h => absurd h List.not_mem_nil
  | n + 1, a, x, h => by
      rcases List.mem_cons.mp h with rfl | h
      · exact ⟨0, Nat.succ_pos n, rfl, rfl⟩
      · obtain ⟨c, hc, hx⟩ := List.mem_flatMap.mp h
        obtain ⟨k, hk, hpar, hdep⟩ := of_mem_depthFirst hx
        refine ⟨k + 1, Nat.succ_lt_succ hk, ?_, ?_⟩
        · rw [Function.iterate_succ_apply', hpar, T.parent_of_mem hc]
        · rw [hdep, T.depth_of_mem hc]
          omega

/-- **No node is listed twice.** -/
theorem nodup_depthFirst : ∀ (n : ℕ) (a : α), (depthFirst T.kids n a).Nodup
  | 0, _ => List.nodup_nil
  | n + 1, a => by
      rw [depthFirst, List.nodup_cons, List.nodup_flatMap]
      refine ⟨fun h => ?_, fun c _ => nodup_depthFirst n c, ?_⟩
      · obtain ⟨c, hc, hx⟩ := List.mem_flatMap.mp h
        obtain ⟨k, -, -, hdep⟩ := of_mem_depthFirst hx
        rw [T.depth_of_mem hc] at hdep
        omega
      · refine (T.nodup_kids a).imp_of_mem fun {c c'} hc hc' hne x hx hx' => hne ?_
        obtain ⟨k, -, hpar, hdep⟩ := of_mem_depthFirst hx
        obtain ⟨k', -, hpar', hdep'⟩ := of_mem_depthFirst hx'
        rw [T.depth_of_mem hc] at hdep
        rw [T.depth_of_mem hc'] at hdep'
        obtain rfl : k = k' := by omega
        exact hpar.symm.trans hpar'

theorem nodup_list (T : OrderedTree α) : T.list.Nodup := nodup_depthFirst _ _

/-! ## Where a node stands -/

/-- `Split x pre post`: the depth-first order outside the subtree of `x`, before and behind it. -/
inductive Split (T : OrderedTree α) : α → List α → List α → Prop
  | root : Split T T.root [] []
  | child {p c : α} {pre post l r : List α} (hp : Split T p pre post)
      (hk : T.kids p = l ++ c :: r) :
      Split T c (pre ++ p :: l.flatMap T.subtree) (r.flatMap T.subtree ++ post)

theorem Split.node {x : α} {pre post : List α} (h : T.Split x pre post) : T.Node x := by
  induction h with
  | root => exact .root
  | child _ hk ih => exact .child ih (by simp [hk])

theorem exists_split {x : α} (hx : T.Node x) : ∃ pre post, T.Split x pre post := by
  induction hx with
  | root => exact ⟨[], [], .root⟩
  | child _ hc ih =>
    obtain ⟨pre, post, h⟩ := ih
    obtain ⟨l, r, hk⟩ := List.append_of_mem hc
    exact ⟨_, _, .child h hk⟩

/-- **The three parts make up the whole order.** -/
theorem Split.list_eq {x : α} {pre post : List α} (h : T.Split x pre post) :
    T.list = pre ++ (T.subtree x ++ post) := by
  induction h with
  | root => rw [subtree_root, List.append_nil, List.nil_append]
  | child hp hk ih =>
    rw [ih, subtree_eq hp.node, hk]
    simp

theorem Split.mem_list {x : α} {pre post : List α} (h : T.Split x pre post) : x ∈ T.list := by
  rw [h.list_eq, subtree_eq h.node]
  simp

/-- The order lists the nodes. -/
theorem mem_list {x : α} : x ∈ T.list ↔ T.Node x := by
  constructor
  · have hpre : ∀ (n : ℕ) (a : α), T.Node a → ∀ y ∈ depthFirst T.kids n a, T.Node y := by
      intro n
      induction n with
      | zero => exact fun a _ y hy => absurd hy List.not_mem_nil
      | succ n ih =>
        intro a ha y hy
        rcases List.mem_cons.mp hy with rfl | hy
        · exact ha
        · obtain ⟨c, hc, hy⟩ := List.mem_flatMap.mp hy
          exact ih c (.child ha hc) y hy
    exact hpre _ _ .root x
  · intro hx
    obtain ⟨pre, post, h⟩ := exists_split hx
    exact h.mem_list

/-- The last node of a subtree is the last node of its last child's subtree. -/
theorem getLast?_subtree {x : α} (hx : T.Node x) :
    (T.subtree x).getLast? =
      match (T.kids x).getLast? with
      | none => some x
      | some c => (T.subtree c).getLast? := by
  rw [subtree_eq hx]
  cases hk : (T.kids x).getLast? with
  | none => rw [List.getLast?_eq_none_iff.mp hk]; rfl
  | some c =>
    obtain ⟨l, hl⟩ := List.getLast?_eq_some_iff.mp hk
    have hc : T.Node c := .child hx (by simp [hl])
    have hne : T.subtree c ≠ [] := by simp [subtree_eq hc]
    rw [hl, List.flatMap_append, List.flatMap_singleton, ← List.cons_append,
      List.getLast?_append_of_ne_nil _ hne]

/-- **A first child grafted onto `p` follows `p` in the order**, and nothing else moves. -/
theorem subtree_graft [DecidableEq α] {T' : OrderedTree α} {p x : α} (hroot : T'.root = T.root)
    (hp : T.Node p) (hx : ¬ T.Node x) (hkp : T'.kids p = x :: T.kids p) (hkx : T'.kids x = [])
    (hk : ∀ y, y ≠ p → y ≠ x → T'.kids y = T.kids y) :
    ∀ {y : α}, T.Node y →
      T'.subtree y = (T.subtree y).flatMap fun z => if z = p then [p, x] else [z] := by
  have hnode : ∀ {y : α}, T.Node y → T'.Node y := by
    intro y hy
    induction hy with
    | root => exact hroot ▸ .root
    | @child q c hq hc ih =>
      refine .child ih ?_
      by_cases hqp : q = p
      · subst hqp
        rw [hkp]
        exact List.mem_cons_of_mem x hc
      · rw [hk q hqp fun he => hx (he ▸ hq)]
        exact hc
  have hleaf : T'.subtree x = [x] := by
    have hx' : T'.Node x := .child (hnode hp) (by rw [hkp]; exact List.mem_cons_self)
    rw [subtree_eq hx', hkx, List.flatMap_nil]
  -- downwards from the leaves of `T`
  have hbound : ∀ (n : ℕ) {y : α}, T.Node y → T.height ≤ T.depth y + n →
      T'.subtree y = (T.subtree y).flatMap fun z => if z = p then [p, x] else [z] := by
    intro n
    induction n with
    | zero => exact fun hy hn => absurd (T.depth_lt hy) (by omega)
    | succ n ih =>
      intro y hy hn
      have hbelow : (T.kids y).flatMap T'.subtree =
          ((T.kids y).flatMap T.subtree).flatMap fun z => if z = p then [p, x] else [z] := by
        rw [List.flatMap_assoc]
        refine List.flatMap_congr fun c hc => ih (.child hy hc) ?_
        rw [T.depth_of_mem hc]
        omega
      rw [subtree_eq hy, subtree_eq (hnode hy), List.flatMap_cons, ← hbelow]
      by_cases hyp : y = p
      · subst hyp
        rw [hkp, List.flatMap_cons, hleaf, if_pos rfl]
        rfl
      · rw [hk y hyp fun he => hx (he ▸ hy), if_neg hyp]
        rfl
  intro y hy
  exact hbound T.height hy (by omega)

/-- The order begins with the root. -/
theorem head?_list : T.list.head? = some T.root := by
  rw [← subtree_root, subtree_eq .root, List.head?_cons]

end OrderedTree
