import TokenGrammar.Proofs.Tree.Leaves

/-!
# The values at the leaves

A tree is its values, read from leaf to leaf, and the bare tree that is left without them. So two
trees that differ at most in the values at their leaves are obtained from each other by giving the
leaves of one the values of the other.

## Main definitions

* `Tree.bare` — the tree without the values at its leaves
* `Tree.revalue` — the tree with other values at its leaves

## Main results

* `eq_revalue_iff` — other values change nothing but the values
* `revalue_of_bare_eq` — a tree is given back by its values and any tree with the same bare tree
-/

namespace TokenGrammar

/-- The label without the value, if it is that of a terminal. -/
def Label.bare (label : Label) : Label :=
  if label.isTerminal then { label with value := "" } else label

namespace Tree

mutual

/-- The tree without the values at its leaves. -/
def bare : Tree → Tree
  | node label children => node label.bare (bareAll children)

/-- Some trees without the values at their leaves. -/
def bareAll : List Tree → List Tree
  | [] => []
  | tree :: trees => bare tree :: bareAll trees

end

mutual

/-- The tree with the given values at its leaves, from left to right. Values that are missing leave
the old ones, values that are left over are ignored. -/
def revalue : List String → Tree → Tree
  | values, node label children =>
    if label.isTerminal then
      node { label with value := values.headD label.value } (revalueAll values.tail children)
    else node label (revalueAll values children)

/-- Some trees with the given values at their leaves, one tree after the other. -/
def revalueAll : List String → List Tree → List Tree
  | _, [] => []
  | values, tree :: trees =>
    revalue values tree :: revalueAll (values.drop tree.leaves.length) trees

end

/-! ### Bare trees -/

@[simp] theorem isTerminal_bare (label : Label) : label.bare.isTerminal = label.isTerminal := by
  rw [Label.bare]
  split <;> rfl

theorem bareAll_eq_map (trees : List Tree) : bareAll trees = trees.map bare := by
  induction trees with
  | nil => rfl
  | cons tree trees ih => rw [bareAll, ih, List.map_cons]

mutual

theorem leaves_bare (tree : Tree) : tree.bare.leaves = tree.leaves.map Label.bare := by
  match tree with
  | node label children =>
    rw [bare, leaves_node, leaves_node, isTerminal_bare, List.map_append,
      flatMap_leaves_bareAll children]
    split <;> rfl

theorem flatMap_leaves_bareAll (trees : List Tree) :
    (bareAll trees).flatMap leaves = (trees.flatMap leaves).map Label.bare := by
  match trees with
  | [] => rfl
  | tree :: trees =>
    rw [bareAll, List.flatMap_cons, List.flatMap_cons, List.map_append, leaves_bare tree,
      flatMap_leaves_bareAll trees]

end

/-- Trees with the same bare tree have the same number of leaves. -/
theorem length_leaves_eq {s t : Tree} (h : s.bare = t.bare) :
    s.leaves.length = t.leaves.length := by
  have hleaves : s.leaves.map Label.bare = t.leaves.map Label.bare := by
    rw [← leaves_bare, ← leaves_bare, h]
  simpa using congrArg List.length hleaves

/-! ### Other values -/

section Node

variable {label : Label} {children : List Tree}

theorem leaves_node_of_terminal (h : label.isTerminal = true) :
    (node label children).leaves = label :: children.flatMap leaves := by
  rw [leaves_node, if_pos h, List.singleton_append]

theorem leaves_node_of_nonterminal (h : label.isTerminal = false) :
    (node label children).leaves = children.flatMap leaves := by
  rw [leaves_node, h]
  rfl

theorem revalue_node_of_terminal (h : label.isTerminal = true) (value : String)
    (values : List String) :
    (node label children).revalue (value :: values) =
      node { label with value := value } (revalueAll values children) := by
  rw [revalue, if_pos h, List.headD_cons, List.tail_cons]

theorem revalue_node_of_nonterminal (h : label.isTerminal = false) (values : List String) :
    (node label children).revalue values = node label (revalueAll values children) := by
  rw [revalue, h]
  rfl

end Node

theorem bare_with_value (label : Label) (value : String) (h : label.isTerminal = true) :
    ({ label with value := value } : Label).bare = label.bare := by
  simp [Label.bare, h]

/-- Labels with the same bare label differ in the value only, and only if they are terminals. -/
theorem with_value_eq_of_bare_eq {a b : Label} (h : a.bare = b.bare) :
    { a with value := b.value } = b := by
  obtain ⟨name, value, isTerminal⟩ := a
  obtain ⟨name', value', isTerminal'⟩ := b
  have hterminal : isTerminal = isTerminal' := by simpa using congrArg Label.isTerminal h
  subst hterminal
  cases isTerminal <;> simp_all [Label.bare]

mutual

/-- Other values change nothing but the values. -/
theorem bare_revalue (values : List String) (tree : Tree) :
    (tree.revalue values).bare = tree.bare := by
  match tree with
  | node label children =>
    rw [revalue]
    split
    · next hterminal =>
      rw [bare, bare, bare_with_value label _ hterminal, bareAll_revalueAll]
    · rw [bare, bare, bareAll_revalueAll]

theorem bareAll_revalueAll (values : List String) (trees : List Tree) :
    bareAll (revalueAll values trees) = bareAll trees := by
  match trees with
  | [] => rfl
  | tree :: trees => rw [revalueAll, bareAll, bareAll, bare_revalue, bareAll_revalueAll]

end

mutual

/-- The values that are given are the values at the leaves, if there is one for each. -/
theorem map_value_leaves_revalue {values : List String} {tree : Tree}
    (h : tree.leaves.length ≤ values.length) :
    (tree.revalue values).leaves.map Label.value = values.take tree.leaves.length := by
  match tree with
  | node label children =>
    cases hterminal : label.isTerminal with
    | false =>
      rw [leaves_node_of_nonterminal hterminal] at h ⊢
      rw [revalue_node_of_nonterminal hterminal, leaves_node_of_nonterminal hterminal,
        map_value_leaves_revalueAll h]
    | true =>
      rw [leaves_node_of_terminal hterminal] at h ⊢
      match values with
      | [] => simp at h
      | value :: values =>
        have hchildren : (children.flatMap leaves).length ≤ values.length :=
          Nat.le_of_succ_le_succ h
        have hkept : ({ label with value := value } : Label).isTerminal = true := hterminal
        rw [revalue_node_of_terminal hterminal, leaves_node_of_terminal hkept, List.map_cons,
          map_value_leaves_revalueAll hchildren, List.length_cons, List.take_succ_cons]

theorem map_value_leaves_revalueAll {values : List String} {trees : List Tree}
    (h : (trees.flatMap leaves).length ≤ values.length) :
    ((revalueAll values trees).flatMap leaves).map Label.value =
      values.take (trees.flatMap leaves).length := by
  match trees with
  | [] => simp [revalueAll]
  | tree :: trees =>
    rw [List.flatMap_cons, List.length_append] at h ⊢
    rw [revalueAll, List.flatMap_cons, List.map_append, map_value_leaves_revalue (by omega),
      map_value_leaves_revalueAll (by rw [List.length_drop]; omega), List.take_add]

end

mutual

/-- The values of a tree, and whatever follows them, give the tree. -/
theorem revalue_append_of_bare_eq {s t : Tree} (h : s.bare = t.bare) (rest : List String) :
    s.revalue (t.leaves.map Label.value ++ rest) = t := by
  match s, t with
  | node a xs, node b ys =>
    rw [bare, bare, node.injEq] at h
    obtain ⟨hlabel, hchildren⟩ := h
    have hsame : a.isTerminal = b.isTerminal := by simpa using congrArg Label.isTerminal hlabel
    cases hterminal : b.isTerminal with
    | false =>
      -- The labels are not those of leaves, so they keep their values.
      have hab : a = b := by simpa [Label.bare, hsame, hterminal] using hlabel
      rw [leaves_node_of_nonterminal hterminal,
        revalue_node_of_nonterminal (hsame.trans hterminal),
        revalueAll_append_of_bareAll_eq hchildren, hab]
    | true =>
      rw [leaves_node_of_terminal hterminal, List.map_cons, List.cons_append,
        revalue_node_of_terminal (hsame.trans hterminal),
        revalueAll_append_of_bareAll_eq hchildren, with_value_eq_of_bare_eq hlabel]

theorem revalueAll_append_of_bareAll_eq {xs ys : List Tree} (h : bareAll xs = bareAll ys)
    (rest : List String) :
    revalueAll ((ys.flatMap leaves).map Label.value ++ rest) xs = ys := by
  match xs, ys with
  | [], [] => rfl
  | [], _ :: _ => cases h
  | _ :: _, [] => cases h
  | s :: xs, t :: ys =>
    rw [bareAll, bareAll, List.cons.injEq] at h
    obtain ⟨hfirst, hothers⟩ := h
    rw [revalueAll, List.flatMap_cons, List.map_append, List.append_assoc,
      revalue_append_of_bare_eq hfirst, length_leaves_eq hfirst,
      List.drop_left' (by rw [List.length_map]), revalueAll_append_of_bareAll_eq hothers]

end

/-- A tree is given back by its values and any tree with the same bare tree. -/
theorem revalue_of_bare_eq {s t : Tree} (h : s.bare = t.bare) :
    s.revalue (t.leaves.map Label.value) = t := by
  simpa using revalue_append_of_bare_eq h []

/-- A tree with other values is the one with the same bare tree that has these values. -/
theorem eq_revalue_iff {s t : Tree} {values : List String}
    (hlength : values.length = s.leaves.length) :
    t = s.revalue values ↔ t.bare = s.bare ∧ t.leaves.map Label.value = values := by
  constructor
  · rintro rfl
    refine ⟨bare_revalue values s, ?_⟩
    rw [map_value_leaves_revalue (Nat.le_of_eq hlength.symm), ← hlength, List.take_length]
  · rintro ⟨hbare, rfl⟩
    exact (revalue_of_bare_eq hbare.symm).symm

end Tree

end TokenGrammar
