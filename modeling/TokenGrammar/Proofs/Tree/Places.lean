import TokenGrammar.Proofs.Tree.Leaves

/-!
# The places of subtrees

The leaves of a subtree stand side by side among the leaves of the whole tree. So every subtree has
a place, which is the number of leaves before its own, and it ends as many leaves further on as it
has.

## Main definitions

* `Tree.placed` — the subtrees of a tree, each with its place
* `Tree.proper` — those of them that are not the whole tree

## Main results

* `map_snd_placed` — the subtrees with a place are those on a walk
* `exists_leaves_eq_of_mem_placed` — the leaves before a subtree, its own, and those after it
-/

namespace TokenGrammar.Tree

mutual

/-- The subtrees from top to bottom and left to right, the whole tree first, each with the number
of leaves before its own; there are `first` leaves before those of the whole tree. -/
def placed (first : Nat) : Tree → List (Nat × Tree)
  | node label children =>
    (first, node label children) ::
      placedAll (first + if label.isTerminal then 1 else 0) children

/-- The subtrees of some trees, one tree after the other. -/
def placedAll (first : Nat) : List Tree → List (Nat × Tree)
  | [] => []
  | tree :: trees => placed first tree ++ placedAll (first + tree.leaves.length) trees

end

/-- The subtrees other than the whole tree, which comes first. -/
def proper (first : Nat) (tree : Tree) : List (Nat × Tree) := (tree.placed first).tail

theorem placed_eq_cons (first : Nat) (tree : Tree) :
    tree.placed first = (first, tree) :: tree.proper first := by
  cases tree with
  | node label children => rfl

@[simp] theorem proper_leaf (first : Nat) (label : Label) : (leaf label).proper first = [] := by
  simp [leaf, proper, placed, placedAll]

@[simp] theorem proper_nonterminal (first : Nat) (name : String) (children : List Tree) :
    (node (.nonterminal name) children).proper first = placedAll first children := by
  simp [proper, placed, Label.nonterminal]

mutual

/-- The subtrees that have a place are those on a walk, in the same order. -/
theorem map_snd_placed (first : Nat) (depth : Int) (tree : Tree) :
    (tree.placed first).map Prod.snd = (tree.walk depth).map Prod.snd := by
  match tree with
  | node label children =>
    simp only [placed, walk, List.map_cons]
    rw [map_snd_placedAll _ (depth + 1) children]

/-- The subtrees of some trees that have a place are those on walks of the trees. -/
theorem map_snd_placedAll (first : Nat) (depth : Int) (trees : List Tree) :
    (placedAll first trees).map Prod.snd = (walkAll depth trees).map Prod.snd := by
  match trees with
  | [] => rfl
  | tree :: trees =>
    simp only [placedAll, walkAll, List.map_append]
    rw [map_snd_placed first depth tree, map_snd_placedAll _ depth trees]

end

mutual

/-- The place of a subtree is the number of leaves before its own. -/
theorem exists_leaves_eq_of_mem_placed {first : Nat} {tree : Tree} {entry : Nat × Tree}
    (h : entry ∈ tree.placed first) :
    ∃ before after, tree.leaves = before ++ entry.2.leaves ++ after ∧
      entry.1 = first + before.length := by
  match tree with
  | node label children =>
    rcases List.mem_cons.mp h with rfl | hproper
    · exact ⟨[], [], by simp, by simp⟩
    · obtain ⟨before, after, hleaves, hplace⟩ := exists_leaves_eq_of_mem_placedAll hproper
      -- A label of a terminal is a leaf itself, and comes before those of the children.
      refine ⟨(if label.isTerminal then [label] else []) ++ before, after, ?_, ?_⟩
      · rw [leaves_node, hleaves]
        simp only [List.append_assoc]
      · rw [hplace, List.length_append]
        split
        · rw [List.length_singleton, Nat.add_assoc]
        · rw [List.length_nil, Nat.zero_add, Nat.add_zero]

/-- The place of a subtree of some trees is the number of leaves before its own. -/
theorem exists_leaves_eq_of_mem_placedAll {first : Nat} {trees : List Tree} {entry : Nat × Tree}
    (h : entry ∈ placedAll first trees) :
    ∃ before after, trees.flatMap leaves = before ++ entry.2.leaves ++ after ∧
      entry.1 = first + before.length := by
  match trees with
  | [] => cases h
  | tree :: trees =>
    rcases List.mem_append.mp h with hfirst | hlater
    · obtain ⟨before, after, hleaves, hplace⟩ := exists_leaves_eq_of_mem_placed hfirst
      refine ⟨before, after ++ trees.flatMap leaves, ?_, hplace⟩
      rw [List.flatMap_cons, hleaves]
      simp only [List.append_assoc]
    · obtain ⟨before, after, hleaves, hplace⟩ := exists_leaves_eq_of_mem_placedAll hlater
      refine ⟨tree.leaves ++ before, after, ?_, ?_⟩
      · rw [List.flatMap_cons, hleaves]
        simp only [List.append_assoc]
      · rw [hplace, List.length_append]
        omega

end

end TokenGrammar.Tree
