import TokenGrammar.Proofs.Tree.Paths

/-!
# The leaves of a tree

A walk lists the labels of a tree in the order of their paths, whatever the depth at which the walk
begins. So the leaves of a tree are its own label, if that is one of a terminal, and then the leaves
of its children from left to right.

## Main results

* `map_label_walk` — the labels on a walk do not depend on the depth
* `leaves_node` — the leaves of a tree from those of its children
-/

namespace TokenGrammar.Tree

@[simp] theorem label_node (label : Label) (children : List Tree) :
    (node label children).label = label := rfl

/-- The labels on a walk do not depend on the depth at which it begins. -/
theorem map_label_walk (depth depth' : Int) (tree : Tree) :
    (tree.walk depth).map (fun entry => entry.2.label) =
      (tree.walk depth').map fun entry => entry.2.label := by
  rw [walk_eq_map_located depth, walk_eq_map_located depth', List.map_map, List.map_map]
  rfl

theorem filter_walkAll (depth : Int) (trees : List Tree) :
    ((walkAll depth trees).map fun entry => entry.2.label).filter Label.isTerminal =
      trees.flatMap leaves := by
  induction trees with
  | nil => rfl
  | cons tree trees ih =>
    rw [walkAll, List.map_append, List.filter_append, ih, map_label_walk depth 0 tree]
    rfl

/-- The leaves of a tree are its own label, if it is that of a terminal, and those of its children
from left to right. -/
theorem leaves_node (label : Label) (children : List Tree) :
    (node label children).leaves =
      (if label.isTerminal then [label] else []) ++ children.flatMap leaves := by
  rw [leaves, walk, List.map_cons, List.filter_cons, filter_walkAll, label_node]
  cases label.isTerminal <;> rfl

@[simp] theorem leaves_terminal (name value : String) :
    (leaf (.terminal name value)).leaves = [.terminal name value] := by
  simp [leaf, leaves_node, Label.terminal]

@[simp] theorem leaves_nonterminal (name : String) (children : List Tree) :
    (node (.nonterminal name) children).leaves = children.flatMap leaves := by
  simp [leaves_node, Label.nonterminal]

end TokenGrammar.Tree
