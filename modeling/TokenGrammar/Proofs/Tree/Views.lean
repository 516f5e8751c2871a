import Mathlib.Data.List.Forall2
import TokenGrammar.Proofs.Tree.Format
import TokenGrammar.Proofs.Tree.Leaves

/-!
# Views of a tree

The lines of a tree, its leaves and the list of its nodes are read off one and the same walk. Each of
these views can also be had without a walk.

A tree that is drawn by recursion counts no depth: a child is drawn as the tree itself is, with one
more bar in front, so that the text in front stands for the depth. Neither does it join any lines:
each child begins with a newline of its own. These are all newlines of the text, since every node but
the root is a child.

The JSON value of a tree has a node at the end of each path, where a number on the path is that of an
item of the member `children`. In the lexicographic order of its paths, a node comes before those
below it, and these come before the ones further to the right. So a list of all paths that ascends
strictly is in pre-order, and has every node once, even where two nodes look the same.

## Main definitions

* `Tree.draw` — the tree in lines, by recursion
* `Json.nodeAt?` — the value at the end of a path
* `Json.HasLabel` — the members of a value that say what a node says
* `Json.IsPreorder` — the paths to all nodes of a value, in pre-order
* `Json.Lists` — an entry of a walk as the node at the end of a path

## Main results

* `format_eq_draw` — a tree is printed as it is drawn
* `nodeAt?_toJson_eq_some_iff` — what is at the end of a path in the JSON value of a tree
* `isPreorder_located` — the paths to the subtrees are those to the nodes of the JSON value
* `forall₂_lists_walk` — a walk lists the nodes of the JSON value
* `views_by_recursion` — the views of a tree
-/

namespace TokenGrammar

/-! ### Drawing -/

namespace Tree

mutual

/-- The tree in lines: its own line after some text in front, and below it the children, with one
more bar in front. -/
def draw (front : String) : Tree → String
  | node label children =>
    front ++ label.value ++ " (" ++ label.name ++ ")" ++ drawAll (front ++ "|") children

/-- Some trees in lines, each after a newline. -/
def drawAll (front : String) : List Tree → String
  | [] => ""
  | tree :: trees => "\n" ++ draw front tree ++ drawAll front trees

end

mutual

/-- A tree is drawn as the lines of its outline, if its depth is drawn in front. -/
theorem newline_cons_toList_draw {front inFront : String} {depth : Nat} (tree : Tree)
    (h : inFront.toList = front.toList ++ List.replicate depth '|') :
    '\n' :: (tree.draw inFront).toList =
      (tree.rows depth).flatMap fun row => '\n' :: (front.toList ++ row.line) := by
  match tree with
  | node label children =>
    have hbelow : (inFront ++ "|").toList = front.toList ++ List.replicate (depth + 1) '|' := by
      rw [String.toList_append, h, List.replicate_succ', List.append_assoc]
      rfl
    have hchildren := toList_drawAll children hbelow
    rw [rows_node, List.flatMap_cons, ← hchildren]
    simp [draw, h, Row.line, Row.opening]

/-- Some trees are drawn as the lines of their outlines. -/
theorem toList_drawAll {front inFront : String} {depth : Nat} (trees : List Tree)
    (h : inFront.toList = front.toList ++ List.replicate depth '|') :
    (drawAll inFront trees).toList =
      (rowsAll depth trees).flatMap fun row => '\n' :: (front.toList ++ row.line) := by
  match trees with
  | [] => rfl
  | tree :: trees =>
    have htree := newline_cons_toList_draw tree h
    have htrees := toList_drawAll trees h
    rw [rowsAll_cons, List.flatMap_append, ← htree, ← htrees]
    simp [drawAll]

end

/-- A tree is printed as it is drawn. -/
theorem format_eq_draw (front : String) (tree : Tree) : tree.format front = tree.draw front := by
  have hdraw : '\n' :: (tree.draw front).toList =
      (tree.rows 0).flatMap fun row => '\n' :: (front.toList ++ row.line) :=
    newline_cons_toList_draw tree (List.append_nil _).symm
  rw [← newline_cons_toList_format] at hdraw
  exact String.toList_inj.mp (List.cons.inj hdraw).2.symm

example : (node (.nonterminal "S") [node (.terminal "A" "1") [leaf (.terminal "B" "")],
    leaf (.terminal "A" "2")]).format "> " = "> S (S)\n> |1 (A)\n> || (B)\n> |2 (A)" := by
  decide +kernel

end Tree

/-! ### Listing the nodes -/

namespace Json

/-- The value of a key, if this is an object that has the key. -/
def member? (key : String) : Json → Option Json
  | .obj members => Members.lookup? key members
  | _ => none

/-- An item by its number, if this is an array that has as many. -/
def item? (number : Nat) : Json → Option Json
  | .arr items => items[number]?
  | _ => none

/-- The value at the end of a path, if there is one. Each number leads to an item of the member
`children`. -/
def nodeAt? : (path : List Nat) → Json → Option Json
  | [], v => some v
  | number :: path, v =>
    ((v.member? "children").bind (item? number)).bind (nodeAt? path)

/-- A value whose members say what a label says. -/
structure HasLabel (v : Json) (label : Label) : Prop where
  name : v.member? "name" = some (.str label.name)
  value : v.member? "value" = some (.str label.value)
  isTerminal : v.member? "is_terminal" = some (.bool label.isTerminal)

/-- The paths to all nodes of a value, each once: a node comes before those below it, and these come
before the ones further to the right. -/
structure IsPreorder (v : Json) (paths : List (List Nat)) : Prop where
  ascending : paths.Pairwise (List.Lex (· < ·))
  mem_iff : ∀ path, path ∈ paths ↔ ∃ node, v.nodeAt? path = some node

/-- An entry of a walk that begins at a depth is the node at the end of a path: it is as many levels
further down as the path is long, and the node says what the label of the subtree says, and is the
value of the subtree. -/
structure Lists (v : Json) (depth : Int) (path : List Nat) (entry : Int × Tree) : Prop where
  depth_eq : entry.1 = path.length + depth
  exists_node : ∃ node, v.nodeAt? path = some node ∧ node.HasLabel entry.2.label ∧
    node = entry.2.toJson

end Json

namespace Tree

theorem hasLabel_toJson (tree : Tree) : tree.toJson.HasLabel tree.label := by
  obtain ⟨label, children⟩ := tree
  exact ⟨rfl, rfl, rfl⟩

theorem nodeAt?_cons_toJson (number : Nat) (path : List Nat) (label : Label)
    (children : List Tree) :
    (node label children).toJson.nodeAt? (number :: path) =
      (toJsonAll children)[number]?.bind (Json.nodeAt? path) := rfl

mutual

/-- At the end of a path in the JSON value of a tree is the value of the subtree with this path. -/
theorem nodeAt?_toJson_eq_some_iff (tree : Tree) (path : List Nat) (v : Json) :
    tree.toJson.nodeAt? path = some v ↔
      ∃ subtree, (path, subtree) ∈ tree.located ∧ v = subtree.toJson := by
  match tree, path with
  | tree, [] =>
    simp only [nil_mem_located_iff, exists_eq_left, Json.nodeAt?, Option.some.injEq]
    exact eq_comm
  | node label children, number :: path =>
    have hchildren := bind_nodeAt?_eq_some_iff 0 children number path v
    rw [Nat.zero_add] at hchildren
    simp only [cons_mem_located_node_iff, nodeAt?_cons_toJson]
    exact hchildren

/-- At the end of a path into the JSON values of some trees is the value of the subtree with this
path. -/
theorem bind_nodeAt?_eq_some_iff (first : Nat) (trees : List Tree) (number : Nat)
    (path : List Nat) (v : Json) :
    (toJsonAll trees)[number]?.bind (Json.nodeAt? path) = some v ↔
      ∃ subtree, ((first + number) :: path, subtree) ∈ locatedAll first trees ∧
        v = subtree.toJson := by
  match trees, number with
  | [], _ => simp [toJsonAll, locatedAll]
  | tree :: trees, 0 =>
    simp only [Nat.add_zero, first_mem_locatedAll_cons_iff]
    exact nodeAt?_toJson_eq_some_iff tree path v
  | tree :: trees, number + 1 =>
    simp only [later_mem_locatedAll_cons_iff]
    exact bind_nodeAt?_eq_some_iff (first + 1) trees number path v

end

/-- The paths to the subtrees of a tree are those to the nodes of its JSON value, in pre-order. -/
theorem isPreorder_located (tree : Tree) :
    tree.toJson.IsPreorder (tree.located.map Prod.fst) where
  ascending := List.pairwise_map.mpr (pairwise_lex_located tree)
  mem_iff path := by
    constructor
    · intro h
      obtain ⟨⟨path, subtree⟩, hentry, rfl⟩ := List.mem_map.mp h
      exact ⟨subtree.toJson, (nodeAt?_toJson_eq_some_iff _ _ _).mpr ⟨subtree, hentry, rfl⟩⟩
    · rintro ⟨v, hnode⟩
      obtain ⟨subtree, hentry, -⟩ := (nodeAt?_toJson_eq_some_iff _ _ _).mp hnode
      exact List.mem_map.mpr ⟨_, hentry, rfl⟩

/-- A walk lists the nodes of the JSON value of a tree, one for each path. -/
theorem forall₂_lists_walk (depth : Int) (tree : Tree) :
    List.Forall₂ (tree.toJson.Lists depth) (tree.located.map Prod.fst) (tree.walk depth) := by
  rw [walk_eq_map_located, List.forall₂_map_left_iff, List.forall₂_map_right_iff,
    List.forall₂_same]
  intro entry hentry
  obtain ⟨path, subtree⟩ := entry
  refine ⟨Int.add_comm _ _, subtree.toJson, ?_, hasLabel_toJson subtree, rfl⟩
  exact (nodeAt?_toJson_eq_some_iff tree path _).mpr ⟨subtree, hentry, rfl⟩

/-- **The views of a tree are those by recursion.** A tree is printed as it is drawn, whatever the
text in front. Its leaves are its own label, if this is that of a terminal, and then the leaves of
its children. And a walk lists the nodes of the JSON value in pre-order, each once, and each as far
below the depth at which the walk begins as it is nested. -/
theorem views_by_recursion (tree : Tree) :
    (∀ front : String, tree.format front = tree.draw front) ∧
      tree.leaves =
        (if tree.label.isTerminal then [tree.label] else []) ++ tree.children.flatMap leaves ∧
      ∃ paths : List (List Nat), tree.toJson.IsPreorder paths ∧
        ∀ depth : Int, List.Forall₂ (tree.toJson.Lists depth) paths (tree.walk depth) := by
  refine ⟨fun front => format_eq_draw front tree, ?_, tree.located.map Prod.fst,
    isPreorder_located tree, fun depth => forall₂_lists_walk depth tree⟩
  obtain ⟨label, children⟩ := tree
  exact leaves_node label children

end Tree

end TokenGrammar
