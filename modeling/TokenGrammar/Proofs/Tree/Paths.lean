import TokenGrammar.Tree.Basic

/-!
# Paths in a tree

A path is a list of child numbers, from the root down. In the lexicographic order a path comes before
those that go on from it, and these come before the paths that turn off further to the right. A walk
is in this order, and the depth of a subtree is the length of its path. So a subtree is told by its
path even where others are equal to it, and where a walk begins is all that its depths add to the
paths.

## Main definitions

* `Tree.located` — the subtrees of a tree, each with its path

## Main results

* `pairwise_lex_located` — the paths ascend
* `walk_eq_map_located` — the subtrees on a walk are those with a path, as deep as the path is long
-/

namespace TokenGrammar.Tree

mutual

/-- The subtrees from top to bottom and left to right, the whole tree first, each with the path that
leads to it. -/
def located : Tree → List (List Nat × Tree)
  | node label children => ([], node label children) :: locatedAll 0 children

/-- The subtrees of some trees, one tree after the other; the first tree has the given number. -/
def locatedAll (first : Nat) : List Tree → List (List Nat × Tree)
  | [] => []
  | tree :: trees =>
    (located tree).map (fun entry => (first :: entry.1, entry.2)) ++ locatedAll (first + 1) trees

end

/-! ### Where a path leads -/

section Members

variable {first number : Nat} {path : List Nat} {tree subtree : Tree} {trees : List Tree}
  {entry : List Nat × Tree}

/-- A path into some trees begins with the number of a tree. -/
theorem exists_eq_cons_of_mem_locatedAll (h : entry ∈ locatedAll first trees) :
    ∃ number path, first ≤ number ∧ entry.1 = number :: path := by
  induction trees generalizing first with
  | nil => cases h
  | cons tree trees ih =>
    rcases List.mem_append.mp h with hfirst | hlater
    · obtain ⟨⟨path, subtree⟩, -, rfl⟩ := List.mem_map.mp hfirst
      exact ⟨first, path, Nat.le_refl first, rfl⟩
    · obtain ⟨number, path, hnumber, hpath⟩ := ih hlater
      exact ⟨number, path, Nat.le_of_succ_le hnumber, hpath⟩

/-- The empty path leads to the whole tree only. -/
theorem nil_mem_located_iff : ([], subtree) ∈ tree.located ↔ subtree = tree := by
  obtain ⟨label, children⟩ := tree
  rw [located, List.mem_cons, Prod.mk.injEq]
  refine ⟨fun h => ?_, fun h => .inl ⟨rfl, h⟩⟩
  rcases h with ⟨-, hroot⟩ | hbelow
  · exact hroot
  · obtain ⟨number, path, -, hpath⟩ := exists_eq_cons_of_mem_locatedAll hbelow
    cases hpath

theorem cons_mem_located_node_iff {label : Label} {children : List Tree} :
    (number :: path, subtree) ∈ (node label children).located ↔
      (number :: path, subtree) ∈ locatedAll 0 children := by
  simp [located]

/-- The number of the first tree leads into this tree. -/
theorem first_mem_locatedAll_cons_iff :
    (first :: path, subtree) ∈ locatedAll first (tree :: trees) ↔
      (path, subtree) ∈ tree.located := by
  rw [locatedAll, List.mem_append]
  refine ⟨fun h => ?_, fun h => .inl (List.mem_map.mpr ⟨_, h, rfl⟩)⟩
  rcases h with hfirst | hlater
  · simpa using hfirst
  · obtain ⟨number, path', hnumber, hpath⟩ := exists_eq_cons_of_mem_locatedAll hlater
    obtain ⟨rfl, -⟩ := List.cons.inj hpath
    exact absurd hnumber (Nat.not_succ_le_self first)

/-- A higher number leads into one of the other trees. -/
theorem later_mem_locatedAll_cons_iff :
    ((first + (number + 1)) :: path, subtree) ∈ locatedAll first (tree :: trees) ↔
      ((first + 1 + number) :: path, subtree) ∈ locatedAll (first + 1) trees := by
  rw [locatedAll, List.mem_append, Nat.add_assoc, Nat.add_comm 1 number]
  simp

end Members

/-! ### The order of a walk -/

mutual

/-- The paths to the subtrees ascend. -/
theorem pairwise_lex_located (tree : Tree) :
    tree.located.Pairwise fun entry later => List.Lex (· < ·) entry.1 later.1 := by
  match tree with
  | node label children =>
    refine List.pairwise_cons.mpr ⟨fun later hlater => ?_, pairwise_lex_locatedAll 0 children⟩
    obtain ⟨number, path, -, hpath⟩ := exists_eq_cons_of_mem_locatedAll hlater
    rw [hpath]
    exact .nil

/-- The paths into some trees ascend. -/
theorem pairwise_lex_locatedAll (first : Nat) (trees : List Tree) :
    (locatedAll first trees).Pairwise fun entry later => List.Lex (· < ·) entry.1 later.1 := by
  match trees with
  | [] => exact List.Pairwise.nil
  | tree :: trees =>
    refine List.pairwise_append.mpr ⟨List.pairwise_map.mpr ?_,
      pairwise_lex_locatedAll (first + 1) trees, fun entry hentry later hlater => ?_⟩
    · exact (pairwise_lex_located tree).imp .cons
    · -- The number of the first tree is lower than those of the others.
      obtain ⟨⟨path, subtree⟩, -, rfl⟩ := List.mem_map.mp hentry
      obtain ⟨number, path', hnumber, hpath'⟩ := exists_eq_cons_of_mem_locatedAll hlater
      rw [hpath']
      exact .rel hnumber

end

mutual

/-- The subtrees on a walk are those with a path, each as far down as its path is long. -/
theorem walk_eq_map_located (depth : Int) (tree : Tree) :
    tree.walk depth = tree.located.map fun entry => (depth + entry.1.length, entry.2) := by
  match tree with
  | node label children =>
    rw [walk, located, List.map_cons, walkAll_eq_map_locatedAll depth 0 children]
    simp

/-- The subtrees on walks of some trees, which begin one level further down, are those with a
path. -/
theorem walkAll_eq_map_locatedAll (depth : Int) (first : Nat) (trees : List Tree) :
    walkAll (depth + 1) trees =
      (locatedAll first trees).map fun entry => (depth + entry.1.length, entry.2) := by
  match trees with
  | [] => rfl
  | tree :: trees =>
    rw [walkAll, locatedAll, List.map_append, List.map_map,
      walk_eq_map_located (depth + 1) tree, walkAll_eq_map_locatedAll depth (first + 1) trees]
    congr 2
    funext entry
    simp only [Function.comp_apply, List.length_cons, Prod.mk.injEq, and_true]
    omega

end

end TokenGrammar.Tree
