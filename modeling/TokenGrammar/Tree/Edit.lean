import TokenGrammar.Index
import TokenGrammar.Tree.Basic

/-!
# Editing trees

A subtree is given by the path of child numbers that leads to it from the root. A negative number
counts from the end of the children.

## Main definitions

* `Tree.EditFault` — why an edit is not made
* `Tree.child` — the child that a number means
* `Tree.subtree` — the subtree at the end of a path
* `Tree.changeAt` — the tree with one subtree changed
* `Tree.append`, `Tree.remove`, `Tree.relabel` — changes at the root
-/

namespace TokenGrammar.Tree

/-- Why an edit is not made. -/
inductive EditFault
  /-- A path leads to no subtree. -/
  | noSubtree (fault : IndexFault)
  /-- There is no child to remove. -/
  | noChild (fault : IndexFault)
  deriving DecidableEq, Repr

/-- The wording of a fault. -/
def EditFault.message : EditFault → String
  | noSubtree fault => fault.message
  | noChild .outOfRange => "list assignment index out of range"
  | noChild .tooLarge => IndexFault.tooLarge.message

/-- The child that a number means, with its place. -/
def child (tree : Tree) (index : Int) : Except EditFault (Nat × Tree) :=
  match h : placeOf tree.children.length index with
  | .error fault => .error (.noSubtree fault)
  | .ok place => .ok (place, tree.children.get ⟨place, placeOf_lt h⟩)

/-- The subtree at the end of a path. -/
def subtree : (path : List Int) → Tree → Except EditFault Tree
  | [], tree => .ok tree
  | index :: path, tree => do
    let (_, child) ← tree.child index
    subtree path child

/-- The tree in which a change has been made to the subtree at the end of a path. -/
def changeAt (change : Tree → Except EditFault Tree) : (path : List Int) → Tree →
    Except EditFault Tree
  | [], tree => change tree
  | index :: path, tree => do
    let (place, child) ← tree.child index
    let child ← changeAt change path child
    return node tree.label (tree.children.set place child)

/-- The tree with one more child at the end. -/
def append (tree child : Tree) : Tree := node tree.label (tree.children ++ [child])

/-- The tree without one of its children. -/
def remove (tree : Tree) (index : Int) : Except EditFault Tree :=
  match placeOf tree.children.length index with
  | .error fault => .error (.noChild fault)
  | .ok place => .ok (node tree.label (tree.children.eraseIdx place))

/-- The tree with another label at its root. -/
def relabel (tree : Tree) (label : Label) : Tree := node label tree.children

end TokenGrammar.Tree
