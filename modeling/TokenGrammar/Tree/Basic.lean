import TokenGrammar.Json.Value
import TokenGrammar.Text.Quoted

/-!
# Parse trees

An ordered tree of labels. A label names a symbol; the label of a terminal carries the text of the
token that matched, that of a non-terminal its own name again.

## Main definitions

* `Label`, `Tree` — labels and trees
* `Tree.walk` — the subtrees from top to bottom and left to right, each with its depth
* `Tree.leaves` — the labels of the terminals, from left to right
* `Tree.toJson` — the tree as a JSON value
* `Tree.format` — the tree in lines, one for each subtree, with bars for its depth
* `Tree.describe` — the tree in words, of each list of children the first three
-/

namespace TokenGrammar

/-- What a node of a parse tree says. -/
structure Label where
  /-- The name of the symbol. -/
  name : String
  /-- The text of the token, or the name again. -/
  value : String
  /-- Whether the symbol is a terminal. -/
  isTerminal : Bool
  deriving DecidableEq, Repr, Inhabited

namespace Label

/-- The label of a non-terminal. -/
def nonterminal (name : String) : Label := ⟨name, name, false⟩

/-- The label of a terminal that a token matched. -/
def terminal (name value : String) : Label := ⟨name, value, true⟩

/-- A label in words. -/
def describe (label : Label) : String :=
  "ParseNode(" ++ label.name ++ ", " ++ Text.quoted label.value ++ ", " ++
    (if label.isTerminal then "terminal" else "nonterminal") ++ ")"

end Label

/-- An ordered tree of labels. -/
inductive Tree
  | node (label : Label) (children : List Tree)

namespace Tree

/-- The label at the root. -/
def label : Tree → Label
  | node label _ => label

/-- The subtrees below the root, from left to right. -/
def children : Tree → List Tree
  | node _ children => children

/-- The tree of a single node. -/
def leaf (label : Label) : Tree := node label []

instance : Inhabited Tree := ⟨leaf default⟩

/-! ### Equality -/

mutual

/-- Whether two trees are equal, decided node by node. -/
def decEq : (s t : Tree) → Decidable (s = t)
  | node a xs, node b ys =>
    match (inferInstance : Decidable (a = b)), decEqAll xs ys with
    | isTrue ha, isTrue hxs => isTrue (by rw [ha, hxs])
    | isFalse ha, _ => isFalse fun h => ha (by injection h)
    | _, isFalse hxs => isFalse fun h => hxs (by injection h)

/-- Whether two lists of trees are equal. -/
def decEqAll : (xs ys : List Tree) → Decidable (xs = ys)
  | [], [] => isTrue rfl
  | [], _ :: _ => isFalse (by simp)
  | _ :: _, [] => isFalse (by simp)
  | x :: xs, y :: ys =>
    match decEq x y, decEqAll xs ys with
    | isTrue hx, isTrue hxs => isTrue (by rw [hx, hxs])
    | isFalse hx, _ => isFalse fun h => hx (by injection h)
    | _, isFalse hxs => isFalse fun h => hxs (by injection h)

end

instance : DecidableEq Tree := decEq

/-! ### Views -/

mutual

/-- The subtrees from top to bottom and left to right, the whole tree first, each with its depth;
the root has the given depth. -/
def walk (depth : Int) : Tree → List (Int × Tree)
  | node label children => (depth, node label children) :: walkAll (depth + 1) children

/-- The subtrees of some trees, one tree after the other. -/
def walkAll (depth : Int) : List Tree → List (Int × Tree)
  | [] => []
  | tree :: trees => walk depth tree ++ walkAll depth trees

end

/-- The labels of the terminals, from left to right. -/
def leaves (tree : Tree) : List Label :=
  ((tree.walk 0).map fun entry => entry.2.label).filter Label.isTerminal

mutual

/-- The tree as a JSON value: an object for each node, with its children in an array. -/
def toJson : Tree → Json
  | node label children =>
    .obj [("name", .str label.name), ("value", .str label.value),
      ("is_terminal", .bool label.isTerminal), ("children", .arr (toJsonAll children))]

/-- Some trees as JSON values. -/
def toJsonAll : List Tree → List Json
  | [] => []
  | tree :: trees => toJson tree :: toJsonAll trees

end

/-- The line of a node at a depth: some text in front, a bar for each level above it, the value,
and the name in parentheses. -/
def line (front : String) (depth : Int) (label : Label) : String :=
  front ++ String.ofList (List.replicate depth.toNat '|') ++ label.value ++ " (" ++ label.name ++ ")"

/-- The tree in lines, the same text in front of each. -/
def format (front : String) (tree : Tree) : String :=
  "\n".intercalate ((tree.walk 0).map fun entry => line front entry.1 entry.2.label)

/-- The tree as it is printed: in lines, the last one ended as well. -/
def printed (front : String) (tree : Tree) : String := tree.format front ++ "\n"

mutual

/-- The tree in words: the name, the value of a terminal, and the first three children. -/
def describe : Tree → String
  | node label children =>
    let value := if label.isTerminal then ", value=" ++ Text.quoted label.value else ""
    let parts := describeAll children
    let shown := ", ".intercalate (parts.take 3) ++ (if 3 < parts.length then ", ..." else "")
    let below := if parts.isEmpty then "" else ", children=[" ++ shown ++ "]"
    "ParseTree(" ++ label.name ++ value ++ below ++ ")"

/-- Some trees in words. -/
def describeAll : List Tree → List String
  | [] => []
  | tree :: trees => describe tree :: describeAll trees

end

end Tree

end TokenGrammar
