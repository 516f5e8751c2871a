import TokenGrammar.Grammar.Basic
import TokenGrammar.Token.Basic
import TokenGrammar.Tree.Basic

/-!
# Comparing values

Everything that can be named or shown, under one type: symbols, tokens, terminals, labels, trees
and plain texts. Values of different kinds are never equal. Symbols are compared by name, all else
by all parts. Labels and trees can be changed, so they are not members of sets.

## Main definitions

* `Item` — a value of some kind
* `Item.same` — equality
* `Item.mutableKind?` — the kind of a value that cannot be a member of a set
* `Item.addTo` — adds a value to a set
-/

namespace TokenGrammar

/-- A value of some kind. -/
inductive Item
  | symbol (symbol : Symbol)
  | token (token : Token)
  | terminal (terminal : Terminal)
  | label (label : Label)
  | tree (tree : Tree)
  | text (text : String)

namespace Item

/-- Equality of values. -/
def same : Item → Item → Bool
  | symbol a, symbol b => a.same b
  | token a, token b => a == b
  | terminal a, terminal b => a == b
  | label a, label b => a == b
  | tree a, tree b => decide (a = b)
  | text a, text b => a == b
  | _, _ => false

/-- A value in words. -/
def describe : Item → String
  | symbol a => a.describe
  | token a => a.describe
  | terminal a => a.describe
  | label a => a.describe
  | tree a => a.describe
  | text a => Text.quoted a

/-- The kind of a value that can be changed. -/
def mutableKind? : Item → Option String
  | label _ => some "ParseNode"
  | tree _ => some "ParseTree"
  | _ => none

/-- The wording of the refusal to put a value of some kind into a set. -/
def unhashable (kind : String) : String := "unhashable type: '" ++ kind ++ "'"

/-- The set with one more member, or the refusal of the value. -/
def addTo (set : List Item) (item : Item) : Except String (List Item) :=
  match item.mutableKind? with
  | some kind => .error (unhashable kind)
  | none => .ok (if set.any item.same then set else item :: set)

end Item

end TokenGrammar
