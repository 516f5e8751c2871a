import TokenGrammar.Decimal.Shortest
import TokenGrammar.Json.Value
import TokenGrammar.Text.CodeUnits
import TokenGrammar.Text.Hex

/-!
# Writing JSON

A value is written in graphic ASCII: every other character of a text is escaped, by its code units
unless it has an escape of its own. The layout is either one line, or one item per line with a fixed
indentation for every level. Empty arrays and objects are written without a line of their own.

## Main definitions

* `Json.Layout` — one line, or indented by some spaces per level
* `Json.writeString` — a text between its quotes
* `Json.write` — a value in a layout
-/

namespace TokenGrammar.Json

/-- How the items of arrays and objects are laid out. -/
inductive Layout
  /-- Everything on one line, a space after each comma. -/
  | inline
  /-- Every item on a line of its own, indented by `width` spaces for each level. -/
  | indented (width : Nat)

namespace Layout

/-- What separates a bracket from the item beside it, at a level. -/
def gap : Layout → (level : Nat) → List Char
  | inline, _ => []
  | indented width, level => '\n' :: List.replicate (width * level) ' '

/-- What follows the comma between two items, at a level. -/
def separator : Layout → (level : Nat) → List Char
  | inline, _ => [' ']
  | indented width, level => gap (indented width) level

end Layout

/-- One code unit as an escape. -/
def escapeUnit (u : Nat) : List Char := '\\' :: 'u' :: Text.hexNumeral 4 u

/-- A character inside a text: seven have an escape of their own, the space and the other graphic
characters of ASCII stand for themselves, and all others are escaped by number. -/
def escapeChar (c : Char) : List Char :=
  match c with
  | '\x22' => ['\\', '\x22']
  | '\\' => ['\\', '\\']
  | '\n' => ['\\', 'n']
  | '\r' => ['\\', 'r']
  | '\t' => ['\\', 't']
  | '\x0c' => ['\\', 'f']
  | '\x08' => ['\\', 'b']
  | c =>
    if 0x20 ≤ c.toNat ∧ c.toNat < 0x7f then [c]
    else (Text.codeUnits c).flatMap escapeUnit

/-- A text between its quotes. -/
def writeString (s : String) : List Char := '\x22' :: s.toList.flatMap escapeChar ++ ['\x22']

/-- A binary number; the values that are no numbers have names. -/
def writeFloat : Binary64 → String
  | .nan => "NaN"
  | .infinite negative => if negative then "-Infinity" else "Infinity"
  | x => x.text

mutual

/-- A value in a layout, where its brackets stand at the given level. -/
def write (layout : Layout) (level : Nat) : Json → List Char
  | null => "null".toList
  | bool true => "true".toList
  | bool false => "false".toList
  | int n => (toString n).toList
  | float x => (writeFloat x).toList
  | str s => writeString s
  | arr [] => ['[', ']']
  | arr (item :: items) =>
    '[' :: layout.gap (level + 1) ++ write layout (level + 1) item ++
      writeItems layout (level + 1) items ++ layout.gap level ++ [']']
  | obj [] => ['\x7b', '\x7d']
  | obj ((key, value) :: members) =>
    '\x7b' :: layout.gap (level + 1) ++ writeString key ++ [':', ' '] ++
      write layout (level + 1) value ++ writeMembers layout (level + 1) members ++
      layout.gap level ++ ['\x7d']

/-- The further items of an array, each after its comma. -/
def writeItems (layout : Layout) (level : Nat) : List Json → List Char
  | [] => []
  | item :: items =>
    ',' :: layout.separator level ++ write layout level item ++ writeItems layout level items

/-- The further members of an object, each after its comma. -/
def writeMembers (layout : Layout) (level : Nat) : List (String × Json) → List Char
  | [] => []
  | (key, value) :: members =>
    ',' :: layout.separator level ++ writeString key ++ [':', ' '] ++
      write layout level value ++ writeMembers layout level members

end

/-- A value as a text of its own. -/
def print (layout : Layout) (value : Json) : String := String.ofList (write layout 0 value)

end TokenGrammar.Json
