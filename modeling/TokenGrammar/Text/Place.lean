/-!
# Places in a text

A place is given by the number of characters before it, and by its line and column, which count
from one; only a line feed ends a line.

## Main definitions

* `Text.Place` — a place
* `Text.Place.after` — the place after some text
-/

namespace TokenGrammar.Text

/-- A place in a text. -/
structure Place where
  /-- The line, counted from one. -/
  line : Nat
  /-- The column, counted from one. -/
  column : Nat
  /-- How many characters stand before it. -/
  offset : Nat
  deriving DecidableEq, Repr

/-- The place after some text. -/
def Place.after (before : List Char) : Place where
  line := before.count '\n' + 1
  column := (before.reverse.takeWhile (· != '\n')).length + 1
  offset := before.length

/-- A place in words. -/
def Place.describe (place : Place) : String :=
  "line " ++ toString place.line ++ " column " ++ toString place.column ++
    " (char " ++ toString place.offset ++ ")"

end TokenGrammar.Text
