import TokenGrammar.Decimal.Shortest
import TokenGrammar.Json.Value
import TokenGrammar.Text.Quoted

/-!
# Values shown in messages

A value as it is shown to a reader: on one line, the constants spelled `None`, `True` and `False`,
texts quoted, and the parts of arrays and objects separated by a comma and a space.

## Main definitions

* `Json.display` — a value as it stands inside a message
* `Json.text` — a value taken as a text: a text is itself, anything else is shown
-/

namespace TokenGrammar.Json

mutual

/-- A value as it is shown. -/
def display : Json → String
  | null => "None"
  | bool true => "True"
  | bool false => "False"
  | int n => toString n
  | float x => x.text
  | str s => Text.quoted s
  | arr items => "[" ++ ", ".intercalate (displayAll items) ++ "]"
  | obj members => "\x7b" ++ ", ".intercalate (displayMembers members) ++ "\x7d"

/-- The items of an array, each as it is shown. -/
def displayAll : List Json → List String
  | [] => []
  | item :: items => display item :: displayAll items

/-- The members of an object, each as it is shown. -/
def displayMembers : List (String × Json) → List String
  | [] => []
  | (key, value) :: members =>
    (Text.quoted key ++ ": " ++ display value) :: displayMembers members

end

/-- A value taken as a text. -/
def text : Json → String
  | str s => s
  | value => value.display

end TokenGrammar.Json
