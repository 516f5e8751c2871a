import TokenGrammar.Json.Lexeme

/-!
# Reading JSON

A JSON text is read lexeme by lexeme. What has been read of the enclosing arrays and objects is a
stack of frames; the state says what may come next. A lexeme that does not fit is a fault at its
place, and so is the end of the text inside a value.

## Main definitions

* `Json.Frame`, `Json.State` — the reader between two lexemes
* `Json.State.step` — the effect of one lexeme
* `Json.ReadFault` — why a text is not read
* `Json.read` — the value of a text
-/

namespace TokenGrammar.Json

/-- Why a JSON text is not read. -/
inductive ReadFault
  /-- The text is malformed at a place. -/
  | malformed (problem : Problem) (offset : Nat)
  /-- Arrays and objects are nested too deeply. -/
  | tooDeep
  /-- An integer has too many digits. -/
  | tooManyDigits (count : Nat)
  deriving DecidableEq, Repr

/-- How many arrays and objects may be open at a time. -/
def nestingLimit : Nat := 1000

/-- How many digits an integer may have. -/
def digitLimit : Nat := 4300

/-- An array or an object of which a part is read. -/
inductive Frame
  /-- An array: the items before the one that is read now, the last one first. -/
  | array (items : List Json)
  /-- An object: the members before the one that is read now, and the key of this one. -/
  | member (members : Members) (key : String)

/-- What the reader awaits. The stack holds the open arrays and objects, the innermost first. -/
inductive State
  /-- A value. -/
  | value (stack : List Frame)
  /-- A value, or the end of an array that has just begun. -/
  | firstItem (stack : List Frame)
  /-- A key, or the end of an object that has just begun. -/
  | firstKey (stack : List Frame)
  /-- A key after a comma. -/
  | key (members : Members) (stack : List Frame)
  /-- The colon after a key. -/
  | colon (members : Members) (key : String) (stack : List Frame)
  /-- What follows a value. -/
  | after (value : Json) (stack : List Frame)

namespace State

/-- What is wrong when something else comes, or nothing. -/
def complaint : State → Problem
  | value _ => .valueExpected
  | firstItem _ => .valueExpected
  | firstKey _ => .nameExpected
  | key _ _ => .nameExpected
  | colon _ _ _ => .colonExpected
  | after _ [] => .trailingText
  | after _ (_ :: _) => .commaExpected

/-- The fault of a lexeme that does not fit: a malformed string where a string may stand is the
fault itself. -/
def misfit (state : State) (placed : Placed) : ReadFault :=
  match placed.lexeme, state with
  | .broken problem distance, value _ => .malformed problem (placed.offset + distance)
  | .broken problem distance, firstItem _ => .malformed problem (placed.offset + distance)
  | .broken problem distance, firstKey _ => .malformed problem (placed.offset + distance)
  | .broken problem distance, key _ _ => .malformed problem (placed.offset + distance)
  | _, _ => .malformed state.complaint placed.offset

/-- Opens an array or an object, if the limit allows one more. -/
def descend (limit : Nat) (stack : List Frame) (next : State) : Except ReadFault State :=
  if stack.length < limit then .ok next else .error .tooDeep

/-- The effect of a lexeme where a value may begin, if one begins with it. -/
def beginValue (limit : Nat) (stack : List Frame) : Lexeme → Option (Except ReadFault State)
  | .openArray => some (descend limit stack (firstItem stack))
  | .openObject => some (descend limit stack (firstKey stack))
  | .string s => some (.ok (after (.str s) stack))
  | .word v => some (.ok (after v stack))
  | .float x => some (.ok (after (.float x) stack))
  | .integer negative digits => some <|
    if digits.length ≤ digitLimit then
      let size : Int := digitsValue digits
      .ok (after (.int (if negative then -size else size)) stack)
    else .error (.tooManyDigits digits.length)
  | _ => none

/-- The effect of a lexeme that fits. -/
def accept (limit : Nat) : State → Lexeme → Option (Except ReadFault State)
  | value stack, lexeme => beginValue limit stack lexeme
  | firstItem stack, .closeArray => some (.ok (after (.arr []) stack))
  | firstItem stack, lexeme => beginValue limit (.array [] :: stack) lexeme
  | firstKey stack, .closeObject => some (.ok (after (.obj []) stack))
  | firstKey stack, .string s => some (.ok (colon [] s stack))
  | key members stack, .string s => some (.ok (colon members s stack))
  | colon members k stack, .colon => some (.ok (value (.member members k :: stack)))
  | after v (.array items :: stack), .comma => some (.ok (value (.array (v :: items) :: stack)))
  | after v (.array items :: stack), .closeArray =>
    some (.ok (after (.arr (v :: items).reverse) stack))
  | after v (.member members k :: stack), .comma =>
    some (.ok (key (members.insert k v) stack))
  | after v (.member members k :: stack), .closeObject =>
    some (.ok (after (.obj (members.insert k v)) stack))
  | _, _ => none

/-- The effect of one lexeme. -/
def step (limit : Nat) (state : State) (placed : Placed) : Except ReadFault State :=
  (state.accept limit placed.lexeme).getD (.error (state.misfit placed))

/-- Reads the lexemes of a text that ends at `finish`. -/
def run (limit finish : Nat) : State → List Placed → Except ReadFault Json
  | state, [] =>
    match state with
    | after v [] => .ok v
    | state => .error (.malformed state.complaint finish)
  | state, placed :: rest =>
    match state.step limit placed with
    | .ok state => run limit finish state rest
    | .error fault => .error fault

end State

/-- The value of a text. A byte order mark at its head is not skipped. -/
def read (text : List Char) : Except ReadFault Json :=
  if text.head? = some '\ufeff' then .error (.malformed .byteOrderMark 0)
  else State.run nestingLimit text.length (.value []) (lexemes 0 text)

end TokenGrammar.Json
