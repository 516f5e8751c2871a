import TokenGrammar.Json.Value
import TokenGrammar.Text.CodeUnits
import TokenGrammar.Text.Hex

/-!
# The lexemes of a JSON text

A JSON text is cut into brackets, commas, colons, strings, numbers and words, with blanks between
them. A number takes as many characters as can belong to one: what is left of an unfinished
fraction or exponent is not part of it. Where no lexeme begins, or a string is malformed, the
cutting stops with a lexeme that says so; whether that is the fault to report depends on what was
expected there.

## Main definitions

* `Json.Problem` — what can be wrong with a text
* `Json.Lexeme` — the lexemes
* `Json.scanString` — the inside of a string, up to its closing quote
* `Json.readNumber` — the number at the head of a text
* `Json.lexemes` — all lexemes of a text with their places
-/

namespace TokenGrammar.Json

/-- What can be wrong with a JSON text. -/
inductive Problem
  | byteOrderMark
  | valueExpected
  | nameExpected
  | colonExpected
  | commaExpected
  | trailingText
  | unterminatedString
  | controlCharacter
  | unknownEscape
  | badCodeEscape
  deriving DecidableEq, Repr

/-- The wording of a problem. -/
def Problem.message : Problem → String
  | byteOrderMark => "Unexpected UTF-8 BOM (decode using utf-8-sig)"
  | valueExpected => "Expecting value"
  | nameExpected => "Expecting property name enclosed in double quotes"
  | colonExpected => "Expecting ':' delimiter"
  | commaExpected => "Expecting ',' delimiter"
  | trailingText => "Extra data"
  | unterminatedString => "Unterminated string starting at"
  | controlCharacter => "Invalid control character at"
  | unknownEscape => "Invalid \\escape"
  | badCodeEscape => "Invalid \\uXXXX escape"

/-- A lexeme of a JSON text. -/
inductive Lexeme
  | openArray
  | closeArray
  | openObject
  | closeObject
  | comma
  | colon
  | string (s : String)
  /-- A word that stands for a value. -/
  | word (value : Json)
  | integer (negative : Bool) (digits : List Char)
  | float (x : Binary64)
  /-- A malformed string, with the distance from its opening quote to the fault. -/
  | broken (problem : Problem) (distance : Nat)
  /-- No lexeme begins here. -/
  | stray

/-- Nothing is read after a lexeme that stops the cutting. -/
def Lexeme.isLast : Lexeme → Bool
  | broken _ _ => true
  | stray => true
  | _ => false

/-- A lexeme and the place of its first character. -/
structure Placed where
  offset : Nat
  lexeme : Lexeme

/-! ### Strings -/

/-- How the inside of a string ends, and the code units before that. -/
inductive StringScan
  /-- A quote closes the string after `width` characters. -/
  | closed (units : List Nat) (width : Nat)
  /-- There is a fault after `distance` characters. -/
  | broken (problem : Problem) (distance : Nat)
  /-- No quote closes the string. -/
  | unterminated
  deriving DecidableEq, Repr

/-- The scan of `width` more characters in front, which stand for the code unit `u`. -/
def StringScan.cons (width u : Nat) : StringScan → StringScan
  | closed units rest => closed (u :: units) (width + rest)
  | broken problem distance => broken problem (width + distance)
  | unterminated => unterminated

/-- The number that four hexadecimal digits make up. -/
def codeUnit? (a b c d : Char) : Option Nat := do
  let a ← Text.hexValue? a
  let b ← Text.hexValue? b
  let c ← Text.hexValue? c
  let d ← Text.hexValue? d
  return ((a * 16 + b) * 16 + c) * 16 + d

/-- The code unit that a backslash and one character stand for. -/
def shortEscape? : Char → Option Nat
  | '\x22' => some 0x22
  | '\\' => some 0x5c
  | '/' => some 0x2f
  | 'b' => some 0x08
  | 'f' => some 0x0c
  | 'n' => some 0x0a
  | 'r' => some 0x0d
  | 't' => some 0x09
  | _ => none

/-- The inside of a string, up to its closing quote. An escape by number needs four digits and at
least one character after them. -/
def scanString : List Char → StringScan
  | [] => .unterminated
  | ['\\'] => .unterminated
  | '\\' :: 'u' :: a :: b :: c :: d :: rest =>
    match codeUnit? a b c d with
    -- The digits may not be the last characters of the text.
    | some u => if rest.isEmpty then .broken .badCodeEscape 1 else (scanString rest).cons 6 u
    | none => .broken .badCodeEscape 1
  | '\\' :: 'u' :: _ => .broken .badCodeEscape 1
  | '\\' :: c :: rest =>
    match shortEscape? c with
    | some u => (scanString rest).cons 2 u
    | none => .broken .unknownEscape 0
  | c :: rest =>
    if c = '\x22' then .closed [] 1
    else if c.toNat < 0x20 then .broken .controlCharacter 0
    else (scanString rest).cons 1 c.toNat

/-- The string whose inside begins a text, and how many characters it takes after its opening
quote. -/
def readString (inside : List Char) : Lexeme × Nat :=
  match scanString inside with
  | .closed units width => (.string (String.ofList (Text.ofCodeUnits units)), width)
  | .broken problem distance => (.broken problem (distance + 1), 0)
  | .unterminated => (.broken .unterminatedString 0, 0)

/-! ### Numbers -/

/-- The value of a string of decimal digits. -/
def digitsValue (digits : List Char) : Nat := Nat.ofDigitChars 10 digits 0

/-- Reading the digits of a number gives the number back. -/
theorem digitsValue_toDigits (n : Nat) : digitsValue (Nat.toDigits 10 n) = n :=
  Nat.ofDigitChars_toDigits (by decide) (by decide)

/-- The whole part of a number: a zero, or digits of which the first is not zero. -/
def wholePart : List Char → List Char
  | [] => []
  | c :: rest =>
    if c = '0' then ['0'] else if c.isDigit then c :: rest.takeWhile Char.isDigit else []

/-- The digits of the fraction, if a point and at least one digit begin the text. -/
def fractionPart : List Char → List Char
  | '.' :: rest => rest.takeWhile Char.isDigit
  | _ => []

/-- The exponent, if one begins the text, and how many characters it takes. -/
def exponentPart : List Char → Option (Int × Nat)
  | [] => none
  | e :: rest =>
    if e = 'e' ∨ e = 'E' then
      let sign := rest.takeWhile (fun c => c == '+' || c == '-') |>.take 1
      let digits := (rest.drop sign.length).takeWhile Char.isDigit
      if digits.isEmpty then none
      else
        let size : Int := digitsValue digits
        some (if sign = ['-'] then -size else size, 1 + sign.length + digits.length)
    else none

/-- The number at the head of a text, after its sign, and how many characters it takes. A number
without fraction and exponent is an integer. -/
def readNumber (negative : Bool) (text : List Char) : Option (Lexeme × Nat) :=
  let whole := wholePart text
  if whole.isEmpty then none
  else
    let rest := text.drop whole.length
    let fraction := fractionPart rest
    let fractionWidth := if fraction.isEmpty then 0 else fraction.length + 1
    match exponentPart (rest.drop fractionWidth) with
    | none =>
      if fraction.isEmpty then some (.integer negative whole, whole.length)
      else
        let x := Binary64.ofDecimal negative (digitsValue (whole ++ fraction)) (-fraction.length)
        some (.float x, whole.length + fractionWidth)
    | some (exponent, width) =>
      let x := Binary64.ofDecimal negative (digitsValue (whole ++ fraction))
        (exponent - fraction.length)
      some (.float x, whole.length + fractionWidth + width)

/-! ### Words and the lexer -/

/-- The words that stand for values. -/
def words : List (String × Json) :=
  [("null", .null), ("true", .bool true), ("false", .bool false), ("NaN", .float .nan),
    ("Infinity", .float (.infinite false)), ("-Infinity", .float (.infinite true))]

/-- The word at the head of a text, and how many characters it takes. -/
def readWord (text : List Char) : Option (Lexeme × Nat) :=
  (words.find? fun word => word.1.toList.isPrefixOf text).map fun word =>
    (.word word.2, word.1.length)

/-- The lexeme that begins with the character `c`, and how many characters it takes after it. -/
def readLexeme (c : Char) (rest : List Char) : Lexeme × Nat :=
  match c with
  | '[' => (.openArray, 0)
  | ']' => (.closeArray, 0)
  | '\x7b' => (.openObject, 0)
  | '\x7d' => (.closeObject, 0)
  | ',' => (.comma, 0)
  | ':' => (.colon, 0)
  | '\x22' => readString rest
  | c =>
    match readWord (c :: rest) with
    | some (lexeme, width) => (lexeme, width - 1)
    | none =>
      if c = '-' then (readNumber true rest).getD (.stray, 0)
      else
        match readNumber false (c :: rest) with
        | some (lexeme, width) => (lexeme, width - 1)
        | none => (.stray, 0)

/-- The blanks of a JSON text. -/
def isSpace (c : Char) : Bool := c == ' ' || c == '\t' || c == '\n' || c == '\r'

/-- The lexemes of a text whose first character is at `offset`. -/
def lexemes (offset : Nat) : List Char → List Placed
  | [] => []
  | c :: rest =>
    if isSpace c then lexemes (offset + 1) rest
    else
      let read := readLexeme c rest
      if read.1.isLast then [⟨offset, read.1⟩]
      else ⟨offset, read.1⟩ :: lexemes (offset + 1 + read.2) (rest.drop read.2)
termination_by text => text.length
decreasing_by
  · simp
  · simp only [List.length_drop, List.length_cons]; omega

end TokenGrammar.Json
