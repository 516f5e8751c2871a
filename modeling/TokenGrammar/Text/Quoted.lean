import TokenGrammar.Text.Hex
import TokenGrammar.Text.Printable

/-!
# Quoted text

A text between quote marks, on one line and with every character visible. The mark is the
apostrophe, unless the text holds apostrophes and no double quote; the backslash, the mark and
all that is not printable are escaped.

## Main definitions

* `Text.quoteMark` — the mark a text is quoted with
* `Text.escape` — one character as it stands between the marks
* `Text.quoted` — the whole text between its marks
-/

namespace TokenGrammar.Text

/-- The double quote if the text holds an apostrophe and no double quote, else the apostrophe. -/
def quoteMark (text : List Char) : Char :=
  if text.contains '\x27' && !text.contains '\x22' then '\x22' else '\x27'

/-- The escape of a character by its number, in the shortest of the three forms that holds it. -/
def escapeByNumber (c : Char) : List Char :=
  let n := c.toNat
  if n < 0x100 then '\\' :: 'x' :: hexNumeral 2 n
  else if n < 0x10000 then '\\' :: 'u' :: hexNumeral 4 n
  else '\\' :: 'U' :: hexNumeral 8 n

/-- A character as it stands between two marks. -/
def escape (mark c : Char) : List Char :=
  if c == mark || c == '\\' then ['\\', c]
  else if c == '\n' then ['\\', 'n']
  else if c == '\r' then ['\\', 'r']
  else if c == '\t' then ['\\', 't']
  else if isPrintable c then [c]
  else escapeByNumber c

/-- A text between its marks. -/
def quoted (text : String) : String :=
  let mark := quoteMark text.toList
  String.ofList (mark :: text.toList.flatMap (escape mark) ++ [mark])

/-- A mark inside the text is escaped. -/
theorem escape_mark (mark : Char) : escape mark mark = ['\\', mark] := by
  simp [escape]

end TokenGrammar.Text
