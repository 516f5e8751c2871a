/-!
# Blank characters

The white space of Unicode: the characters that are trimmed off both ends of a line. Formatting
characters without width, such as U+200B and U+FEFF, are not among them, and neither is U+180E.

## Main definitions

* `Text.isBlank` — the class itself
* `Text.trim` — a text without the blanks at its two ends
-/

namespace TokenGrammar.Text

/-- White space: the blanks of ASCII with the four information separators, NEL, the no-break
space, and the spaces and separators of the general punctuation and ideographic blocks. -/
def isBlank (c : Char) : Bool :=
  let n := c.toNat
  (0x09 ≤ n && n ≤ 0x0d) || (0x1c ≤ n && n ≤ 0x20) || n == 0x85 || n == 0xa0 || n == 0x1680
    || (0x2000 ≤ n && n ≤ 0x200a) || n == 0x2028 || n == 0x2029 || n == 0x202f || n == 0x205f
    || n == 0x3000

/-- Every blank of ASCII is a blank here. -/
theorem isBlank_of_isWhitespace {c : Char} (h : c.isWhitespace = true) : isBlank c = true := by
  simp only [Char.isWhitespace, Bool.or_eq_true, decide_eq_true_eq] at h
  rcases h with ((h | h) | h) | h <;> subst h <;> decide

/-- A text without its leading blanks. -/
def trimLeft (text : List Char) : List Char := text.dropWhile isBlank

/-- A text without its trailing blanks. -/
def trimRight (text : List Char) : List Char := (text.reverse.dropWhile isBlank).reverse

/-- A text without the blanks at its two ends. -/
def trim (text : List Char) : List Char := trimRight (trimLeft text)

end TokenGrammar.Text
