/-!
# Lines

A text is cut into lines at its line breaks; a break at the very end starts no further line.
Which characters break a line depends on where the text comes from: the lines of a file end in
a line feed (after the three line ends in use have been made one), those of a text in memory
also at the further separators that Unicode lists.

## Main definitions

* `Text.unifyNewlines` — carriage returns, alone or before a line feed, become line feeds
* `Text.cutLines` — the lines between the characters that satisfy a predicate
* `Text.finishedLines` — only those lines that a break ends
* `Text.isNewline`, `Text.isSeparator` — the breaks of a file and of a text in memory
* `Text.cutAtSpaces` — the words between single spaces, the empty ones included

## Main results

* `cutLines_append_break` — a broken-off line is the first line, whatever follows
* `finishedLines_append_break`, `finishedLines_eq_nil` — what follows the last break is left out
-/

namespace TokenGrammar.Text

/-- Both `\r\n` and a lone `\r` are written as `\n`. -/
def unifyNewlines : List Char → List Char
  | [] => []
  | '\r' :: '\n' :: rest => '\n' :: unifyNewlines rest
  | c :: rest => (if c = '\r' then '\n' else c) :: unifyNewlines rest

/-- A list of pieces without its last piece if that piece is empty. -/
def dropFinalEmpty : List (List Char) → List (List Char)
  | [] => []
  | [piece] => if piece.isEmpty then [] else [piece]
  | piece :: next :: rest => piece :: dropFinalEmpty (next :: rest)

/-- The lines of a text, cut at the characters that satisfy `isBreak`. A break at the end of
the text starts no further line. -/
def cutLines (isBreak : Char → Bool) (text : List Char) : List (List Char) :=
  dropFinalEmpty (text.splitOnP isBreak)

/-- The lines of a text that end in a break: all but what follows the last break. -/
def finishedLines (isBreak : Char → Bool) (text : List Char) : List (List Char) :=
  (text.splitOnP isBreak).dropLast

/-- The line break of a file, once its newlines are unified. -/
def isNewline (c : Char) : Bool := c == '\n'

/-- The line breaks of a text in memory, once its newlines are unified: the line feed, the
vertical tab, the form feed, three information separators, NEL, and the line and paragraph
separators. -/
def isSeparator (c : Char) : Bool :=
  let n := c.toNat
  n == 0x0a || n == 0x0b || n == 0x0c || (0x1c ≤ n && n ≤ 0x1e) || n == 0x85 || n == 0x2028
    || n == 0x2029

/-- The words of a line between single spaces. Two spaces in a row enclose an empty word. -/
def cutAtSpaces (line : List Char) : List (List Char) := line.splitOnP (· == ' ')

/-! ### Laws -/

theorem splitOnP_ne_nil (p : Char → Bool) (text : List Char) : text.splitOnP p ≠ [] := by
  cases text with
  | nil => simp
  | cons c rest =>
    rw [List.splitOnP_cons_eq_if_modifyHead]
    split <;> simp [List.splitOnP_ne_nil]

@[simp] theorem cutLines_nil (isBreak : Char → Bool) : cutLines isBreak [] = [] := rfl

theorem dropFinalEmpty_cons {piece : List Char} {rest : List (List Char)} (h : rest ≠ []) :
    dropFinalEmpty (piece :: rest) = piece :: dropFinalEmpty rest := by
  cases rest with
  | nil => exact absurd rfl h
  | cons next rest => rfl

/-- A line that a break ends is the first line, whatever follows. -/
theorem cutLines_append_break {isBreak : Char → Bool} {line : List Char} {b : Char}
    (hline : ∀ c ∈ line, isBreak c = false) (hb : isBreak b = true) (rest : List Char) :
    cutLines isBreak (line ++ b :: rest) = line :: cutLines isBreak rest := by
  rw [cutLines, List.splitOnP_append_cons _ _ hb, List.splitOnP_eq_singleton hline,
    List.singleton_append, dropFinalEmpty_cons (splitOnP_ne_nil _ _), cutLines]

/-- A text without breaks holds no finished line. -/
theorem finishedLines_eq_nil {isBreak : Char → Bool} {line : List Char}
    (hline : ∀ c ∈ line, isBreak c = false) : finishedLines isBreak line = [] := by
  rw [finishedLines, List.splitOnP_eq_singleton hline]; rfl

/-- A line that a break ends is finished. -/
theorem finishedLines_append_break {isBreak : Char → Bool} {line : List Char} {b : Char}
    (hline : ∀ c ∈ line, isBreak c = false) (hb : isBreak b = true) (rest : List Char) :
    finishedLines isBreak (line ++ b :: rest) = line :: finishedLines isBreak rest := by
  rw [finishedLines, List.splitOnP_append_cons _ _ hb, List.splitOnP_eq_singleton hline,
    List.singleton_append, List.dropLast_cons_of_ne_nil (splitOnP_ne_nil _ _), finishedLines]

end TokenGrammar.Text
