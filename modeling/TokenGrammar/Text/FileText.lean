import TokenGrammar.Text.Lines
import TokenGrammar.Text.Utf8

/-!
# The text of a file

The bytes of a file are UTF-8, and its line ends become line feeds. A file is read whole, or line
by line: then its bytes arrive in blocks, and the lines that are complete before a faulty block
are still read.

## Main definitions

* `Text.ofFile` — the text of a file that is read whole
* `Text.Incoming` — the lines that can be read, and the fault that stops the reading
* `Text.linesOfFile` — the lines of a file that is read line by line
-/

namespace TokenGrammar.Text

/-- The text of a file that is read whole. -/
def ofFile (bytes : List UInt8) : Except Utf8.Fault (List Char) :=
  (Utf8.decode bytes).map unifyNewlines

/-- How many bytes are decoded at a time when a file is read line by line. -/
def blockSize : Nat := 8192

/-- Lines as they come in: those that can be read, and the fault that stops the reading, if there
is one. -/
structure Incoming where
  /-- The lines before the fault, or all lines. -/
  lines : List (List Char)
  /-- What stops the reading. -/
  fault : Option Utf8.Fault

/-- A text without a carriage return at its end: the next character decides what it stands for. -/
def dropPendingReturn (text : List Char) : List Char :=
  if text.getLast? = some '\r' then text.dropLast else text

/-- The lines of a file that is read line by line. Before a fault only finished lines count, since
the rest of the last line is not known. -/
def linesOfFile (bytes : List UInt8) : Incoming :=
  match Utf8.decodeBlocks .between (Utf8.blocks blockSize bytes) with
  | (text, none) => ⟨cutLines isNewline (unifyNewlines text), none⟩
  | (text, some fault) =>
    -- What follows the last newline may go on in the faulty block.
    ⟨finishedLines isNewline (unifyNewlines (dropPendingReturn text)), some fault⟩

/-- The lines of a text in memory. -/
def linesOfText (text : List Char) : List (List Char) :=
  cutLines isSeparator (unifyNewlines text)

end TokenGrammar.Text
