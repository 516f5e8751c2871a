import TokenGrammar.Text.Digit
import TokenGrammar.Text.Quoted

/-!
# The words of a command line

Before its effect is known, each word of a command line is sorted: it is an operand, a switch, or
the mark `--`, after which all words are operands. A switch may be written in full, as a beginning
of its long name that no other long name shares, and with its value attached. A hyphen alone, a
negative number, and a word with a space that is no switch are operands.

## Main definitions

* `CommandLine.Switch` — the switches of the command
* `CommandLine.UsageFault` — what can be wrong with a command line
* `CommandLine.Word` — what a word is
* `CommandLine.sortWord` — what a word before the mark is
* `CommandLine.sortWords` — what each word of a command line is
-/

namespace TokenGrammar.CommandLine

/-- The switches of the command. -/
inductive Switch
  | help
  | terminals
  | tokens
  | json
  | out
  | verbose
  deriving DecidableEq, Repr

namespace Switch

/-- Whether a switch is followed by a value. -/
def takesValue : Switch → Bool
  | terminals => true
  | tokens => true
  | out => true
  | _ => false

/-- A switch as messages name it. -/
def title : Switch → String
  | help => "-h/--help"
  | terminals => "--terminals"
  | tokens => "--tokens"
  | json => "--json"
  | out => "-o/--out"
  | verbose => "--verbose"

/-- All spellings, in the order in which messages list them. -/
def spellings : List (String × Switch) :=
  [("-h", help), ("--help", help), ("--terminals", terminals), ("--tokens", tokens),
    ("--json", json), ("-o", out), ("--out", out), ("--verbose", verbose)]

end Switch

/-- What can be wrong with a command line. -/
inductive UsageFault
  /-- Several switches begin like a word. -/
  | ambiguous (word : String) (candidates : List String)
  /-- The value of a switch is missing. -/
  | valueExpected (switch : Switch)
  /-- A switch without value is given one. -/
  | valueRefused (switch : Switch) (value : String)
  /-- Arguments that must be there are missing. -/
  | missing (titles : List String)
  /-- Words are left over. -/
  | unrecognized (words : List String)
  deriving DecidableEq, Repr

/-- The wording of a fault. -/
def UsageFault.message : UsageFault → String
  | ambiguous word candidates =>
    "ambiguous option: " ++ word ++ " could match " ++ ", ".intercalate candidates
  | valueExpected switch => "argument " ++ switch.title ++ ": expected one argument"
  | valueRefused switch value =>
    "argument " ++ switch.title ++ ": ignored explicit argument " ++ Text.quoted value
  | missing titles => "the following arguments are required: " ++ ", ".intercalate titles
  | unrecognized words => "unrecognized arguments: " ++ " ".intercalate words

/-- What a word of a command line is. -/
inductive Word
  | operand (text : String)
  /-- The mark that ends the switches. -/
  | mark
  /-- A switch, whether its long name was meant, and the value attached to it. -/
  | switch (switch : Switch) (long : Bool) (attached : Option String)
  /-- A word that looks like a switch and is none. -/
  | unknown (text : String)
  deriving DecidableEq, Repr

/-- The mark that ends the switches. -/
def markText : String := "--"

/-- A word up to its first equals sign, and what follows the sign if there is one. -/
def splitAtEquals (word : String) : String × Option String :=
  let name := word.toList.takeWhile (· != '=')
  match word.toList.drop name.length with
  | [] => (word, none)
  | _ :: value => (String.ofList name, some (String.ofList value))

/-- Digits, or digits around a point with at least one after it; a newline may follow. -/
def isUnsignedNumber (text : List Char) : Bool :=
  let text := if text.getLast? = some '\n' then text.dropLast else text
  let whole := text.takeWhile Text.isDecimalDigit
  match text.drop whole.length with
  | [] => !whole.isEmpty
  | '.' :: fraction => !fraction.isEmpty && fraction.all Text.isDecimalDigit
  | _ => false

/-- The switches that a word with a hyphen may mean if it is no exact spelling, with their
spellings. After two hyphens the word is a beginning of a long name, perhaps with an equals sign
and a value; after one, its first two characters are a short name and the rest is the value. -/
def candidates (word : String) : List (String × Word) :=
  match word.toList with
  | '-' :: '-' :: _ =>
    let (name, value) := splitAtEquals word
    (Switch.spellings.filter fun spelling => name.toList.isPrefixOf spelling.1.toList).map
      fun spelling => (spelling.1, .switch spelling.2 true value)
  | '-' :: c :: rest =>
    (Switch.spellings.filter fun spelling => spelling.1 == String.ofList ['-', c]).map
      fun spelling => (spelling.1, .switch spelling.2 false (some (String.ofList rest)))
  | _ => []

/-- Whether a spelling is a long name. -/
def isLong (spelling : String) : Bool := markText.toList.isPrefixOf spelling.toList

/-- What a word before the mark is. -/
def sortWord (word : String) : Except UsageFault Word :=
  match word.toList with
  | '-' :: rest =>
    match Switch.spellings.lookup word with
    | some switch => .ok (.switch switch (isLong word) none)
    | none =>
      if rest.isEmpty then .ok (.operand word)
      else
        let (name, value) := splitAtEquals word
        match value, Switch.spellings.lookup name with
        | some value, some switch => .ok (.switch switch (isLong name) (some value))
        | _, _ =>
          match candidates word with
          | [] =>
            if isUnsignedNumber rest || rest.contains ' ' then .ok (.operand word)
            else .ok (.unknown word)
          | [candidate] => .ok candidate.2
          | several => .error (.ambiguous word (several.map Prod.fst))
  | _ => .ok (.operand word)

/-- What each word of a command line is. -/
def sortWords : List String → Except UsageFault (List Word)
  | [] => .ok []
  | word :: rest =>
    if word = markText then .ok (.mark :: rest.map .operand)
    else
      match sortWord word with
      | .error fault => .error fault
      | .ok sorted => (sortWords rest).map (sorted :: ·)

end TokenGrammar.CommandLine
