import TokenGrammar.Command
import TokenGrammar.CommandLine.Word

/-!
# The arguments of a command line

The sorted words of a command line are taken from left to right. The first operand is the grammar;
switches take effect where they stand, the last one of a kind counts, and help is given as soon as
it is asked for. What is missing and what is left over is looked at in the end, in this order.

## Main definitions

* `CommandLine.Selection` — what the words up to some place select
* `CommandLine.Stop` — why the words after some place do not matter
* `CommandLine.select` — takes the words one after the other
* `CommandLine.Invocation`, `CommandLine.read` — the request that a command line makes
-/

namespace TokenGrammar.CommandLine

/-- What the words up to some place select. The value of a switch is missing where the mark was
attached to it as its value: the mark is dropped. -/
structure Selection where
  /-- The path of the grammar. -/
  grammar : Option String := none
  /-- The value for the terminals. -/
  terminals : Option (Option String) := none
  /-- The value for the tokens. -/
  tokens : Option (Option String) := none
  /-- The value for the output. -/
  out : Option (Option String) := none
  /-- Whether JSON is asked for. -/
  json : Bool := false
  /-- Whether all events are asked for. -/
  verbose : Bool := false
  /-- The words that are left over. -/
  leftOver : List String := []
  deriving DecidableEq, Repr

/-- Why the words after some place do not matter. -/
inductive Stop
  | help
  | fault (fault : UsageFault)
  deriving DecidableEq, Repr

namespace Selection

/-- Gives a switch its value. -/
def assign (selection : Selection) (switch : Switch) (value : String) : Selection :=
  let value := if value = markText then none else some value
  match switch with
  | .terminals => { selection with terminals := some value }
  | .tokens => { selection with tokens := some value }
  | .out => { selection with out := some value }
  | _ => selection

/-- Turns on a switch without value. -/
def turnOn (selection : Selection) (switch : Switch) : Except Stop Selection :=
  match switch with
  | .help => .error .help
  | .json => .ok { selection with json := true }
  | .verbose => .ok { selection with verbose := true }
  | _ => .ok selection

/-- Puts a word aside. -/
def leave (selection : Selection) (word : String) : Selection :=
  { selection with leftOver := selection.leftOver ++ [word] }

end Selection

/-- The outcome of characters attached to the short name of help, which are short names in turn.
Help comes first, so it is given if all of them are in order: only the name of the output file may
follow, with its value attached or in the next word. -/
def readCluster (operandFollows : Bool) : List Char → Stop
  | [] => .help
  | c :: rest =>
    if c = 'h' then readCluster operandFollows rest
    else if c = 'o' then
      if rest.isEmpty && !operandFollows then .fault (.valueExpected .out) else .help
    else .fault (.valueRefused .help (String.ofList (c :: rest)))

/-- Whether the first of some words is an operand. -/
def operandFollows : List Word → Bool
  | .operand _ :: _ => true
  | _ => false

/-- Takes the words one after the other. The mark is dropped beside the word that is taken as the
grammar, and left over elsewhere. -/
def select (selection : Selection) : List Word → Except Stop Selection
  | [] => .ok selection
  | .operand text :: rest =>
    match selection.grammar, rest with
    -- The mark behind the grammar belongs to it.
    | none, .mark :: rest => select { selection with grammar := some text } rest
    | none, rest => select { selection with grammar := some text } rest
    | some _, rest => select (selection.leave text) rest
  | .mark :: rest =>
    match selection.grammar, rest with
    | none, .operand text :: rest => select { selection with grammar := some text } rest
    | _, rest => select (selection.leave markText) rest
  | .unknown text :: rest => select (selection.leave text) rest
  | .switch switch long attached :: rest =>
    match switch.takesValue, attached, rest with
    | true, some value, rest => select (selection.assign switch value) rest
    | true, none, .operand value :: rest => select (selection.assign switch value) rest
    | true, none, _ => .error (.fault (.valueExpected switch))
    | false, none, rest => do
      let selection ← selection.turnOn switch
      select selection rest
    | false, some value, rest =>
      -- Of the switches without value only help has a short name.
      if long || value.isEmpty then .error (.fault (.valueRefused switch value))
      else .error (readCluster (operandFollows rest) value.toList)

/-- What a command line asks for: a request, and whether all events are shown. -/
structure Invocation where
  /-- The request. -/
  request : Request
  /-- Whether all events are shown, or only warnings. -/
  verbose : Bool
  deriving DecidableEq, Repr

/-- The titles of the arguments that must be there and are not. -/
def Selection.missing (selection : Selection) : List String :=
  (if selection.grammar.isNone then ["grammar"] else []) ++
    (if selection.terminals.isNone then [Switch.terminals.title] else []) ++
    (if selection.tokens.isNone then [Switch.tokens.title] else [])

/-- The request that a selection makes. -/
def Selection.finish (selection : Selection) : Except Stop Invocation :=
  match selection.grammar, selection.terminals, selection.tokens with
  | some grammar, some terminals, some tokens =>
    if selection.leftOver.isEmpty then
      .ok ⟨⟨some grammar, terminals, tokens, selection.json, selection.out.join⟩,
        selection.verbose⟩
    else .error (.fault (.unrecognized selection.leftOver))
  | _, _, _ => .error (.fault (.missing selection.missing))

/-- The request that a command line makes. -/
def read (words : List String) : Except Stop Invocation := do
  let words ← (sortWords words).mapError .fault
  let selection ← select {} words
  selection.finish

end TokenGrammar.CommandLine
