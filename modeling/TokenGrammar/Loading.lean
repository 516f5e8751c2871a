import TokenGrammar.Derivation.Parser
import TokenGrammar.Files.Basic
import TokenGrammar.Grammar.Reader
import TokenGrammar.Json.Reader
import TokenGrammar.Session
import TokenGrammar.Token.File

/-!
# Loading and deriving

The inputs of a derivation are read from files. Each step records what it has loaded, and fails
with the fault of the file at hand before anything of the next file is looked at.

## Main definitions

* `readJsonFile` — the JSON value in a file
* `loadTerminals`, `loadTokens`, `loadGrammar` — the inputs by path
* `Parser.runWithin` — the parse tree of some tokens, derived within a limit
* `Grammar.derive` — the parse tree of some tokens under a grammar
-/

namespace TokenGrammar

/-- The path that an argument gives. The argument is missing where the value was only a mark that
is dropped. -/
def checkPath : Option String → Except Failure String
  | none => .error .noPath
  | some path => if path.toList.contains '\x00' then .error .nullInPath else .ok path

/-- The failure of a text that is not read as JSON, at the file fault `fault`. -/
def jsonFailure (fault : InputFault → ConfigFault) (text : List Char) : Json.ReadFault → Failure
  | .malformed problem offset =>
    .config (fault (.malformed problem (Text.Place.after (text.take offset))))
  | .tooDeep => .tooDeep
  | .tooManyDigits count => .tooManyDigits count

/-- The JSON value in the file at a path. -/
def readJsonFile (files : Files) (path : String) (fault : InputFault → ConfigFault) :
    Except Failure Json :=
  match files.read path with
  | .error cause => .error (.config (fault (.unopened cause)))
  | .ok bytes =>
    match Text.ofFile bytes with
    | .error cause => .error (.config (fault (.undecodable cause)))
    | .ok text => (Json.read text).mapError (jsonFailure fault text)

/-- The terminals in the file at a path. -/
def loadTerminals (files : Files) (path : Option String) : Session (List Terminal) := do
  let path ← Session.ofExcept (checkPath path)
  let json ← Session.ofExcept (readJsonFile files path (.unreadableTerminals path))
  let terminals ← Session.ofExcept ((Terminal.ofJson json).mapError .config)
  Session.record [.terminalsLoaded terminals.length path]
  return terminals

/-- The tokens in the file at a path. -/
def loadTokens (files : Files) (path : Option String) : Session (List Token) := do
  let path ← Session.ofExcept (checkPath path)
  let json ← Session.ofExcept (readJsonFile files path (.unreadableTokens path))
  let tokens ← Session.ofExcept ((Token.ofJson json).mapError .config)
  Session.record [.tokensLoaded tokens.length path]
  return tokens

/-- What is recorded of a grammar that is loaded: a warning for each non-terminal without
alternatives, then its size. -/
def Grammar.events (grammar : Grammar) : List Event :=
  grammar.barren.map .barrenNonterminal ++
    [.grammarLoaded grammar.nonterminals.length grammar.start.name]

/-- Records a grammar that is loaded. -/
def announce (grammar : Except ConfigFault Grammar) : Session Grammar := do
  let grammar ← Session.ofExcept (grammar.mapError .config)
  Session.record grammar.events
  return grammar

/-- The grammar in the file at a path. -/
def loadGrammar (files : Files) (terminals : List Terminal) (path : Option String) :
    Session Grammar := do
  let path ← Session.ofExcept (checkPath path)
  match files.read path with
  | .error cause => Session.fail (.config (.unreadableGrammar path (.unopened cause)))
  | .ok bytes => announce (Grammar.readIncoming terminals path (Text.linesOfFile bytes))

/-- The failure of a derivation that is broken off. -/
def Abort.failure : Abort → Failure
  | tooDeep => .tooDeep
  | badIndex fault => .badIndex fault

/-- The parse tree of all tokens of a parser, derived in at most `limit` nested attempts. -/
def Parser.runWithin (parser : Parser) (limit : Nat) : Session Tree := do
  Session.record [.derivationBegun parser.tokens.length parser.start.name]
  match parser.parseWithin limit with
  | .derived tree _ =>
    Session.record [.derivationFound parser.start.name]
    return tree
  | .failed => Session.fail .noDerivation
  | .aborted cause => Session.fail cause.failure

namespace Parser

variable {parser : Parser} {limit : Nat}

theorem outcome_runWithin (parser : Parser) (limit : Nat) :
    (parser.runWithin limit).outcome =
      match parser.parseWithin limit with
      | .derived tree _ => .ok tree
      | .failed => .error .noDerivation
      | .aborted cause => .error cause.failure := by
  rw [runWithin, Session.outcome_bind]
  cases parser.parseWithin limit <;> rfl

theorem outcome_runWithin_eq_ok_iff {tree : Tree} :
    (parser.runWithin limit).outcome = .ok tree ↔
      ∃ next, parser.parseWithin limit = .derived tree next := by
  rw [outcome_runWithin]
  cases parser.parseWithin limit <;> simp

theorem outcome_runWithin_eq_noDerivation_iff :
    (parser.runWithin limit).outcome = .error .noDerivation ↔
      parser.parseWithin limit = .failed := by
  rw [outcome_runWithin]
  rcases parser.parseWithin limit with _ | _ | (_ | _) <;> simp [Abort.failure]

theorem outcome_runWithin_eq_tooDeep_iff :
    (parser.runWithin limit).outcome = .error .tooDeep ↔
      parser.parseWithin limit = .aborted .tooDeep := by
  rw [outcome_runWithin]
  rcases parser.parseWithin limit with _ | _ | (_ | _) <;> simp [Abort.failure]

end Parser

/-- The parse tree of all tokens of a parser. -/
def Parser.run (parser : Parser) : Session Tree := parser.runWithin Parser.nestingLimit

/-- The parser of some tokens under a grammar. -/
def Grammar.parser (grammar : Grammar) (tokens : List Token) : Parser :=
  ⟨tokens, grammar.rules, grammar.start⟩

/-- The parse tree of some tokens under a grammar. -/
def Grammar.derive (grammar : Grammar) (tokens : List Token) : Session Tree :=
  (grammar.parser tokens).run

end TokenGrammar
