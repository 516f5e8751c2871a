import TokenGrammar.Files.Directory
import TokenGrammar.Json.Printer
import TokenGrammar.Loading

/-!
# The derivation command

A request names three input files, a form of output and perhaps an output file. Carrying it out
loads the terminals, the grammar and the tokens in this order, derives the tree, renders it, and
only then prints it or writes it to the output file: whatever fails before leaves nothing behind.

## Main definitions

* `Request` — what is asked for
* `Request.derive` — the tree that is asked for
* `Tree.render` — a tree as it is put out
* `Execution` — what carrying out a request does
* `Request.execute` — carries out a request in a file system
* `Request.executeIn` — carries out a request in a directory
-/

namespace TokenGrammar

/-- What is asked for. A path is missing where a mark that is dropped was given in its place. -/
structure Request where
  /-- The path of the grammar. -/
  grammar : Option String
  /-- The path of the terminals. -/
  terminals : Option String
  /-- The path of the tokens. -/
  tokens : Option String
  /-- Whether the tree is put out as JSON, not as lines. -/
  asJson : Bool
  /-- The path of the output file. -/
  out : Option String
  deriving DecidableEq, Repr

/-- A tree as it is put out, without the final newline. -/
def Tree.render (asJson : Bool) (tree : Tree) : String :=
  if asJson then tree.toJson.print (.indented 2) else tree.format ""

namespace Request

/-- The tree that is asked for. -/
def derive (request : Request) (files : Files) : Session Tree := do
  let terminals ← loadTerminals files request.terminals
  let grammar ← loadGrammar files terminals request.grammar
  let tokens ← loadTokens files request.tokens
  grammar.derive tokens

/-- The path of the output file; without one, or with an empty one, the tree is printed. -/
def destination? (request : Request) : Option String :=
  request.out.filter (!·.isEmpty)

end Request

/-- What carrying out a request does. -/
structure Execution where
  /-- The tree, or why there is none. -/
  outcome : Except Failure Tree
  /-- What is recorded. -/
  events : List Event
  /-- What is printed. -/
  printed : String

namespace Request

/-- Writes a text to the file at a path, and says why that fails if it does. -/
def writeOut {m : Type → Type} [Monad m] (system : FileSystem m) (path text : String) :
    m (Except Failure Unit) :=
  match checkPath (some path) with
  | .error failure => pure (.error failure)
  | .ok path => do
    let written ← system.write path (Utf8.encode text.toList)
    return written.mapError (Failure.unopenedOutput path)

/-- Carries out a request in a file system. -/
def execute {m : Type → Type} [Monad m] (request : Request) (system : FileSystem m) :
    m Execution := do
  let files ← system.look ([request.terminals, request.grammar, request.tokens].filterMap id)
  let session := request.derive files
  match session.outcome with
  | .error failure => return ⟨.error failure, session.events, ""⟩
  | .ok tree =>
    let text := tree.render request.asJson ++ "\n"
    match request.destination? with
    | none => return ⟨.ok tree, session.events, text⟩
    | some path =>
      match ← writeOut system path text with
      | .error failure => return ⟨.error failure, session.events, ""⟩
      | .ok () => return ⟨.ok tree, session.events ++ [.treeWritten path], ""⟩

/-- Carries out a request in a directory: what it does, and the directory afterwards. -/
def executeIn (request : Request) (directory : Directory) : Execution × Directory :=
  (request.execute Directory.system).run directory

end Request

end TokenGrammar
