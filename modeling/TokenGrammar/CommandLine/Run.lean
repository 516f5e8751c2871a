import TokenGrammar.CommandLine.Arguments

/-!
# Running a command line

A command line ends with an exit code, or with a failure that is not reported in its own words. It
prints the tree, writes it to a file, or explains its usage; events and faults go to the error
output.

## Main definitions

* `CommandLine.usage`, `CommandLine.helpText` — how the command is used
* `CommandLine.Ending`, `CommandLine.Report` — what a command line does
* `CommandLine.run` — runs a command line in a file system
* `CommandLine.runProgram` — runs it as a program of its own
-/

namespace TokenGrammar.CommandLine

/-- How the command is used, in short. -/
def usage : String :=
  "usage: gpc [-h] --terminals FILE --tokens FILE [--json] [-o OUTFILE]\n" ++
  "           [--verbose]\n" ++
  "           grammar\n"

/-- How the command is used. -/
def helpText : String :=
  usage ++
  "\n" ++
  "Derive a token sequence against a grammar file\n" ++
  "\n" ++
  "positional arguments:\n" ++
  "  grammar               Grammar file\n" ++
  "\n" ++
  "options:\n" ++
  "  -h, --help            show this help message and exit\n" ++
  "  --terminals FILE      Terminal definitions (JSON)\n" ++
  "  --tokens FILE         Token sequence (JSON)\n" ++
  "  --json                Print the tree as JSON\n" ++
  "  -o OUTFILE, --out OUTFILE\n" ++
  "                        Output to file\n" ++
  "  --verbose             Enable debug logging\n"

/-- How a command line ends. -/
inductive Ending
  /-- The request is carried out, or a failure is reported. -/
  | finished (code : Nat)
  /-- There is no request: help is given or the usage is wrong. -/
  | dismissed (code : Nat)
  /-- A failure ends the command that is not reported in its own words. -/
  | escaped (failure : Failure)
  /-- Nothing is done. -/
  | idle

/-- What a command line does. -/
structure Report where
  /-- How it ends. -/
  ending : Ending
  /-- What it prints. -/
  printed : String
  /-- What it writes to the error output. -/
  errors : String

/-- The lines of the events that are shown: all, or only warnings. -/
def eventLines (channel : String) (verbose : Bool) (events : List Event) : String :=
  String.join ((events.filter fun event => verbose || event.level == .warning).map
    fun event => event.render channel ++ "\n")

/-- The line that reports a failure. -/
def failureLine (failure : Failure) : String :=
  "gpc: " ++ failure.message?.getD "" ++ "\n"

/-- The report of a request that is carried out. -/
def Invocation.report (invocation : Invocation) (channel : String) (execution : Execution) :
    Report :=
  let lines := eventLines channel invocation.verbose execution.events
  match execution.outcome with
  | .ok _ => ⟨.finished 0, execution.printed, lines⟩
  | .error failure =>
    if failure.isReported then
      ⟨.finished 1, execution.printed, lines ++ failureLine failure⟩
    else ⟨.escaped failure, execution.printed, lines⟩

/-- The report of a command line that makes no request. -/
def Stop.report : Stop → Report
  | .help => ⟨.dismissed 0, helpText, ""⟩
  | .fault problem => ⟨.dismissed 2, "", usage ++ "gpc: error: " ++ problem.message ++ "\n"⟩

/-- Runs a command line in a file system; the command itself records on the given channel. -/
def run {m : Type → Type} [Monad m] (system : FileSystem m) (channel : String)
    (words : List String) : m Report :=
  match read words with
  | .error stop => pure stop.report
  | .ok invocation => do
    let execution ← invocation.request.execute system
    return invocation.report channel execution

/-- The text that keeps a program from running when a word of its command line holds it. -/
def guardText : String := "pytest"

/-- Whether a text holds another one. -/
def holds (part : List Char) : List Char → Bool
  | [] => part.isEmpty
  | c :: rest => part.isPrefixOf (c :: rest) || holds part rest

/-- Whether a word of a command line holds the guard text. -/
def isGuarded (words : List String) : Bool :=
  words.any fun word => holds guardText.toList word.toList

/-- Runs a command line as a program of its own, unless it is guarded. -/
def runProgram {m : Type → Type} [Monad m] (system : FileSystem m) (words : List String) :
    m Report :=
  if isGuarded words then pure ⟨.idle, "", ""⟩ else run system "__main__" words

end TokenGrammar.CommandLine
