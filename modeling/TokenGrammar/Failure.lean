import TokenGrammar.Index
import TokenGrammar.Json.Display
import TokenGrammar.Json.Reader
import TokenGrammar.Text.Place
import TokenGrammar.Text.Utf8

/-!
# Failures

Why an input cannot be loaded or a command does not succeed, and how each cause is worded. What is
wrong with an input, and that no derivation exists, is reported to the user; the remaining failures
end the command.

## Main definitions

* `OpenFault` — why the system does not open a file
* `InputFault` — why the contents of a file are not obtained
* `ConfigFault` — why a grammar, terminals or tokens are not loaded
* `Failure` — every way in which a command fails
-/

namespace TokenGrammar

/-- Why the system does not open a file. -/
inductive OpenFault
  | missing
  | directory
  | notDirectory
  /-- The path, or one of its parts, has too many bytes. -/
  | nameTooLong
  /-- Any other error of the system, with its number. -/
  | other (code : Nat) (text : String)
  deriving DecidableEq, Repr

namespace OpenFault

/-- The number of the error. -/
def code : OpenFault → Nat
  | missing => 2
  | notDirectory => 20
  | directory => 21
  | nameTooLong => 36
  | other code _ => code

/-- The name of the error. -/
def text : OpenFault → String
  | missing => "No such file or directory"
  | notDirectory => "Not a directory"
  | directory => "Is a directory"
  | nameTooLong => "File name too long"
  | other _ text => text

/-- The error as the system reports it for a path. -/
def message (fault : OpenFault) (path : String) : String :=
  "[Errno " ++ toString fault.code ++ "] " ++ fault.text ++ ": " ++ Text.quoted path

end OpenFault

/-- Why the contents of a file are not obtained. -/
inductive InputFault
  | unopened (fault : OpenFault)
  | undecodable (fault : Utf8.Fault)
  | malformed (problem : Json.Problem) (place : Text.Place)
  deriving DecidableEq, Repr

/-- The wording of an input fault, for the file at `path`. -/
def InputFault.message (path : String) : InputFault → String
  | .unopened fault => fault.message path
  | .undecodable fault => fault.message
  | .malformed problem place => problem.message ++ ": " ++ place.describe

/-- Why a grammar, terminals or tokens are not loaded. -/
inductive ConfigFault
  | unreadableTerminals (path : String) (fault : InputFault)
  | unreadableTokens (path : String) (fault : InputFault)
  | unreadableGrammar (path : String) (fault : InputFault)
  /-- The terminals file holds neither an array nor an object. -/
  | terminalsExpected
  | invalidTerminal (entry : Json)
  /-- The tokens file does not hold an array. -/
  | tokensExpected
  | invalidToken (entry : Json)
  /-- Two blocks have the same header. -/
  | repeatedHeader (name : String)
  /-- There is no block at all. -/
  | noBlocks
  /-- A name in an alternative is neither a header nor a terminal. -/
  | unknownSymbol (name : String)

namespace ConfigFault

/-- The wording of a fault. -/
def message : ConfigFault → String
  | unreadableTerminals path fault =>
    "Failed to load terminals file " ++ path ++ ": " ++ fault.message path
  | unreadableTokens path fault =>
    "Failed to load tokens file " ++ path ++ ": " ++ fault.message path
  | unreadableGrammar path fault =>
    "Unable to open grammar file with path " ++ path ++ ": " ++ fault.message path
  | terminalsExpected => "Terminals file must hold a list or an object"
  | invalidTerminal entry => "Invalid terminal definition: " ++ entry.display
  | tokensExpected => "Tokens file must hold a list"
  | invalidToken entry => "Invalid token entry: " ++ entry.display
  | repeatedHeader name => "Non-terminal declared in more than one block: " ++ name
  | noBlocks => "Grammar declares no non-terminals"
  | unknownSymbol name => "Unknown symbol in grammar: " ++ name

/-- The one symbol that a fault is about, if it is about one. -/
def symbol? : ConfigFault → Option String
  | repeatedHeader name => some name
  | unknownSymbol name => some name
  | _ => none

end ConfigFault

/-- Every way in which a command fails. -/
inductive Failure
  | config (fault : ConfigFault)
  /-- The tokens do not derive from the start symbol. -/
  | noDerivation
  /-- A derivation or a JSON text is nested beyond the limit. -/
  | tooDeep
  /-- A token is asked for where there is none. -/
  | badIndex (fault : IndexFault)
  /-- An integer in a JSON text has too many digits. -/
  | tooManyDigits (count : Nat)
  /-- The output file is not opened. -/
  | unopenedOutput (path : String) (fault : OpenFault)
  /-- A path has no text: its value was a mark that is dropped. -/
  | noPath
  /-- A path holds the null character. -/
  | nullInPath

namespace Failure

/-- Whether the failure is reported to the user as the outcome of the command. -/
def isReported : Failure → Bool
  | config _ => true
  | noDerivation => true
  | _ => false

/-- The wording of a failure; running out of depth has none. -/
def message? : Failure → Option String
  | config fault => some fault.message
  | noDerivation => some "Could not create parse tree"
  | tooDeep => none
  | badIndex fault => some fault.message
  | tooManyDigits count =>
    some ("Exceeds the limit (" ++ toString Json.digitLimit ++
      " digits) for integer string conversion: value has " ++ toString count ++
      " digits; use sys.set_int_max_str_digits() to increase the limit")
  | unopenedOutput path fault => some (fault.message path)
  | noPath => some "expected str, bytes or os.PathLike object, not list"
  | nullInPath => some "embedded null byte"

end Failure

end TokenGrammar
