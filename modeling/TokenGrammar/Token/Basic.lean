import TokenGrammar.Text.Quoted

/-!
# Tokens and terminals

A token is a piece of source text with the name of its class; a terminal is such a class, with the
pattern that the tokenizer recognizes it by. Only names matter to a derivation.

## Main definitions

* `Token` — a classified piece of text, with its place if that is known
* `Terminal` — a class of tokens
-/

namespace TokenGrammar

/-- A classified piece of source text. -/
structure Token where
  /-- The name of its class. -/
  name : String
  /-- The text itself. -/
  value : String
  /-- The line it stands on, zero if unknown. -/
  line : Int := 0
  /-- The column it begins in, zero if unknown. -/
  col : Int := 0
  deriving DecidableEq, Repr

/-- A class of tokens, as the tokenizer defines it. -/
structure Terminal where
  /-- The name that productions refer to. -/
  name : String
  /-- What the tokenizer recognizes it by. -/
  pattern : String := ""
  deriving DecidableEq, Repr

/-- A token in words. -/
def Token.describe (token : Token) : String :=
  "Token(" ++ token.name ++ ", " ++ token.value ++ ")"

/-- A terminal in words. -/
def Terminal.describe (terminal : Terminal) : String :=
  "TokenDefinition(" ++ terminal.name ++ ", " ++ Text.quoted terminal.pattern ++ ")"

end TokenGrammar
