import TokenGrammar.Grammar.Basic
import TokenGrammar.Index
import TokenGrammar.Token.Basic
import TokenGrammar.Tree.Basic

/-!
# Derivations by ordered choice

A sequence of tokens is derived from a symbol by trying the alternatives of each non-terminal in
order. The members of an alternative are derived one after the other, each from where the one
before it ended; the first alternative whose members all succeed is taken, and later ones are not
tried again, whatever happens further to the right. Only for the outermost goal an alternative
must also end where the tokens end.

Attempts are nested as symbols are, and there is a limit to the nesting. It is the only reason why
an attempt may be broken off as a whole, apart from an index that goes back beyond the first token.

## Main definitions

* `Parser` — tokens, rules and a start symbol
* `Attempt` — how an attempt at a position ends
* `Parser.attempt` — derives one symbol at one position
* `Parser.tryDerive` — the tree and the index that such an attempt gives back
* `Parser.parseWithin` — derives all tokens from the start symbol
-/

namespace TokenGrammar

/-- Why a derivation is broken off. -/
inductive Abort
  /-- The attempts are nested beyond the limit. -/
  | tooDeep
  /-- A token is asked for where there is none. -/
  | badIndex (fault : IndexFault)
  deriving DecidableEq, Repr

/-- How an attempt to derive something at a position ends. -/
inductive Attempt (α : Type)
  /-- Something is derived from the tokens up to `next`. -/
  | derived (result : α) (next : Int)
  /-- Nothing is derived. -/
  | failed
  /-- The derivation is broken off as a whole. -/
  | aborted (cause : Abort)
  deriving DecidableEq

namespace Attempt

variable {α β : Type}

/-- The attempt with another result in place of what is derived. -/
def map (f : α → β) : Attempt α → Attempt β
  | derived a next => derived (f a) next
  | failed => failed
  | aborted cause => aborted cause

/-- Goes on from where the attempt ended. -/
def bind (attempt : Attempt α) (f : α → Int → Attempt β) : Attempt β :=
  match attempt with
  | derived a next => f a next
  | failed => failed
  | aborted cause => aborted cause

/-- Counts the attempt as failed if its end is not accepted. -/
def filter (accepts : Int → Bool) : Attempt α → Attempt α
  | derived a next => if accepts next then derived a next else failed
  | attempt => attempt

/-- What an attempt at an index gives back: the result and the index after it, or no result and the
index of the attempt. -/
def report (attempt : Attempt α) (index : Int) : Except Abort (Option α × Int) :=
  match attempt with
  | derived a next => .ok (some a, next)
  | failed => .ok (none, index)
  | aborted cause => .error cause

end Attempt

/-- Derives the members of a sequence one after the other. -/
def deriveSequence (derive : Symbol → Int → Attempt Tree) :
    Production → Int → Attempt (List Tree)
  | [], index => .derived [] index
  | member :: rest, index =>
    (derive member index).bind fun tree next =>
      (deriveSequence derive rest next).map (tree :: ·)

/-- The first alternative that is derived and ends where it is accepted. -/
def deriveFirst (derive : Symbol → Int → Attempt Tree) (accepts : Int → Bool) (index : Int) :
    List Production → Attempt (List Tree)
  | [] => .failed
  | production :: rest =>
    match (deriveSequence derive production index).filter accepts with
    | .failed => deriveFirst derive accepts index rest
    | attempt => attempt

/-- What is to be derived from what. -/
structure Parser where
  /-- The tokens to derive. -/
  tokens : List Token
  /-- The alternatives of each non-terminal. -/
  rules : RuleTable
  /-- The symbol that all tokens together are derived from. -/
  start : Symbol
  deriving DecidableEq

namespace Parser

/-- How many attempts may be nested when a command runs. -/
def nestingLimit : Nat := 400

/-- Matches a terminal against the token at a position. A negative position counts from the end;
there is no match at or after the end, and there is no position before the first token. -/
def matchTerminal (parser : Parser) (symbol : Symbol) (index : Int) : Attempt Tree :=
  if (parser.tokens.length : Int) ≤ index then .failed
  else
    match placeOf parser.tokens.length index with
    | .error fault => .aborted (.badIndex fault)
    | .ok place =>
      match parser.tokens[place]? with
      | none => .failed
      | some token =>
        if token.name = symbol.name then
          .derived (.leaf (.terminal token.name token.value)) (index + 1)
        else .failed

/-- Where an alternative may end: anywhere, but for the outermost goal only at the end. -/
def accepts (parser : Parser) (goal : Bool) (next : Int) : Bool :=
  !goal || next == (parser.tokens.length : Int)

/-- Derives a symbol at a position, in at most `limit` nested attempts. -/
def attempt (parser : Parser) : (limit : Nat) → Symbol → (index : Int) → (goal : Bool) →
    Attempt Tree
  | 0, _, _, _ => .aborted .tooDeep
  | limit + 1, symbol, index, goal =>
    if symbol.isTerminal then parser.matchTerminal symbol index
    else
      (deriveFirst (fun member next => parser.attempt limit member next false)
        (parser.accepts goal) index (parser.rules.alternatives symbol.name)).map
        (.node (.nonterminal symbol.name))

/-- What an attempt to derive a symbol at a position gives back. -/
def tryDerive (parser : Parser) (limit : Nat) (symbol : Symbol) (index : Int) (goal : Bool) :
    Except Abort (Option Tree × Int) :=
  (parser.attempt limit symbol index goal).report index

/-- How the derivation of all tokens ends, in at most `limit` nested attempts. -/
def parseWithin (parser : Parser) (limit : Nat) : Attempt Tree :=
  parser.attempt limit parser.start 0 true

/-- The parser with one more token at the end. -/
def push (parser : Parser) (token : Token) : Parser :=
  { parser with tokens := parser.tokens ++ [token] }

/-- The parser with only the first `count` tokens; a negative number says how many tokens at the
end are left out. -/
def truncate (parser : Parser) (count : Int) : Parser :=
  let kept := if count < 0 then count + parser.tokens.length else count
  { parser with tokens := parser.tokens.take kept.toNat }

end Parser

end TokenGrammar
