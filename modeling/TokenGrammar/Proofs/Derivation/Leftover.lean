import TokenGrammar.Proofs.Derivation.ParseTree

/-!
# Tokens that are left over

The leaves of a tree that is derived from the start symbol are the first tokens, and they should be
all of them. A non-terminal that is the goal sees to this itself: it passes over every alternative
that ends before the tokens do. A terminal does not look beyond the one token that it matches, and
whether it is the goal makes no difference to it. So there is exactly one way for tokens to be left
over: the start symbol is a terminal, the first token has its name, and it is not the only token.

No loaded grammar leaves tokens over, because its start symbol is a non-terminal.

## Main definitions

* `Parser.UsesUp` — every tree that is derived within a limit has all tokens at its leaves
* `Parser.LeavesOver` — the first of several tokens is matched by a terminal start symbol

## Main results

* `exists_leaves_append_eq` — the leaves of a tree that is derived are the first tokens
* `outcome_runWithin_eq_ok_iff_of_terminal` — the derivation of a terminal start symbol
* `usesUp_iff` — all tokens are used up unless the start symbol leaves some over
* `Grammar.IsLoaded.usesUp` — a loaded grammar uses up all tokens
* `uses_up_tokens_unless_leavesOver` — the outcomes of a derivation, and what they say of the tokens
-/

namespace TokenGrammar

namespace Parser

variable {parser : Parser} {limit : Nat} {tree : Tree}

/-- Every tree that is derived in at most `limit` nested attempts has all tokens at its leaves. -/
def UsesUp (parser : Parser) (limit : Nat) : Prop :=
  ∀ tree, (parser.runWithin limit).outcome = .ok tree →
    tree.leaves = parser.tokens.map Token.label

/-- The start symbol is a terminal that matches the first token, and there are more tokens. -/
def LeavesOver (parser : Parser) : Prop :=
  parser.start.isTerminal = true ∧ ∃ first second rest,
    parser.tokens = first :: second :: rest ∧ first.name = parser.start.name

/-- The leaves of a tree that is derived are the first tokens. -/
theorem exists_leaves_append_eq (h : (parser.runWithin limit).outcome = .ok tree) :
    ∃ rest, tree.leaves ++ rest = parser.tokens.map Token.label := by
  obtain ⟨next, hderived⟩ := outcome_runWithin_eq_ok_iff.mp h
  obtain ⟨last, -, -, hsettles⟩ := exists_place_of_derived (Nat.zero_le _) hderived
  exact ⟨_, hsettles.leaves_append_eq (Nat.zero_le _)⟩

/-- What a terminal derives is the leaf of the token it matches, whether it is the goal or not. -/
theorem Settles.exists_token {symbol : Symbol} {index next : Nat} {goal : Bool}
    (h : parser.Settles symbol index goal (some (tree, next)))
    (hterminal : symbol.isTerminal = true) :
    ∃ token, parser.tokens[index]? = some token ∧ token.name = symbol.name ∧
      tree = .leaf token.label := by
  cases h with
  | matched _ htoken hname => exact ⟨_, htoken, hname, rfl⟩
  | chosen hnonterminal => simp [hterminal] at hnonterminal

/-- From a terminal, a tree is derived if the first token has its name: the leaf of this token,
whatever follows it. -/
theorem outcome_runWithin_eq_ok_iff_of_terminal (hstart : parser.start.isTerminal = true) :
    (parser.runWithin (limit + 1)).outcome = .ok tree ↔
      ∃ first rest, parser.tokens = first :: rest ∧ first.name = parser.start.name ∧
        tree = .leaf first.label := by
  rw [outcome_runWithin_eq_ok_iff]
  constructor
  · rintro ⟨next, hderived⟩
    obtain ⟨last, -, -, hsettles⟩ := exists_place_of_derived (Nat.zero_le _) hderived
    obtain ⟨first, hfirst, hname, htree⟩ := hsettles.exists_token hstart
    obtain ⟨rest, htokens⟩ := List.head?_eq_some_iff.mp (List.head?_eq_getElem? ▸ hfirst)
    exact ⟨first, rest, htokens, hname, htree⟩
  · rintro ⟨first, rest, htokens, hname, rfl⟩
    have hfirst : parser.tokens[0]? = some first := by
      rw [htokens]
      rfl
    exact ⟨_, (attempt_terminal hstart).trans (matchTerminal_of_match hfirst hname)⟩

/-- All tokens are used up, unless a terminal start symbol matches the first of several tokens. -/
theorem usesUp_iff (parser : Parser) (limit : Nat) :
    parser.UsesUp (limit + 1) ↔ ¬ parser.LeavesOver := by
  constructor
  · -- A terminal derives the leaf of the first token, and the second one is left over.
    rintro husesUp ⟨hstart, first, second, rest, htokens, hname⟩
    have hleaves := husesUp _ ((outcome_runWithin_eq_ok_iff_of_terminal hstart).mpr
      ⟨first, second :: rest, htokens, hname, rfl⟩)
    rw [htokens, Token.label, Tree.leaves_terminal] at hleaves
    simp at hleaves
  · intro hleavesOver tree houtcome
    cases hstart : parser.start.isTerminal with
    | false => exact (parseTree_of_outcome_eq_ok hstart houtcome).2
    | true =>
      obtain ⟨first, rest, htokens, hname, rfl⟩ :=
        (outcome_runWithin_eq_ok_iff_of_terminal hstart).mp houtcome
      cases rest with
      | nil =>
        rw [htokens, Token.label, Tree.leaves_terminal]
        rfl
      | cons second rest => exact absurd ⟨hstart, first, second, rest, htokens, hname⟩ hleavesOver

end Parser

/-- The start symbol of a loaded grammar is a non-terminal, which leaves no tokens over. -/
theorem Grammar.IsLoaded.usesUp {grammar : Grammar} (h : grammar.IsLoaded) (tokens : List Token)
    (limit : Nat) : (grammar.parser tokens).UsesUp limit := by
  intro tree houtcome
  exact (Parser.parseTree_of_outcome_eq_ok h.wellFormed.start_nonterminal houtcome).2

namespace Parser

/-- **Tokens are left over only by a terminal start symbol.** A derivation ends with a tree, without
one, or nested too deeply. The leaves of a tree are the first tokens, and under a limit that allows
an attempt at all they are all tokens, whatever the rules are, exactly unless the start symbol is a
terminal that matches the first of several tokens. -/
theorem uses_up_tokens_unless_leavesOver (parser : Parser) (limit : Nat) (hlimit : 0 < limit) :
    ((∃ tree, (parser.runWithin limit).outcome = .ok tree) ∨
      (parser.runWithin limit).outcome = .error .noDerivation ∨
      (parser.runWithin limit).outcome = .error .tooDeep) ∧
    (∀ tree, (parser.runWithin limit).outcome = .ok tree →
      ∃ rest, tree.leaves ++ rest = parser.tokens.map Token.label) ∧
    (parser.UsesUp limit ↔ ¬ parser.LeavesOver) := by
  refine ⟨parser.outcome_runWithin_cases limit, fun tree => exists_leaves_append_eq, ?_⟩
  obtain ⟨less, rfl⟩ := Nat.exists_eq_succ_of_ne_zero hlimit.ne'
  exact usesUp_iff parser less

/-- Two numbers, which are to be derived from the terminal of a number. A rule derives one number
from `S`. -/
def twoNumbers : Parser where
  tokens := [⟨"NUM", "1", 0, 0⟩, ⟨"NUM", "2", 0, 0⟩]
  rules := ⟨[("S", [[⟨"NUM", true⟩]])], by simp⟩
  start := ⟨"NUM", true⟩

/-- From the terminal a single number is used up, but two are not. From `S` there is no tree that
could leave one of two numbers over. -/
theorem uses_up_tokens_unless_leavesOver_twoNumbers :
    0 < nestingLimit ∧ { twoNumbers with tokens := twoNumbers.tokens.take 1 }.UsesUp nestingLimit ∧
      { twoNumbers with start := ⟨"S", false⟩ }.UsesUp nestingLimit ∧
      ¬ twoNumbers.UsesUp nestingLimit := by
  have hlimit : 0 < nestingLimit := by decide
  refine ⟨hlimit, (uses_up_tokens_unless_leavesOver _ _ hlimit).2.2.mpr ?_,
    (uses_up_tokens_unless_leavesOver _ _ hlimit).2.2.mpr ?_, fun husesUp => ?_⟩
  · rintro ⟨-, first, second, rest, htokens, -⟩
    cases htokens
  · rintro ⟨hstart, -⟩
    cases hstart
  · exact (uses_up_tokens_unless_leavesOver _ _ hlimit).2.2.mp husesUp ⟨rfl, _, _, _, rfl, rfl⟩

/-- The terminal derives the leaf of the first number, and the second number is left over. From `S`,
whose only alternative is this terminal, the two numbers are not derived. -/
theorem not_usesUp_twoNumbers :
    (∃ tree, twoNumbers.run.outcome = .ok tree ∧
      tree.leaves ≠ twoNumbers.tokens.map Token.label) ∧
    { twoNumbers with start := ⟨"S", false⟩ }.run.outcome = .error .noDerivation := by
  constructor
  · refine ⟨.leaf (.terminal "NUM" "1"), rfl, ?_⟩
    simp [twoNumbers, Token.label]
  · rfl

end Parser

end TokenGrammar
