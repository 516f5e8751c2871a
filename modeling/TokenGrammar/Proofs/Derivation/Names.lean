import TokenGrammar.Proofs.Derivation.ParseTree
import TokenGrammar.Proofs.Grammar.TerminalNames
import TokenGrammar.Proofs.Tree.Values

/-!
# Only names matter

A derivation compares the names of tokens and copies their values, so it makes the same choices
whatever the values are. So what is derived from bare tokens, of which only the names are left, is the
bare tree of what is derived from the tokens. Two sequences of tokens with the same names have the
same bare tokens, and the values that the trees have at their leaves are those of the tokens.

## Main definitions

* `Token.bare`, `Parser.bare` — tokens of which only the names are left

## Main results

* `Parser.attempt_bare` — bare tokens give the bare tree, and change nothing else
* `Parser.map_bare_attempt_eq` — attempts at tokens with the same names agree but for the values
* `Grammar.only_names_matter` — reading a grammar and deriving with it
-/

namespace TokenGrammar

/-! ### Bare tokens -/

/-- The token of which only the name is left. -/
def Token.bare (token : Token) : Token := ⟨token.name, "", 0, 0⟩

namespace Parser

/-- The parser that knows only the names of its tokens. -/
def bare (parser : Parser) : Parser := { parser with tokens := parser.tokens.map Token.bare }

variable {parser parser' : Parser}

theorem matchTerminal_bare (parser : Parser) (symbol : Symbol) (index : Int) :
    parser.bare.matchTerminal symbol index = (parser.matchTerminal symbol index).map Tree.bare := by
  rw [matchTerminal, matchTerminal]
  simp only [bare, List.length_map, List.getElem?_map]
  split
  · rfl
  · cases placeOf parser.tokens.length index with
    | error fault => rfl
    | ok place =>
      cases htoken : parser.tokens[place]? with
      | none => simp [Attempt.map, htoken]
      | some token =>
        simp only [htoken, Option.map_some, Token.bare]
        split <;> rfl

/-- Bare tokens give the bare tree. -/
theorem attempt_bare (parser : Parser) (limit : Nat) (symbol : Symbol) (index : Int)
    (goal : Bool) :
    parser.bare.attempt limit symbol index goal =
      (parser.attempt limit symbol index goal).map Tree.bare := by
  induction limit generalizing symbol index goal with
  | zero => rfl
  | succ limit ih =>
    cases hterminal : symbol.isTerminal with
    | true => rw [attempt_terminal hterminal, attempt_terminal hterminal, matchTerminal_bare]
    | false =>
      -- Where an alternative may end depends on the number of tokens only, and the members of an
      -- alternative are attempted within one limit less.
      have haccepts : parser.bare.accepts goal = parser.accepts goal := by
        funext next
        simp [accepts, bare]
      rw [attempt_nonterminal hterminal, attempt_nonterminal hterminal, haccepts]
      simp only [ih]
      rw [deriveFirst_map, Attempt.map_map, Attempt.map_map]
      congr 1
      funext children
      simp [Tree.bare, Tree.bareAll_eq_map, Label.bare, Label.nonterminal]

/-! ### Two sequences of tokens -/

/-- Parsers that differ in nothing but the values and places of their tokens make the same
attempts. -/
theorem map_bare_attempt_eq (h : parser.bare = parser'.bare) (limit : Nat) (symbol : Symbol)
    (index : Int) (goal : Bool) :
    (parser.attempt limit symbol index goal).map Tree.bare =
      (parser'.attempt limit symbol index goal).map Tree.bare := by
  rw [← attempt_bare, ← attempt_bare, h]

theorem map_bare_parseWithin_eq (h : parser.bare = parser'.bare) (limit : Nat) :
    (parser.parseWithin limit).map Tree.bare = (parser'.parseWithin limit).map Tree.bare := by
  have hstart : parser.start = parser'.start :=
    (congrArg Parser.start h : parser.bare.start = parser'.bare.start)
  rw [parseWithin, parseWithin, hstart, map_bare_attempt_eq h]

end Parser

namespace Grammar

variable {grammar : Grammar} {tokens tokens' : List Token}

theorem bare_parser_eq (grammar : Grammar) (h : tokens.map Token.name = tokens'.map Token.name) :
    (grammar.parser tokens).bare = (grammar.parser tokens').bare := by
  have hbare : Token.bare = (fun name => ⟨name, "", 0, 0⟩) ∘ Token.name := rfl
  simp only [parser, Parser.bare, hbare, ← List.map_map, h]

/-- The values at the leaves of a tree that is derived are those of the tokens. -/
theorem map_value_leaves_of_outcome_eq_ok (hloaded : grammar.IsLoaded) {limit : Nat} {tree : Tree}
    (h : ((grammar.parser tokens).runWithin limit).outcome = .ok tree) :
    tree.leaves.map Label.value = tokens.map Token.value := by
  have hstart := hloaded.wellFormed.start_nonterminal
  have hleaves : tree.leaves = tokens.map Token.label :=
    (Parser.parseTree_of_outcome_eq_ok hstart h).2
  rw [hleaves, List.map_map]
  rfl

/-- **Only names matter.** Terminals with the same names give the same grammar or the same fault.
Tokens with the same names, in order, are both derived, or both not, or both too deeply; and if they
are derived, there is a leaf for each token, and each tree is the other one with the values of its own
tokens at the leaves. -/
theorem only_names_matter {terminals terminals' : List Terminal}
    (hterminals : ∀ name,
      name ∈ terminals.map Terminal.name ↔ name ∈ terminals'.map Terminal.name)
    (htokens : tokens.map Token.name = tokens'.map Token.name) :
    (∀ lines, Grammar.read terminals lines = Grammar.read terminals' lines) ∧
    ∀ grammar : Grammar, grammar.IsLoaded → ∀ limit,
      let outcome := ((grammar.parser tokens).runWithin limit).outcome
      let outcome' := ((grammar.parser tokens').runWithin limit).outcome
      (∃ tree tree', outcome = .ok tree ∧ outcome' = .ok tree' ∧
        tree.leaves.length = tokens.length ∧ tree' = tree.revalue (tokens'.map Token.value) ∧
        tree = tree'.revalue (tokens.map Token.value)) ∨
      (outcome = .error .noDerivation ∧ outcome' = .error .noDerivation) ∨
      (outcome = .error .tooDeep ∧ outcome' = .error .tooDeep) := by
  refine ⟨read_eq_of_names hterminals, fun grammar hloaded limit => ?_⟩
  intro outcome outcome'
  have hsame := Parser.map_bare_parseWithin_eq (bare_parser_eq grammar htokens) limit
  rcases (grammar.parser tokens').parseWithin_cases limit with
    ⟨tree', next, hderived'⟩ | hfailed' | hdeep'
  · rw [hderived', Attempt.map] at hsame
    obtain ⟨tree, hderived, hbare⟩ := Attempt.map_eq_derived_iff.mp hsame
    have htree : outcome = .ok tree := Parser.outcome_runWithin_eq_ok_iff.mpr ⟨next, hderived⟩
    have htree' : outcome' = .ok tree' := Parser.outcome_runWithin_eq_ok_iff.mpr ⟨next, hderived'⟩
    have hvalues := map_value_leaves_of_outcome_eq_ok hloaded htree
    have hvalues' := map_value_leaves_of_outcome_eq_ok hloaded htree'
    refine .inl ⟨tree, tree', htree, htree', ?_, ?_, ?_⟩
    · simpa using congrArg List.length hvalues
    · rw [← hvalues', Tree.revalue_of_bare_eq hbare]
    · rw [← hvalues, Tree.revalue_of_bare_eq hbare.symm]
  · rw [hfailed', Attempt.map, Attempt.map_eq_failed_iff] at hsame
    exact .inr (.inl ⟨Parser.outcome_runWithin_eq_noDerivation_iff.mpr hsame,
      Parser.outcome_runWithin_eq_noDerivation_iff.mpr hfailed'⟩)
  · rw [hdeep', Attempt.map, Attempt.map_eq_aborted_iff] at hsame
    exact .inr (.inr ⟨Parser.outcome_runWithin_eq_tooDeep_iff.mpr hsame,
      Parser.outcome_runWithin_eq_tooDeep_iff.mpr hdeep'⟩)

/-- Other patterns for the terminals of sums, in another order and with one name twice. -/
def patternedTerminals : List Terminal :=
  [⟨"RPAREN", ")"⟩, ⟨"NUM", "[0-9]+"⟩, ⟨"PLUS", "+"⟩, ⟨"NUM", "x"⟩, ⟨"LPAREN", "("⟩]

/-- A sum of letters on two lines. -/
def lettersAndSum : List Token :=
  [⟨"NUM", "x", 1, 1⟩, ⟨"PLUS", "plus", 1, 3⟩, ⟨"LPAREN", "[", 2, 1⟩, ⟨"NUM", "y", 2, 2⟩,
    ⟨"RPAREN", "]", 2, 3⟩]

/-- Two sums of the same form. -/
theorem only_names_matter_sums :
    (∀ name, name ∈ sumTerminals.map Terminal.name ↔
      name ∈ patternedTerminals.map Terminal.name) ∧
    numberAndSum.map Token.name = lettersAndSum.map Token.name ∧
    Grammar.read sumTerminals sumLines = Grammar.read patternedTerminals sumLines ∧
    sums.IsLoaded ∧
    ∃ tree tree', ((sums.parser numberAndSum).runWithin 6).outcome = .ok tree ∧
      ((sums.parser lettersAndSum).runWithin 6).outcome = .ok tree' ∧
      tree.leaves.length = 5 ∧ tree' = tree.revalue ["x", "plus", "[", "y", "]"] ∧
      tree = tree'.revalue ["1", "+", "(", "2", ")"] := by
  have hterminals : ∀ name, name ∈ sumTerminals.map Terminal.name ↔
      name ∈ patternedTerminals.map Terminal.name := by
    intro name
    simp only [sumTerminals, patternedTerminals, List.map_cons, List.map_nil, List.mem_cons,
      List.not_mem_nil, or_false]
    tauto
  have htokens : numberAndSum.map Token.name = lettersAndSum.map Token.name := rfl
  obtain ⟨hread, hrun⟩ := only_names_matter hterminals htokens
  obtain ⟨tree, htree⟩ :
      ∃ tree, ((sums.parser numberAndSum).runWithin 6).outcome = .ok tree := ⟨_, rfl⟩
  refine ⟨hterminals, htokens, hread sumLines, isLoaded_sums, ?_⟩
  rcases hrun sums isLoaded_sums 6 with hderived | ⟨hnone, -⟩ | ⟨hdeep, -⟩
  · exact hderived
  · cases htree.symm.trans hnone
  · cases htree.symm.trans hdeep

end Grammar

end TokenGrammar
