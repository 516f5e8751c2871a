import Mathlib.Computability.ContextFreeGrammar
import TokenGrammar.Proofs.Derivation.ParseTree

/-!
# The context-free grammar of a grammar

Forget in which order the alternatives of a non-terminal are tried, and a grammar is an ordinary
context-free grammar over the names of the terminals. The sentences that it generates are those
that have a parse tree; as a parse tree has tokens at its leaves, a sentence is said by tokens of
these names.

## Main definitions

* `Grammar.contextFree` — the context-free grammar

## Main results

* `ParseForest.derives`, `exists_parseForest_of_derives` — rewriting a sequence of symbols to names
  of terminals, and parse trees of the symbols
* `mem_language_contextFree_iff` — the sentences are the leaves of the parse trees
-/

namespace TokenGrammar

/-- The symbol of a context-free grammar that a symbol stands for. -/
def Symbol.toContextFree (symbol : Symbol) :=
  if symbol.isTerminal then Symbol.terminal symbol.name else Symbol.nonterminal symbol.name

theorem Symbol.toContextFree_injective : Function.Injective Symbol.toContextFree := by
  rintro ⟨name, isTerminal⟩ ⟨name', isTerminal'⟩ h
  cases isTerminal <;> cases isTerminal' <;> simp_all [toContextFree]

/-- The grammar as a context-free grammar, in which the order of alternatives does not matter. -/
@[reducible] def Grammar.contextFree (grammar : Grammar) : ContextFreeGrammar String where
  NT := String
  initial := grammar.start.name
  rules := (grammar.rules.entries.flatMap fun entry => entry.2.map fun production =>
    ⟨entry.1, production.map Symbol.toContextFree⟩).toFinset

variable {grammar : Grammar}

/-- The rules are the alternatives of each non-terminal. -/
theorem Grammar.mem_rules_contextFree {rule : ContextFreeRule String String} :
    rule ∈ grammar.contextFree.rules ↔
      ∃ production ∈ grammar.rules.alternatives rule.input,
        production.map Symbol.toContextFree = rule.output := by
  simp only [Grammar.contextFree, List.mem_toFinset, List.mem_flatMap, List.mem_map,
    RuleTable.mem_alternatives_iff]
  constructor
  · rintro ⟨⟨name, productions⟩, hentry, production, hproduction, rfl⟩
    exact ⟨production, ⟨productions, hentry, hproduction⟩, rfl⟩
  · rintro ⟨production, ⟨productions, hentry, hproduction⟩, houtput⟩
    exact ⟨_, hentry, production, hproduction, by rw [houtput]⟩

/-! ### From trees to sentences -/

namespace RuleTable

mutual

/-- A symbol is rewritten to the names at the leaves of its parse trees. -/
theorem ParseTree.derives {symbol : Symbol} {tree : Tree}
    (h : grammar.rules.ParseTree symbol tree) :
    grammar.contextFree.Derives [symbol.toContextFree]
      (tree.leaves.map fun label => .terminal label.name) := by
  match h with
  | .leaf value hterminal =>
    simp only [Tree.leaves_terminal, Symbol.toContextFree, hterminal, if_true]
    exact .refl _
  | @RuleTable.ParseTree.node _ _ production children hterminal hproduction hchildren =>
    simp only [Tree.leaves_nonterminal, Symbol.toContextFree, hterminal, Bool.false_eq_true,
      if_false]
    -- The alternative at the root is the first rule to apply.
    have hrule : (⟨symbol.name, production.map Symbol.toContextFree⟩ : ContextFreeRule _ _) ∈
        grammar.contextFree.rules :=
      Grammar.mem_rules_contextFree.mpr ⟨production, hproduction, rfl⟩
    exact ContextFreeGrammar.Produces.trans_derives
      ⟨_, hrule, ContextFreeRule.Rewrites.input_output⟩ hchildren.derives

/-- A sequence is rewritten to the names at the leaves of its parse trees. -/
theorem ParseForest.derives {production : Production} {trees : List Tree}
    (h : grammar.rules.ParseForest production trees) :
    grammar.contextFree.Derives (production.map Symbol.toContextFree)
      ((trees.flatMap Tree.leaves).map fun label => .terminal label.name) := by
  match h with
  | .nil => exact .refl _
  | .cons hmember hrest =>
    rw [List.flatMap_cons, List.map_append, List.map_cons, ← List.singleton_append]
    exact (hmember.derives.append_right _).trans (hrest.derives.append_left _)

end

end RuleTable

/-! ### Sequences of trees -/

namespace RuleTable.ParseForest

variable {table : RuleTable} {front back : Production}

theorem append {trees trees' : List Tree} (h : table.ParseForest front trees)
    (h' : table.ParseForest back trees') : table.ParseForest (front ++ back) (trees ++ trees') := by
  induction front generalizing trees with
  | nil =>
    cases h
    exact h'
  | cons member front ih =>
    cases h with
    | cons hmember hrest => exact .cons hmember (ih hrest)

/-- Trees for one sequence after another are trees for the first and trees for the second. -/
theorem of_append {trees : List Tree} (h : table.ParseForest (front ++ back) trees) :
    ∃ left right, trees = left ++ right ∧ table.ParseForest front left ∧
      table.ParseForest back right := by
  induction front generalizing trees with
  | nil => exact ⟨[], trees, rfl, .nil, h⟩
  | cons member front ih =>
    cases h with
    | cons hmember hrest =>
      obtain ⟨left, right, rfl, hleft, hright⟩ := ih hrest
      exact ⟨_, right, rfl, .cons hmember hleft, hright⟩

/-- Terminals have the tokens of their names as parse trees. -/
theorem exists_of_tokens (table : RuleTable) (tokens : List Token) :
    ∃ trees, table.ParseForest (tokens.map fun token => ⟨token.name, true⟩) trees ∧
      trees.flatMap Tree.leaves = tokens.map Token.label := by
  induction tokens with
  | nil => exact ⟨[], .nil, rfl⟩
  | cons token tokens ih =>
    obtain ⟨trees, htrees, hleaves⟩ := ih
    exact ⟨_, .cons (.leaf token.value rfl) htrees, by simp [hleaves, Token.label]⟩

end RuleTable.ParseForest

/-! ### From sentences to trees -/

namespace Grammar

/-- A sequence that is made up of names of terminals stands for terminals of these names. -/
theorem eq_map_terminal {production : Production} {tokens : List Token}
    (h : production.map Symbol.toContextFree = tokens.map fun token => .terminal token.name) :
    production = tokens.map fun token => ⟨token.name, true⟩ := by
  refine List.map_injective_iff.mpr Symbol.toContextFree_injective ?_
  rw [h, List.map_map]
  rfl

/-- A rewriting step puts an alternative in the place of its non-terminal. -/
theorem exists_of_produces {production : Production} {form}
    (h : grammar.contextFree.Produces (production.map Symbol.toContextFree) form) :
    ∃ before name after replacement, production = before ++ ⟨name, false⟩ :: after ∧
      replacement ∈ grammar.rules.alternatives name ∧
      form = (before ++ replacement ++ after).map Symbol.toContextFree := by
  obtain ⟨rule, hrule, hrewrites⟩ := h
  obtain ⟨replacement, hreplacement, houtput⟩ := mem_rules_contextFree.mp hrule
  obtain ⟨p, q, hform, rfl⟩ := hrewrites.exists_parts
  rw [List.append_assoc, List.singleton_append] at hform
  obtain ⟨before, rest, rfl, rfl, hrest⟩ := List.map_eq_append_iff.mp hform
  obtain ⟨⟨name, isTerminal⟩, after, rfl, hname, rfl⟩ := List.map_eq_cons_iff.mp hrest
  -- The symbol in the middle is a non-terminal, that on the left of the rule.
  cases isTerminal with
  | true => simp [Symbol.toContextFree] at hname
  | false =>
    obtain rfl : name = rule.input := by simpa [Symbol.toContextFree] using hname
    exact ⟨before, _, after, replacement, rfl, hreplacement, by simp [houtput]⟩

/-- Where a sequence is rewritten to the names of some tokens, there are parse trees of its members
with these tokens at their leaves. -/
theorem exists_parseForest_of_derives {production : Production} {tokens : List Token}
    (h : grammar.contextFree.Derives (production.map Symbol.toContextFree)
      (tokens.map fun token => .terminal token.name)) :
    ∃ trees, grammar.rules.ParseForest production trees ∧
      trees.flatMap Tree.leaves = tokens.map Token.label := by
  generalize hform : production.map Symbol.toContextFree = form at h
  -- Trees are built from the last step backwards: each step is a node above some of them.
  induction h using Relation.ReflTransGen.head_induction_on generalizing production with
  | refl =>
    obtain rfl := eq_map_terminal hform
    exact RuleTable.ParseForest.exists_of_tokens _ tokens
  | head hstep _ ih =>
    subst hform
    obtain ⟨before, name, after, replacement, rfl, hreplacement, rfl⟩ := exists_of_produces hstep
    obtain ⟨trees, htrees, hleaves⟩ := ih rfl
    obtain ⟨front, back, rfl, hfront, hback⟩ := htrees.of_append
    obtain ⟨left, children, rfl, hleft, hchildren⟩ := hfront.of_append
    refine ⟨left ++ .node (.nonterminal name) children :: back,
      hleft.append (.cons (.node rfl hreplacement hchildren) hback), ?_⟩
    simpa using hleaves

/-- **Sentences.** The names of some tokens are a sentence of the context-free grammar exactly if
the start symbol has a parse tree with these tokens at its leaves. -/
theorem mem_language_contextFree_iff (hstart : grammar.start.isTerminal = false)
    {tokens : List Token} :
    tokens.map Token.name ∈ grammar.contextFree.language ↔
      ∃ tree, grammar.rules.ParseTree grammar.start tree ∧
        tree.leaves = tokens.map Token.label := by
  have hsymbol : [grammar.start].map Symbol.toContextFree =
      [.nonterminal grammar.contextFree.initial] := by
    simp [Symbol.toContextFree, hstart]
  rw [ContextFreeGrammar.mem_language_iff, List.map_map, ← hsymbol]
  constructor
  · intro h
    obtain ⟨trees, htrees, hleaves⟩ := exists_parseForest_of_derives h
    cases htrees with
    | cons htree hrest =>
      cases hrest
      exact ⟨_, htree, by simpa using hleaves⟩
  · rintro ⟨tree, htree, hleaves⟩
    have h := htree.derives
    rw [hleaves, List.map_map] at h
    exact h

end Grammar

end TokenGrammar
