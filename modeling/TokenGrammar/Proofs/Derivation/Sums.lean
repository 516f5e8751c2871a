import TokenGrammar.Proofs.Derivation.LeftRecursion
import TokenGrammar.Proofs.Grammar.ContextFree
import TokenGrammar.Proofs.Grammar.TerminalNames

/-!
# Sums

Both alternatives of an expression begin with a term, so its first token does not tell them apart,
and the choice is not revisited once the term and a plus sign have been found. It is right all the
same: an expression stands at the top, behind a plus sign or in parentheses, so what follows it is
the end, a closing parenthesis, or what follows the expression around it, and never a plus sign.
Hence an expression goes on exactly if a plus sign comes behind its first term, and the derivation
never misses a sum.

## Main definitions

* `Sums.Expr`, `Sums.Term` — expressions, which are nested to the right, and their terms
* `Parser.Ahead` — the labels of the tokens from a place on
* `Sums.EndsExpr` — what may follow an expression

## Main results

* `parseTree_iff` — the parse trees are those of the expressions
* `Expr.settles`, `Term.settles` — an expression and a term are derived from their tokens, whatever
  may follow them
* `sums_complete` — the sentences are derived, and nothing else
-/

namespace TokenGrammar

/-! ### Expressions and their trees -/

namespace Sums

mutual

/-- An expression: one term, or a term plus the rest of the expression. -/
inductive Expr
  | plus (first : Term) (sign : String) (rest : Expr)
  | single (term : Term)

/-- A term: a number, or an expression in parentheses. -/
inductive Term
  | number (value : String)
  | group (opening : String) (inner : Expr) (closing : String)

end

mutual

/-- The parse tree of an expression. -/
def Expr.tree : Expr → Tree
  | .plus first sign rest =>
    .node (.nonterminal "Expr") [first.tree, .leaf (.terminal "PLUS" sign), rest.tree]
  | .single term => .node (.nonterminal "Expr") [term.tree]

/-- The parse tree of a term. -/
def Term.tree : Term → Tree
  | .number value => .node (.nonterminal "Term") [.leaf (.terminal "NUM" value)]
  | .group opening inner closing =>
    .node (.nonterminal "Term")
      [.leaf (.terminal "LPAREN" opening), inner.tree, .leaf (.terminal "RPAREN" closing)]

end

theorem alternatives_expr : Grammar.sums.rules.alternatives "Expr" =
    [[⟨"Term", false⟩, ⟨"PLUS", true⟩, ⟨"Expr", false⟩], [⟨"Term", false⟩]] := rfl

theorem alternatives_term : Grammar.sums.rules.alternatives "Term" =
    [[⟨"NUM", true⟩], [⟨"LPAREN", true⟩, ⟨"Expr", false⟩, ⟨"RPAREN", true⟩]] := rfl

mutual

theorem Expr.parseTree (expr : Expr) :
    Grammar.sums.rules.ParseTree ⟨"Expr", false⟩ expr.tree := by
  match expr with
  | .plus first sign rest =>
    have hproduction : [⟨"Term", false⟩, ⟨"PLUS", true⟩, ⟨"Expr", false⟩] ∈
        Grammar.sums.rules.alternatives "Expr" := by simp [alternatives_expr]
    exact .node rfl hproduction
      (.cons first.parseTree (.cons (.leaf sign rfl) (.cons rest.parseTree .nil)))
  | .single term =>
    have hproduction : [⟨"Term", false⟩] ∈ Grammar.sums.rules.alternatives "Expr" := by
      simp [alternatives_expr]
    exact .node rfl hproduction (.cons term.parseTree .nil)

theorem Term.parseTree (term : Term) :
    Grammar.sums.rules.ParseTree ⟨"Term", false⟩ term.tree := by
  match term with
  | .number value =>
    have hproduction : [⟨"NUM", true⟩] ∈ Grammar.sums.rules.alternatives "Term" := by
      simp [alternatives_term]
    exact .node rfl hproduction (.cons (.leaf value rfl) .nil)
  | .group opening inner closing =>
    have hproduction : [⟨"LPAREN", true⟩, ⟨"Expr", false⟩, ⟨"RPAREN", true⟩] ∈
        Grammar.sums.rules.alternatives "Term" := by simp [alternatives_term]
    exact .node rfl hproduction
      (.cons (.leaf opening rfl) (.cons inner.parseTree (.cons (.leaf closing rfl) .nil)))

end

/-- The parse trees of a terminal are its leaves. -/
theorem exists_eq_leaf_of_parseTree {table : RuleTable} {name : String} {tree : Tree}
    (h : table.ParseTree ⟨name, true⟩ tree) : ∃ value, tree = .leaf (.terminal name value) := by
  cases h with
  | leaf value _ => exact ⟨value, rfl⟩
  | node hterminal => cases hterminal

mutual

/-- Every parse tree of an expression is the tree of one. -/
theorem exists_expr_of_parseTree {tree : Tree}
    (h : Grammar.sums.rules.ParseTree ⟨"Expr", false⟩ tree) : ∃ expr : Expr, tree = expr.tree := by
  match h with
  | .node _ hproduction hchildren =>
    rw [alternatives_expr] at hproduction
    rcases List.mem_pair.mp hproduction with rfl | rfl
    · match hchildren with
      | .cons hfirst (.cons hsign (.cons hrest .nil)) =>
        obtain ⟨first, rfl⟩ := exists_term_of_parseTree hfirst
        obtain ⟨sign, rfl⟩ := exists_eq_leaf_of_parseTree hsign
        obtain ⟨rest, rfl⟩ := exists_expr_of_parseTree hrest
        exact ⟨.plus first sign rest, rfl⟩
    · match hchildren with
      | .cons hterm .nil =>
        obtain ⟨term, rfl⟩ := exists_term_of_parseTree hterm
        exact ⟨.single term, rfl⟩

/-- Every parse tree of a term is the tree of one. -/
theorem exists_term_of_parseTree {tree : Tree}
    (h : Grammar.sums.rules.ParseTree ⟨"Term", false⟩ tree) : ∃ term : Term, tree = term.tree := by
  match h with
  | .node _ hproduction hchildren =>
    rw [alternatives_term] at hproduction
    rcases List.mem_pair.mp hproduction with rfl | rfl
    · match hchildren with
      | .cons hvalue .nil =>
        obtain ⟨value, rfl⟩ := exists_eq_leaf_of_parseTree hvalue
        exact ⟨.number value, rfl⟩
    · match hchildren with
      | .cons hopening (.cons hinner (.cons hclosing .nil)) =>
        obtain ⟨opening, rfl⟩ := exists_eq_leaf_of_parseTree hopening
        obtain ⟨inner, rfl⟩ := exists_expr_of_parseTree hinner
        obtain ⟨closing, rfl⟩ := exists_eq_leaf_of_parseTree hclosing
        exact ⟨.group opening inner closing, rfl⟩

end

end Sums

/-! ### What comes next -/

namespace Parser

/-- The labels of the tokens from a place on. -/
structure Ahead (parser : Parser) (index : Nat) (labels : List Label) : Prop where
  index_le : index ≤ parser.tokens.length
  labels_eq : labels = (parser.tokens.drop index).map Token.label

variable {parser : Parser} {index : Nat} {labels : List Label} {name value : String}

theorem Ahead.eq_length (h : parser.Ahead index []) : index = parser.tokens.length :=
  h.index_le.antisymm (List.drop_eq_nil_iff.mp (List.map_eq_nil_iff.mp h.labels_eq.symm))

/-- The next token, and what comes behind it. -/
theorem Ahead.exists_token {label : Label} (h : parser.Ahead index (label :: labels)) :
    ∃ token, parser.tokens[index]? = some token ∧ token.label = label ∧
      parser.Ahead (index + 1) labels := by
  obtain ⟨token, later, hdrop, hlabel, hlabels⟩ := List.map_eq_cons_iff.mp h.labels_eq.symm
  have htoken : parser.tokens[index]? = some token := by
    rw [← Nat.add_zero index, ← List.getElem?_drop, hdrop, List.getElem?_cons_zero]
  refine ⟨token, htoken, hlabel, (List.getElem?_eq_some_iff.mp htoken).1, ?_⟩
  rw [← hlabels, ← List.drop_drop, hdrop, List.drop_one, List.tail_cons]

/-- A terminal is derived if a token of its name comes next. -/
theorem Ahead.settles_leaf (h : parser.Ahead index (.terminal name value :: labels)) (goal : Bool) :
    parser.Settles ⟨name, true⟩ index goal (some (.leaf (.terminal name value), index + 1)) ∧
      parser.Ahead (index + 1) labels := by
  obtain ⟨token, htoken, hlabel, hlater⟩ := h.exists_token
  have hname : token.name = name := congrArg Label.name hlabel
  have hmatched : parser.Settles ⟨name, true⟩ index goal
      (some (.leaf token.label, index + 1)) := .matched rfl htoken hname
  exact ⟨hlabel ▸ hmatched, hlater⟩

/-- A terminal fails if no token of its name comes next. -/
theorem Ahead.settles_none (h : parser.Ahead index labels)
    (hname : ∀ label ∈ labels.head?, label.name ≠ name) (goal : Bool) :
    parser.Settles ⟨name, true⟩ index goal none := by
  refine .unmatched rfl fun token htoken => hname token.label ?_
  rw [h.labels_eq, List.head?_map, List.head?_drop, htoken]
  rfl

/-- The first alternative is taken if it is derived. -/
theorem Settles.of_first {production : Production} {later : List Production}
    {children : List Tree} {next : Nat} {goal : Bool}
    (halternatives : parser.rules.alternatives name = production :: later)
    (hproduction : parser.SettlesAll production index (some (children, next)))
    (hgoal : goal = true → next = parser.tokens.length) :
    parser.Settles ⟨name, false⟩ index goal (some (.node (.nonterminal name) children, next)) :=
  have hsplit : parser.rules.alternatives name = [] ++ production :: later := halternatives
  .chosen rfl hsplit (List.forall_mem_nil _) hproduction hgoal

/-- The second alternative is taken if it is derived and the first one fails. -/
theorem Settles.of_second {other production : Production} {later : List Production}
    {children : List Tree} {next : Nat} {goal : Bool}
    (halternatives : parser.rules.alternatives name = other :: production :: later)
    (hother : parser.SettlesAll other index none)
    (hproduction : parser.SettlesAll production index (some (children, next)))
    (hgoal : goal = true → next = parser.tokens.length) :
    parser.Settles ⟨name, false⟩ index goal (some (.node (.nonterminal name) children, next)) :=
  have hsplit : parser.rules.alternatives name = [other] ++ production :: later := halternatives
  .chosen rfl hsplit (List.forall_mem_singleton.mpr (.fails hother)) hproduction hgoal

/-- What ordered choice derives as the goal is the outcome under every limit that suffices. -/
theorem Settles.outcome_runWithin_eq {limit next : Nat} {tree : Tree}
    (h : parser.Settles parser.start 0 true (some (tree, next)))
    (hne : parser.parseWithin limit ≠ .aborted .tooDeep) :
    (parser.runWithin limit).outcome = .ok tree :=
  outcome_runWithin_eq_ok_iff.mpr ⟨next, h.attempt_eq hne⟩

end Parser

/-! ### Expressions and terms are derived -/

namespace Sums

variable {tokens : List Token} {index : Nat} {rest : List Label}

/-- What may follow an expression: anything but a plus sign. -/
def EndsExpr (rest : List Label) : Prop := ∀ label ∈ rest.head?, label.name ≠ "PLUS"

theorem endsExpr_nil : EndsExpr [] := by simp [EndsExpr]

theorem endsExpr_closing (closing : String) (rest : List Label) :
    EndsExpr (.terminal "RPAREN" closing :: rest) := by simp [EndsExpr, Label.terminal]

mutual

/-- An expression is derived from its tokens if no plus sign comes behind them. As the goal it has
to be all that is left. -/
theorem Expr.settles (expr : Expr) {index : Nat} {rest : List Label}
    (h : (Grammar.sums.parser tokens).Ahead index (expr.tree.leaves ++ rest))
    (hrest : EndsExpr rest) (goal : Bool) (hgoal : goal = true → rest = []) :
    ∃ next, (Grammar.sums.parser tokens).Settles ⟨"Expr", false⟩ index goal
        (some (expr.tree, next)) ∧ (Grammar.sums.parser tokens).Ahead next rest := by
  match expr with
  | .plus first sign later =>
    have hleaves : (Expr.plus first sign later).tree.leaves ++ rest =
        first.tree.leaves ++ .terminal "PLUS" sign :: (later.tree.leaves ++ rest) := by
      simp [Expr.tree]
    rw [hleaves] at h
    obtain ⟨behind, hfirst, h⟩ := first.settles h
    obtain ⟨hsign, h⟩ := h.settles_leaf false
    -- What follows the rest of the expression is what follows the whole.
    obtain ⟨next, hlater, h⟩ := later.settles h hrest false nofun
    refine ⟨next, .of_first alternatives_expr
      (.cons hfirst (.cons hsign (.cons hlater .nil))) fun htrue => ?_, h⟩
    exact (hgoal htrue ▸ h).eq_length
  | .single term =>
    have hleaves : (Expr.single term).tree.leaves = term.tree.leaves := by simp [Expr.tree]
    rw [hleaves] at h
    obtain ⟨next, hterm, h⟩ := term.settles h
    -- The longer alternative finds the term, but no plus sign behind it.
    have hfails : (Grammar.sums.parser tokens).SettlesAll
        [⟨"Term", false⟩, ⟨"PLUS", true⟩, ⟨"Expr", false⟩] index none :=
      .tailFails hterm (.headFails (h.settles_none hrest false))
    refine ⟨next, .of_second alternatives_expr hfails (.cons hterm .nil) fun htrue => ?_, h⟩
    exact (hgoal htrue ▸ h).eq_length

/-- A term is derived from its tokens, whatever comes behind them. -/
theorem Term.settles (term : Term) {index : Nat} {rest : List Label}
    (h : (Grammar.sums.parser tokens).Ahead index (term.tree.leaves ++ rest)) :
    ∃ next, (Grammar.sums.parser tokens).Settles ⟨"Term", false⟩ index false
        (some (term.tree, next)) ∧ (Grammar.sums.parser tokens).Ahead next rest := by
  match term with
  | .number value =>
    have hleaves : (Term.number value).tree.leaves = [.terminal "NUM" value] := by
      simp [Term.tree]
    rw [hleaves] at h
    obtain ⟨hvalue, h⟩ := h.settles_leaf false
    exact ⟨index + 1, .of_first alternatives_term (.cons hvalue .nil) nofun, h⟩
  | .group opening inner closing =>
    have hleaves : (Term.group opening inner closing).tree.leaves ++ rest =
        .terminal "LPAREN" opening ::
          (inner.tree.leaves ++ .terminal "RPAREN" closing :: rest) := by
      simp [Term.tree]
    rw [hleaves] at h
    -- A parenthesis is no number.
    have hfails : (Grammar.sums.parser tokens).SettlesAll [⟨"NUM", true⟩] index none :=
      .headFails (h.settles_none (by simp [Label.terminal]) false)
    obtain ⟨hopening, h⟩ := h.settles_leaf false
    obtain ⟨behind, hinner, h⟩ := inner.settles h (endsExpr_closing closing rest) false nofun
    obtain ⟨hclosing, h⟩ := h.settles_leaf false
    exact ⟨behind + 1, .of_second alternatives_term hfails
      (.cons hopening (.cons hinner (.cons hclosing .nil))) nofun, h⟩

end

/-- As the goal, an expression is derived if its tokens are all there are. -/
theorem Expr.settles_goal (expr : Expr) (h : expr.tree.leaves = tokens.map Token.label) :
    (Grammar.sums.parser tokens).Settles Grammar.sums.start 0 true
      (some (expr.tree, tokens.length)) := by
  have hahead : (Grammar.sums.parser tokens).Ahead 0 (expr.tree.leaves ++ []) :=
    ⟨Nat.zero_le _, by rw [List.append_nil, h]; rfl⟩
  obtain ⟨next, hsettles, hnext⟩ := expr.settles hahead endsExpr_nil true fun _ => rfl
  exact hnext.eq_length ▸ hsettles

/-! ### Derivations of all tokens -/

/-- The parse trees of the start symbol are those of the expressions. -/
theorem parseTree_iff {tree : Tree} :
    Grammar.sums.rules.ParseTree Grammar.sums.start tree ↔ ∃ expr : Expr, tree = expr.tree := by
  refine ⟨exists_expr_of_parseTree, ?_⟩
  rintro ⟨expr, rfl⟩
  exact expr.parseTree

/-- Names of terminals are loaded as the grammar of sums, whatever the patterns are. -/
theorem read_sumLines {terminals : List Terminal}
    (hnames : ∀ name, name ∈ terminals.map Terminal.name ↔
      name ∈ ["NUM", "PLUS", "LPAREN", "RPAREN"]) :
    Grammar.read terminals Grammar.sumLines = .ok Grammar.sums := by
  have hsame : Grammar.read terminals Grammar.sumLines =
      Grammar.read Grammar.sumTerminals Grammar.sumLines :=
    Grammar.read_eq_of_names hnames Grammar.sumLines
  exact hsame.trans rfl

/-- **Completeness of sums.** The lines of the grammar of sums are loaded as that grammar for all
terminals of the four names. Two nested attempts for each token, and three more, suffice. Then a
tree is derived exactly if the names of the tokens are a sentence of the context-free grammar; it is
the only parse tree of the tokens, and that of an expression, whose sums are nested to the right.
For all other tokens there is no derivation. -/
theorem sums_complete (terminals : List Terminal)
    (hnames : ∀ name, name ∈ terminals.map Terminal.name ↔
      name ∈ ["NUM", "PLUS", "LPAREN", "RPAREN"]) (tokens : List Token) :
    Grammar.read terminals Grammar.sumLines = .ok Grammar.sums ∧
    ∀ limit ≥ 2 * (tokens.length + 1) + 1,
      let outcome := ((Grammar.sums.parser tokens).runWithin limit).outcome
      ((∃ tree, outcome = .ok tree) ↔
        tokens.map Token.name ∈ Grammar.sums.contextFree.language) ∧
      (∀ tree, outcome = .ok tree → (∃ expr : Expr, tree = expr.tree) ∧ ∀ tree',
        Grammar.sums.rules.ParseTree Grammar.sums.start tree' ∧
          tree'.leaves = tokens.map Token.label ↔ tree' = tree) ∧
      (tokens.map Token.name ∉ Grammar.sums.contextFree.language →
        outcome = .error .noDerivation) := by
  refine ⟨read_sumLines hnames, fun limit hlimit => ?_⟩
  intro outcome
  have hne : (Grammar.sums.parser tokens).parseWithin limit ≠ .aborted .tooDeep :=
    Grammar.isLoaded_sums.wellFormed.parseWithin_ne_tooDeep Grammar.leftRecursionFree_sums tokens
      hlimit
  -- An expression with these tokens at its leaves is what the derivation ends with.
  have hfound : ∀ tree, Grammar.sums.rules.ParseTree Grammar.sums.start tree →
      tree.leaves = tokens.map Token.label → outcome = .ok tree := by
    intro tree htree hleaves
    obtain ⟨expr, rfl⟩ := parseTree_iff.mp htree
    exact (expr.settles_goal hleaves).outcome_runWithin_eq hne
  have hsound : ∀ tree, outcome = .ok tree →
      Grammar.sums.rules.ParseTree Grammar.sums.start tree ∧
        tree.leaves = tokens.map Token.label :=
    fun tree hok => Parser.parseTree_of_outcome_eq_ok rfl hok
  have hsentence : (∃ tree, outcome = .ok tree) ↔
      tokens.map Token.name ∈ Grammar.sums.contextFree.language := by
    rw [Grammar.mem_language_contextFree_iff rfl]
    exact exists_congr fun tree => ⟨hsound tree, fun htree => hfound tree htree.1 htree.2⟩
  refine ⟨hsentence, fun tree hok => ⟨parseTree_iff.mp (hsound tree hok).1, fun tree' => ?_⟩,
    fun hnot => ?_⟩
  · constructor
    · rintro ⟨htree', hleaves'⟩
      exact Except.ok.inj ((hfound tree' htree' hleaves').symm.trans hok)
    · rintro rfl
      exact hsound tree' hok
  · rcases Parser.outcome_runWithin_cases (Grammar.sums.parser tokens) limit with
      hok | hnone | hdeep
    · exact absurd (hsentence.mp hok) hnot
    · exact hnone
    · exact absurd (Parser.outcome_runWithin_eq_tooDeep_iff.mp hdeep) hne

/-- Terminals in another order, with patterns and a repeated name; and a number plus a number in
parentheses, which thirteen nested attempts derive. -/
theorem sums_complete_numberAndSum :
    let terminals : List Terminal :=
      [⟨"PLUS", "\\+"⟩, ⟨"NUM", "[0-9]+"⟩, ⟨"RPAREN", ""⟩, ⟨"NUM", ""⟩, ⟨"LPAREN", ""⟩]
    let expr : Expr :=
      .plus (.number "1") "+" (.single (.group "(" (.single (.number "2")) ")"))
    (∀ name, name ∈ terminals.map Terminal.name ↔ name ∈ ["NUM", "PLUS", "LPAREN", "RPAREN"]) ∧
      Grammar.read terminals Grammar.sumLines = .ok Grammar.sums ∧
      2 * (Grammar.numberAndSum.length + 1) + 1 ≤ 13 ∧
      Grammar.numberAndSum.map Token.name ∈ Grammar.sums.contextFree.language ∧
      ((Grammar.sums.parser Grammar.numberAndSum).runWithin 13).outcome = .ok expr.tree ∧
      ∀ tree', Grammar.sums.rules.ParseTree Grammar.sums.start tree' ∧
        tree'.leaves = Grammar.numberAndSum.map Token.label ↔ tree' = expr.tree := by
  intro terminals expr
  have hnames : ∀ name, name ∈ terminals.map Terminal.name ↔
      name ∈ ["NUM", "PLUS", "LPAREN", "RPAREN"] := by
    intro name
    simp only [terminals, List.map_cons, List.map_nil, List.mem_cons, List.not_mem_nil, or_false]
    tauto
  have hlimit : 2 * (Grammar.numberAndSum.length + 1) + 1 ≤ 13 := by decide
  have hok : ((Grammar.sums.parser Grammar.numberAndSum).runWithin 13).outcome =
      .ok expr.tree := rfl
  obtain ⟨hread, hcomplete⟩ := sums_complete terminals hnames Grammar.numberAndSum
  obtain ⟨hsentence, hunique, -⟩ := hcomplete 13 hlimit
  exact ⟨hnames, hread, hlimit, hsentence.mp ⟨_, hok⟩, hok, (hunique _ hok).2⟩

end Sums

end TokenGrammar
