import TokenGrammar.Proofs.Derivation.LeftRecursion
import TokenGrammar.Proofs.Grammar.ContextFree

/-!
# Predictive grammars

The alternative that is taken is not revisited, whatever happens further to the right; so in general
a sentence of the context-free grammar may be missed. It is not where the next token tells the
alternatives of a non-terminal apart. As no alternative is empty, two parse trees of one symbol
whose leaves begin the same tokens are then equal, and in particular equally long. What ordered
choice derives at a place is a parse tree, so it is the one that the sentence has there, and the
alternatives tried before cannot derive anything.

## Main definitions

* `Grammar.first` — the names that the sentences of an alternative begin with
* `Grammar.Predictive` — these names tell the alternatives of each non-terminal apart
* `RuleTable.NoEmpty` — no alternative is empty, as in every loaded grammar

## Main results

* `first_terminal`, `first_nonterminal` — how a sequence begins
* `ParseTree.eq_of_leaves_append` — what begins the same tokens is the same tree
* `ParseTree.not_settles_none` — what has a parse tree is derived
* `predictive_complete` — all sentences are derived, and nothing else
-/

namespace TokenGrammar

namespace Grammar

/-- The names of terminals that the sentences of a sequence begin with. -/
def first (grammar : Grammar) (production : Production) : Set String :=
  {name | ∃ names : List String,
    grammar.contextFree.Derives (production.map Symbol.toContextFree)
      ((name :: names).map .terminal)}

/-- The alternatives of each non-terminal are told apart by what they begin with. -/
def Predictive (grammar : Grammar) : Prop :=
  ∀ name, (grammar.rules.alternatives name).Pairwise fun production other =>
    ∀ token ∈ grammar.first production, token ∉ grammar.first other

end Grammar

namespace RuleTable

/-- No alternative is empty. -/
def NoEmpty (table : RuleTable) : Prop :=
  ∀ name, ∀ production ∈ table.alternatives name, production ≠ []

variable {grammar : Grammar}

/-! ### How sentences begin -/

/-- The first leaf below a sequence is one that the sequence begins with. -/
theorem ParseForest.mem_first {production : Production} {trees : List Tree} {label : Label}
    {labels : List Label} (h : grammar.rules.ParseForest production trees)
    (hleaves : trees.flatMap Tree.leaves = label :: labels) :
    label.name ∈ grammar.first production := by
  have hderives := h.derives
  rw [hleaves] at hderives
  exact ⟨labels.map Label.name, by simpa [Function.comp_def] using hderives⟩

/-- What a sequence begins with is the first leaf below it. -/
theorem exists_parseForest_of_mem_first {production : Production} {name : String}
    (h : name ∈ grammar.first production) :
    ∃ trees value labels, grammar.rules.ParseForest production trees ∧
      trees.flatMap Tree.leaves = .terminal name value :: labels := by
  obtain ⟨names, hderives⟩ := h
  -- Any tokens of these names will do.
  let tokens : List Token := (name :: names).map fun other => ⟨other, "", 0, 0⟩
  have hnames : name :: names = tokens.map Token.name := by
    simp [tokens, Function.comp_def]
  rw [hnames, List.map_map] at hderives
  obtain ⟨trees, htrees, hleaves⟩ := Grammar.exists_parseForest_of_derives hderives
  exact ⟨trees, "", _, htrees, hleaves⟩

mutual

/-- Without empty alternatives, every parse tree has a leaf. -/
theorem ParseTree.leaves_ne_nil {table : RuleTable} {symbol : Symbol} {tree : Tree}
    (h : table.ParseTree symbol tree) (hne : table.NoEmpty) : tree.leaves ≠ [] := by
  match h with
  | .leaf value hterminal => simp
  | .node hterminal hproduction hchildren =>
    rw [Tree.leaves_nonterminal]
    exact hchildren.flatMap_leaves_ne_nil hne (hne _ _ hproduction)

theorem ParseForest.flatMap_leaves_ne_nil {table : RuleTable} {production : Production}
    {trees : List Tree} (h : table.ParseForest production trees) (hne : table.NoEmpty)
    (hproduction : production ≠ []) : trees.flatMap Tree.leaves ≠ [] := by
  match h with
  | .nil => exact absurd rfl hproduction
  | .cons hmember _ =>
    rw [List.flatMap_cons]
    exact List.append_ne_nil_of_left_ne_nil (hmember.leaves_ne_nil hne) _

end

end RuleTable

namespace Grammar

variable {grammar : Grammar}

/-- A sequence that begins with a terminal begins with its name only. -/
theorem first_terminal {name other : String} {rest : Production}
    (h : other ∈ grammar.first (⟨name, true⟩ :: rest)) : other = name := by
  obtain ⟨trees, value, labels, htrees, hleaves⟩ := RuleTable.exists_parseForest_of_mem_first h
  cases htrees with
  | cons hmember _ =>
    cases hmember with
    | leaf _ _ =>
      rw [List.flatMap_cons, Tree.leaves_terminal, List.singleton_append] at hleaves
      exact (congrArg Label.name (List.cons.inj hleaves).1).symm
    | node hterminal => cases hterminal

/-- A sequence that begins with a non-terminal begins as one of its alternatives does. -/
theorem first_nonterminal {name other : String} {rest : Production}
    (hne : grammar.rules.NoEmpty) (h : other ∈ grammar.first (⟨name, false⟩ :: rest)) :
    ∃ production ∈ grammar.rules.alternatives name, other ∈ grammar.first production := by
  obtain ⟨trees, value, labels, htrees, hleaves⟩ := RuleTable.exists_parseForest_of_mem_first h
  cases htrees with
  | cons hmember _ =>
    cases hmember with
    | leaf _ hterminal => cases hterminal
    | @node _ production children _ hproduction hchildren =>
      refine ⟨production, hproduction, ?_⟩
      rw [List.flatMap_cons, Tree.leaves_nonterminal] at hleaves
      -- The alternative has a leaf, so the first leaf is below it.
      rcases List.append_eq_cons_iff.mp hleaves with ⟨hnil, -⟩ | ⟨below, hbelow, -⟩
      · exact absurd hnil (hchildren.flatMap_leaves_ne_nil hne (hne _ _ hproduction))
      · exact hchildren.mem_first hbelow

/-- Alternatives of one non-terminal that begin with the same token are the same. -/
theorem Predictive.eq_of_mem_first (h : grammar.Predictive) {name other : String}
    {production production' : Production}
    (hproduction : production ∈ grammar.rules.alternatives name)
    (hproduction' : production' ∈ grammar.rules.alternatives name)
    (hfirst : other ∈ grammar.first production) (hfirst' : other ∈ grammar.first production') :
    production = production' := by
  by_contra hne
  have hsymm : Std.Symm fun production other : Production =>
    ∀ token ∈ grammar.first production, token ∉ grammar.first other :=
    ⟨fun _ _ hother token hmem hmem' => hother token hmem' hmem⟩
  exact (h name).forall hproduction hproduction' hne other hfirst hfirst'

end Grammar

/-! ### Parse trees of the same tokens -/

namespace RuleTable

variable {grammar : Grammar}

mutual

/-- Under a predictive grammar, parse trees of a symbol that begin the same tokens are equal. -/
theorem ParseTree.eq_of_leaves_append {symbol : Symbol} {tree tree' : Tree}
    {rest rest' : List Label} (h : grammar.rules.ParseTree symbol tree)
    (h' : grammar.rules.ParseTree symbol tree')
    (hne : grammar.rules.NoEmpty) (hpredictive : grammar.Predictive)
    (hleaves : tree.leaves ++ rest = tree'.leaves ++ rest') : tree = tree' := by
  match h with
  | .leaf value hterminal =>
    cases h' with
    | leaf value' _ =>
      simp only [Tree.leaves_terminal, List.singleton_append, List.cons.injEq] at hleaves
      rw [hleaves.1]
    | node hterminal' => simp [hterminal] at hterminal'
  | @ParseTree.node _ _ production children hterminal hproduction hchildren =>
    cases h' with
    | leaf _ hterminal' => simp [hterminal] at hterminal'
    | @node _ production' children' _ hproduction' hchildren' =>
      rw [Tree.leaves_nonterminal, Tree.leaves_nonterminal] at hleaves
      -- Both alternatives begin with the first token, so they are the same.
      obtain ⟨label, below, hbelow⟩ := List.exists_cons_of_ne_nil
        (hchildren.flatMap_leaves_ne_nil hne (hne _ _ hproduction))
      obtain ⟨label', below', hbelow'⟩ := List.exists_cons_of_ne_nil
        (hchildren'.flatMap_leaves_ne_nil hne (hne _ _ hproduction'))
      have hlabel : label = label' := by
        rw [hbelow, hbelow'] at hleaves
        exact (List.cons.inj hleaves).1
      have hfirst := hchildren.mem_first hbelow
      have hfirst' := hchildren'.mem_first hbelow'
      obtain rfl := hpredictive.eq_of_mem_first hproduction hproduction' hfirst (hlabel ▸ hfirst')
      rw [hchildren.eq_of_leaves_append hchildren' hne hpredictive hleaves]

/-- The same for the members of a sequence. -/
theorem ParseForest.eq_of_leaves_append {production : Production} {trees trees' : List Tree}
    {rest rest' : List Label} (h : grammar.rules.ParseForest production trees)
    (h' : grammar.rules.ParseForest production trees')
    (hne : grammar.rules.NoEmpty) (hpredictive : grammar.Predictive)
    (hleaves : trees.flatMap Tree.leaves ++ rest = trees'.flatMap Tree.leaves ++ rest') :
    trees = trees' := by
  match h with
  | .nil =>
    cases h'
    rfl
  | .cons hmember hrest =>
    cases h' with
    | cons hmember' hrest' =>
      rw [List.flatMap_cons, List.flatMap_cons, List.append_assoc, List.append_assoc] at hleaves
      -- The first members are equal, so the others begin the same tokens as well.
      obtain rfl := hmember.eq_of_leaves_append hmember' hne hpredictive hleaves
      rw [hrest.eq_of_leaves_append hrest' hne hpredictive (List.append_cancel_left hleaves)]

end

end RuleTable

/-! ### What has a parse tree is derived -/

namespace RuleTable

variable {grammar : Grammar} {tokens : List Token}

mutual

/-- Under a predictive grammar, a symbol that has a parse tree of the next tokens does not fail. -/
theorem ParseTree.not_settles_none {symbol : Symbol} {tree : Tree} {index : Nat}
    {rest : List Label} (h : grammar.rules.ParseTree symbol tree)
    (hne : grammar.rules.NoEmpty) (hpredictive : grammar.Predictive)
    (hindex : index ≤ tokens.length)
    (hleaves : tree.leaves ++ rest = (tokens.drop index).map Token.label) :
    ¬ (grammar.parser tokens).Settles symbol index false none := by
  match h with
  | .leaf value hterminal =>
    rintro (_ | ⟨-, htoken⟩ | _ | ⟨hterminal'⟩)
    · -- The next token is the leaf.
      rw [Tree.leaves_terminal, List.singleton_append, eq_comm, List.map_eq_cons_iff] at hleaves
      obtain ⟨token, _, hdrop, hlabel, -⟩ := hleaves
      refine htoken token ?_ (congrArg Label.name hlabel)
      rw [Grammar.parser, ← Nat.add_zero index, ← List.getElem?_drop, hdrop]
      rfl
    · simp [hterminal] at hterminal'
  | .node hterminal hproduction hchildren =>
    rintro (_ | ⟨hterminal'⟩ | _ | ⟨-, hall⟩)
    · simp [hterminal] at hterminal'
    · -- The alternative at the root of the tree is rejected only if it fails.
      rw [Tree.leaves_nonterminal] at hleaves
      cases hall _ hproduction with
      | fails hfails =>
        exact hchildren.not_settlesAll_none hne hpredictive hindex hleaves hfails

/-- A sequence whose members have parse trees of the next tokens does not fail. -/
theorem ParseForest.not_settlesAll_none {production : Production} {trees : List Tree}
    {index : Nat} {rest : List Label} (h : grammar.rules.ParseForest production trees)
    (hne : grammar.rules.NoEmpty) (hpredictive : grammar.Predictive)
    (hindex : index ≤ tokens.length)
    (hleaves : trees.flatMap Tree.leaves ++ rest = (tokens.drop index).map Token.label) :
    ¬ (grammar.parser tokens).SettlesAll production index none := by
  match h with
  | .nil =>
    intro hfails
    cases hfails
  | .cons hmember hrest =>
    rw [List.flatMap_cons, List.append_assoc] at hleaves
    rintro (_ | _ | ⟨hfails⟩ | ⟨hsettles, hfails⟩)
    · exact hmember.not_settles_none hne hpredictive hindex hleaves hfails
    · -- What the first member derives is its tree, so the others begin where that ends.
      have hleft := hsettles.leaves_append_eq hindex
      obtain rfl := hmember.eq_of_leaves_append hsettles.parseTree hne hpredictive
        (hleaves.trans hleft.symm)
      exact hrest.not_settlesAll_none hne hpredictive (hsettles.bounds hindex).2
        (List.append_cancel_left (hleaves.trans hleft.symm)) hfails

end

end RuleTable

namespace Parser

variable {grammar : Grammar} {tokens : List Token}

/-- Under a predictive grammar, a derivation of all tokens does not fail if there is a parse
tree. -/
theorem not_settles_goal_none (hne : grammar.rules.NoEmpty) (hpredictive : grammar.Predictive)
    (hstart : grammar.start.isTerminal = false) {tree : Tree}
    (htree : grammar.rules.ParseTree grammar.start tree)
    (hleaves : tree.leaves = tokens.map Token.label) :
    ¬ (grammar.parser tokens).Settles grammar.start 0 true none := by
  cases htree with
  | leaf _ hterminal => simp [hstart] at hterminal
  | node _ hproduction hchildren =>
    rw [Tree.leaves_nonterminal, ← List.append_nil (List.flatMap _ _)] at hleaves
    rintro (_ | ⟨hterminal⟩ | _ | ⟨-, hall⟩)
    · simp [hstart] at hterminal
    · cases hall _ hproduction with
      | fails hfails =>
        exact hchildren.not_settlesAll_none hne hpredictive (Nat.zero_le _) hleaves hfails
      | endsEarly hends hnext =>
        -- What the alternative derives are the children, and these use up all tokens.
        have hleft := (hends.leaves_append_eq (Nat.zero_le _)).trans hleaves.symm
        obtain rfl := hends.parseForest.eq_of_leaves_append hchildren hne hpredictive hleft
        have hdrop := List.map_eq_nil_iff.mp (List.append_cancel_left hleft)
        exact hnext (le_antisymm (hends.bounds (Nat.zero_le _)).2 (List.drop_eq_nil_iff.mp hdrop))

/-- What is derived has a sentence at its leaves. -/
theorem mem_language_of_outcome_eq_ok {limit : Nat} {tree : Tree}
    (hstart : grammar.start.isTerminal = false)
    (h : ((grammar.parser tokens).runWithin limit).outcome = .ok tree) :
    tokens.map Token.name ∈ grammar.contextFree.language :=
  (Grammar.mem_language_contextFree_iff hstart).mpr ⟨tree, parseTree_of_outcome_eq_ok hstart h⟩

/-- Under a predictive grammar, no sentence is missed. -/
theorem not_mem_language_of_outcome_eq_noDerivation {limit : Nat} (hne : grammar.rules.NoEmpty)
    (hpredictive : grammar.Predictive) (hstart : grammar.start.isTerminal = false)
    (h : ((grammar.parser tokens).runWithin limit).outcome = .error .noDerivation) :
    tokens.map Token.name ∉ grammar.contextFree.language := by
  intro hmem
  obtain ⟨tree, htree, hleaves⟩ := (Grammar.mem_language_contextFree_iff hstart).mp hmem
  exact not_settles_goal_none hne hpredictive hstart htree hleaves
    (settles_none_of_outcome_eq_noDerivation h)

/-- Under a predictive grammar, the tree that is derived is the only parse tree of the tokens. -/
theorem parseTree_iff_of_outcome_eq_ok {limit : Nat} {tree tree' : Tree}
    (hne : grammar.rules.NoEmpty) (hpredictive : grammar.Predictive)
    (hstart : grammar.start.isTerminal = false)
    (h : ((grammar.parser tokens).runWithin limit).outcome = .ok tree) :
    grammar.rules.ParseTree grammar.start tree' ∧ tree'.leaves = tokens.map Token.label ↔
      tree' = tree := by
  have hsound : grammar.rules.ParseTree grammar.start tree ∧
      tree.leaves = tokens.map Token.label := parseTree_of_outcome_eq_ok hstart h
  constructor
  · rintro ⟨htree', hleaves'⟩
    have hsame : tree'.leaves ++ [] = tree.leaves ++ [] := by rw [hleaves', hsound.2]
    exact htree'.eq_of_leaves_append hsound.1 hne hpredictive hsame
  · rintro rfl
    exact hsound

/-- **Completeness of predictive grammars.** Let the start symbol of a loaded grammar lead to no
left recursion, and let the alternatives of each non-terminal be told apart by what they begin with.
From a bound on, no limit is exceeded. Whenever the limit is not exceeded, a tree is derived exactly
if the names of the tokens are a sentence of the context-free grammar, it is the only parse tree of
these tokens, and for all other tokens there is no derivation. -/
theorem predictive_complete (grammar : Grammar) (tokens : List Token) (hloaded : grammar.IsLoaded)
    (hfree : grammar.LeftRecursionFree) (hpredictive : grammar.Predictive) :
    let outcome := fun limit => ((grammar.parser tokens).runWithin limit).outcome
    (∀ limit ≥ grammar.nonterminals.length * (tokens.length + 1) + 1,
      outcome limit ≠ .error .tooDeep) ∧
    ∀ limit, outcome limit ≠ .error .tooDeep →
      ((∃ tree, outcome limit = .ok tree) ↔
        tokens.map Token.name ∈ grammar.contextFree.language) ∧
      (∀ tree, outcome limit = .ok tree → ∀ tree',
        grammar.rules.ParseTree grammar.start tree' ∧ tree'.leaves = tokens.map Token.label ↔
          tree' = tree) ∧
      (tokens.map Token.name ∉ grammar.contextFree.language →
        outcome limit = .error .noDerivation) := by
  intro outcome
  have hwell := hloaded.wellFormed
  have hstart := hwell.start_nonterminal
  have hne : grammar.rules.NoEmpty := hwell.production_ne_nil
  refine ⟨fun limit hlimit => ?_, fun limit hdeep => ?_⟩
  · exact outcome_runWithin_eq_tooDeep_iff.not.mpr
      (hwell.parseWithin_ne_tooDeep hfree tokens hlimit)
  · rcases outcome_runWithin_cases (grammar.parser tokens) limit with ⟨tree, hok⟩ | hnone | hdeep'
    · have hmem := mem_language_of_outcome_eq_ok hstart hok
      exact ⟨iff_of_true ⟨tree, hok⟩ hmem,
        fun _ hok' _ => parseTree_iff_of_outcome_eq_ok hne hpredictive hstart hok',
        fun hnot => absurd hmem hnot⟩
    · have hnot := not_mem_language_of_outcome_eq_noDerivation hne hpredictive hstart hnone
      have hnoTree : ∀ tree, outcome limit ≠ .ok tree := fun tree hok =>
        nomatch hnone.symm.trans hok
      exact ⟨iff_of_false (fun ⟨tree, hok⟩ => hnoTree tree hok) hnot,
        fun tree hok => absurd hok (hnoTree tree), fun _ => hnone⟩
    · exact absurd hdeep' hdeep

end Parser

/-! ### Statements -/

namespace Grammar

/-- The lines of a grammar of statements, with sums in parentheses. -/
def statementLines : List (List Char) :=
  ["Stmt", "Expr SEMI", "PRINT Expr SEMI", "", "Expr", "NUM", "LPAREN Expr PLUS Expr RPAREN"].map
    String.toList

/-- The grammar of statements. A statement begins with `PRINT` or as its expression does. -/
def statements : Grammar where
  rules := ⟨[("Stmt", [[⟨"Expr", false⟩, ⟨"SEMI", true⟩],
      [⟨"PRINT", true⟩, ⟨"Expr", false⟩, ⟨"SEMI", true⟩]]),
    ("Expr", [[⟨"NUM", true⟩], [⟨"LPAREN", true⟩, ⟨"Expr", false⟩, ⟨"PLUS", true⟩,
      ⟨"Expr", false⟩, ⟨"RPAREN", true⟩]])], by simp⟩
  start := ⟨"Stmt", false⟩
  terminalNames := ["LPAREN", "NUM", "PLUS", "PRINT", "RPAREN", "SEMI"]

theorem isLoaded_statements : statements.IsLoaded :=
  .ofLines [⟨"SEMI", ""⟩, ⟨"PRINT", ""⟩, ⟨"NUM", ""⟩, ⟨"LPAREN", ""⟩, ⟨"PLUS", ""⟩, ⟨"RPAREN", ""⟩]
    statementLines rfl

/-- An expression begins with terminals, and a statement with terminals or an expression. -/
theorem leftRecursionFree_statements : statements.LeftRecursionFree := by
  refine .of_rank (fun name => if name = "Stmt" then 1 else 0) ?_
  rintro name other ⟨rest, hproduction⟩
  obtain ⟨entry, hentry, rfl, hmem⟩ := RuleTable.exists_entry_of_mem_alternatives hproduction
  simp only [statements, List.mem_cons, List.not_mem_nil, or_false] at hentry
  rcases hentry with rfl | rfl <;> simp_all

theorem predictive_statements : statements.Predictive := by
  have hne : statements.rules.NoEmpty := isLoaded_statements.wellFormed.production_ne_nil
  have hexpr : ∀ {other rest}, other ∈ statements.first (⟨"Expr", false⟩ :: rest) →
      other = "NUM" ∨ other = "LPAREN" := by
    intro other rest hother
    obtain ⟨production, hproduction, hfirst⟩ := first_nonterminal hne hother
    rcases List.mem_pair.mp hproduction with rfl | rfl
    · exact .inl (first_terminal hfirst)
    · exact .inr (first_terminal hfirst)
  intro name
  by_cases hdeclared : name ∈ statements.rules.names
  · rcases List.mem_pair.mp hdeclared with rfl | rfl
    · refine List.pairwise_pair.mpr fun other hother hother' => ?_
      obtain rfl := first_terminal hother'
      simpa using hexpr hother
    · refine List.pairwise_pair.mpr fun other hother hother' => ?_
      obtain rfl := first_terminal hother'
      simpa using first_terminal hother
  · rw [RuleTable.alternatives_eq_nil hdeclared]
    exact .nil

/-- The statement that prints one plus two plus three. -/
def printedSum : List Token :=
  [⟨"PRINT", "print", 1, 1⟩, ⟨"LPAREN", "(", 1, 7⟩, ⟨"NUM", "1", 1, 8⟩, ⟨"PLUS", "+", 1, 9⟩,
    ⟨"LPAREN", "(", 1, 10⟩, ⟨"NUM", "2", 1, 11⟩, ⟨"PLUS", "+", 1, 12⟩, ⟨"NUM", "3", 1, 13⟩,
    ⟨"RPAREN", ")", 1, 14⟩, ⟨"RPAREN", ")", 1, 15⟩, ⟨"SEMI", ";", 1, 16⟩]

end Grammar

namespace Parser

/-- The statement has one parse tree, which is derived. -/
theorem predictive_complete_statements :
    Grammar.statements.IsLoaded ∧ Grammar.statements.LeftRecursionFree ∧
      Grammar.statements.Predictive ∧
      ((Grammar.statements.parser Grammar.printedSum).runWithin 25).outcome ≠ .error .tooDeep ∧
      Grammar.printedSum.map Token.name ∈ Grammar.statements.contextFree.language ∧
      ∃ tree, ((Grammar.statements.parser Grammar.printedSum).runWithin 25).outcome = .ok tree ∧
        ∀ tree', Grammar.statements.rules.ParseTree Grammar.statements.start tree' ∧
          tree'.leaves = Grammar.printedSum.map Token.label ↔ tree' = tree := by
  obtain ⟨hlimit, hends⟩ := predictive_complete Grammar.statements Grammar.printedSum
    Grammar.isLoaded_statements Grammar.leftRecursionFree_statements
    Grammar.predictive_statements
  have hdeep := hlimit 25 (by decide)
  obtain ⟨hlanguage, hunique, -⟩ := hends 25 hdeep
  obtain ⟨tree, houtcome⟩ : ∃ tree,
      ((Grammar.statements.parser Grammar.printedSum).runWithin 25).outcome = .ok tree := ⟨_, rfl⟩
  exact ⟨Grammar.isLoaded_statements, Grammar.leftRecursionFree_statements,
    Grammar.predictive_statements, hdeep, hlanguage.mp ⟨tree, houtcome⟩, tree, houtcome,
    hunique tree houtcome⟩

end Parser

end TokenGrammar
