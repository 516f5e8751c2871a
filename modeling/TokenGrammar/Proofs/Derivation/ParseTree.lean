import TokenGrammar.Loading
import TokenGrammar.Proofs.Derivation.OrderedChoice
import TokenGrammar.Proofs.Grammar.Loaded
import TokenGrammar.Proofs.Tree.Leaves

/-!
# Parse trees

A parse tree of a symbol follows the rules at every node: a terminal is a leaf, and the children of
a non-terminal are parse trees of the members of one of its alternatives, in order. Nothing is said
about which alternative that is, or about the tokens; the tokens are at the leaves.

Whatever a derivation gives up on its way leaves no trace: the tree it ends with is a parse tree,
and its leaves are the tokens between the two places, each once and in order.

## Main definitions

* `RuleTable.ParseTree`, `RuleTable.ParseForest` — trees that follow the rules
* `Token.label` — the leaf that a token becomes

## Main results

* `Settles.parseTree`, `Settles.leaves_eq` — what ordered choice derives
* `parseTree_of_outcome_eq_ok`, `settles_none_of_outcome_eq_noDerivation` — what the outcome of a
  derivation of all tokens says
* `derived_tree_sound` — what an attempt derives, and what a loaded grammar derives
-/

namespace TokenGrammar

/-- The label of the leaf that a token becomes. -/
def Token.label (token : Token) : Label := .terminal token.name token.value

mutual

/-- A tree that derives a symbol by the rules of a table. -/
inductive RuleTable.ParseTree (table : RuleTable) : Symbol → Tree → Prop
  | leaf {symbol : Symbol} (value : String) (hterminal : symbol.isTerminal = true) :
      ParseTree table symbol (.leaf (.terminal symbol.name value))
  | node {symbol : Symbol} {production : Production} {children : List Tree}
      (hterminal : symbol.isTerminal = false)
      (hproduction : production ∈ table.alternatives symbol.name)
      (hchildren : ParseForest table production children) :
      ParseTree table symbol (.node (.nonterminal symbol.name) children)

/-- Trees that derive the members of a sequence, one for each and in order. -/
inductive RuleTable.ParseForest (table : RuleTable) : Production → List Tree → Prop
  | nil : ParseForest table [] []
  | cons {member : Symbol} {rest : Production} {tree : Tree} {trees : List Tree}
      (hmember : ParseTree table member tree) (hrest : ParseForest table rest trees) :
      ParseForest table (member :: rest) (tree :: trees)

end

namespace RuleTable

variable {table : RuleTable}

mutual

/-- Every subtree of a parse tree is a parse tree of some symbol. -/
theorem ParseTree.of_mem_walk {symbol : Symbol} {tree : Tree} (h : table.ParseTree symbol tree)
    (depth : Int) : ∀ entry ∈ tree.walk depth, ∃ member, table.ParseTree member entry.2 := by
  match h with
  | .leaf value hterminal =>
    intro entry hentry
    obtain rfl := List.mem_singleton.mp hentry
    exact ⟨symbol, .leaf value hterminal⟩
  | .node hterminal hproduction hchildren =>
    intro entry hentry
    rcases List.mem_cons.mp hentry with rfl | hbelow
    · exact ⟨symbol, .node hterminal hproduction hchildren⟩
    · exact hchildren.of_mem_walk (depth + 1) entry hbelow

/-- Every subtree of a parse forest is a parse tree of some symbol. -/
theorem ParseForest.of_mem_walk {production : Production} {trees : List Tree}
    (h : table.ParseForest production trees) (depth : Int) :
    ∀ entry ∈ Tree.walkAll depth trees, ∃ member, table.ParseTree member entry.2 := by
  match h with
  | .nil =>
    intro entry hentry
    cases hentry
  | .cons hmember hrest =>
    intro entry hentry
    rcases List.mem_append.mp hentry with hfirst | hlater
    · exact hmember.of_mem_walk depth entry hfirst
    · exact hrest.of_mem_walk depth entry hlater

end

theorem ParseTree.label_eq {symbol : Symbol} {tree : Tree} (h : table.ParseTree symbol tree)
    (hterminal : symbol.isTerminal = false) : tree.label = .nonterminal symbol.name := by
  cases h with
  | leaf _ hterminal' => simp [hterminal] at hterminal'
  | node => rfl

end RuleTable

namespace Parser

variable {parser : Parser}

mutual

theorem Settles.parseTree {symbol : Symbol} {index next : Nat} {goal : Bool} {tree : Tree}
    (h : parser.Settles symbol index goal (some (tree, next))) :
    parser.rules.ParseTree symbol tree := by
  match h with
  | .matched hterminal _ hname => exact hname ▸ .leaf _ hterminal
  | .chosen hterminal halternatives _ hproduction _ =>
    exact .node hterminal (by simp [halternatives]) hproduction.parseForest

theorem SettlesAll.parseForest {production : Production} {index next : Nat} {trees : List Tree}
    (h : parser.SettlesAll production index (some (trees, next))) :
    parser.rules.ParseForest production trees := by
  match h with
  | .nil => exact .nil
  | .cons hmember hrest => exact .cons hmember.parseTree hrest.parseForest

end

/-- The tokens up to a place and those from there on make up all of them. -/
private theorem extract_append_of_le {α : Type} (l : List α) {first middle last : Nat}
    (h : first ≤ middle) (h' : middle ≤ last) :
    l.extract first middle ++ l.extract middle last = l.extract first last := by
  obtain ⟨m, rfl⟩ := Nat.exists_eq_add_of_le h
  obtain ⟨n, rfl⟩ := Nat.exists_eq_add_of_le h'
  have hlast : first + m + n - first = m + n := by omega
  simp only [List.extract_eq_take_drop, Nat.add_sub_cancel_left, hlast]
  rw [List.take_add, List.drop_drop]

mutual

theorem Settles.leaves_eq {symbol : Symbol} {index next : Nat} {goal : Bool} {tree : Tree}
    (h : parser.Settles symbol index goal (some (tree, next)))
    (hindex : index ≤ parser.tokens.length) :
    tree.leaves = (parser.tokens.extract index next).map Token.label := by
  match h with
  | .matched _ htoken _ =>
    obtain ⟨hlt, rfl⟩ := List.getElem?_eq_some_iff.mp htoken
    rw [List.extract_eq_take_drop, Nat.add_sub_cancel_left, List.drop_eq_getElem_cons hlt,
      Tree.leaves_terminal]
    rfl
  | .chosen _ _ _ hproduction _ =>
    rw [Tree.leaves_nonterminal, hproduction.leaves_eq hindex]

theorem SettlesAll.leaves_eq {production : Production} {index next : Nat} {trees : List Tree}
    (h : parser.SettlesAll production index (some (trees, next)))
    (hindex : index ≤ parser.tokens.length) :
    trees.flatMap Tree.leaves = (parser.tokens.extract index next).map Token.label := by
  match h with
  | .nil => simp
  | .cons hmember hrest =>
    -- The member's tokens end where those of the rest begin.
    obtain ⟨hmiddle, hmiddleLength⟩ := hmember.bounds hindex
    obtain ⟨hlast, -⟩ := hrest.bounds hmiddleLength
    rw [List.flatMap_cons, hmember.leaves_eq hindex, hrest.leaves_eq hmiddleLength,
      ← List.map_append, extract_append_of_le _ hmiddle hlast]

end

/-- The tokens between two places and those from the second place on are those from the first. -/
private theorem extract_append_drop {α : Type} (l : List α) {first last : Nat} (h : first ≤ last) :
    l.extract first last ++ l.drop last = l.drop first := by
  obtain ⟨count, rfl⟩ := Nat.exists_eq_add_of_le h
  rw [List.extract_eq_take_drop, Nat.add_sub_cancel_left, ← List.drop_drop, List.take_append_drop]

/-- What is derived begins the tokens that are left, and those that are left then follow it. -/
theorem Settles.leaves_append_eq {symbol : Symbol} {index next : Nat} {goal : Bool} {tree : Tree}
    (h : parser.Settles symbol index goal (some (tree, next)))
    (hindex : index ≤ parser.tokens.length) :
    tree.leaves ++ (parser.tokens.drop next).map Token.label =
      (parser.tokens.drop index).map Token.label := by
  rw [h.leaves_eq hindex, ← List.map_append, extract_append_drop _ (h.bounds hindex).1]

theorem SettlesAll.leaves_append_eq {production : Production} {index next : Nat}
    {trees : List Tree} (h : parser.SettlesAll production index (some (trees, next)))
    (hindex : index ≤ parser.tokens.length) :
    trees.flatMap Tree.leaves ++ (parser.tokens.drop next).map Token.label =
      (parser.tokens.drop index).map Token.label := by
  rw [h.leaves_eq hindex, ← List.map_append, extract_append_drop _ (h.bounds hindex).1]

/-! ### Derivations of all tokens -/

/-- A derivation of all tokens ends with a tree, because there is none, or nested too deeply. -/
theorem outcome_runWithin_cases (parser : Parser) (limit : Nat) :
    (∃ tree, (parser.runWithin limit).outcome = .ok tree) ∨
      (parser.runWithin limit).outcome = .error .noDerivation ∨
      (parser.runWithin limit).outcome = .error .tooDeep := by
  rcases parser.parseWithin_cases limit with ⟨tree, next, hderived⟩ | hfailed | hdeep
  · exact .inl ⟨tree, outcome_runWithin_eq_ok_iff.mpr ⟨next, hderived⟩⟩
  · exact .inr (.inl (outcome_runWithin_eq_noDerivation_iff.mpr hfailed))
  · exact .inr (.inr (outcome_runWithin_eq_tooDeep_iff.mpr hdeep))

/-- A tree that is derived from a non-terminal is a parse tree of all tokens. -/
theorem parseTree_of_outcome_eq_ok {limit : Nat} {tree : Tree}
    (hstart : parser.start.isTerminal = false)
    (h : (parser.runWithin limit).outcome = .ok tree) :
    parser.rules.ParseTree parser.start tree ∧ tree.leaves = parser.tokens.map Token.label := by
  obtain ⟨next, hderived⟩ := outcome_runWithin_eq_ok_iff.mp h
  obtain ⟨last, -, -, hsettles⟩ := exists_place_of_derived (Nat.zero_le _) hderived
  obtain rfl := hsettles.next_eq_length hstart
  refine ⟨hsettles.parseTree, ?_⟩
  simpa using hsettles.leaves_eq (Nat.zero_le _)

/-- Where there is no derivation, the goal fails by ordered choice. -/
theorem settles_none_of_outcome_eq_noDerivation {limit : Nat}
    (h : (parser.runWithin limit).outcome = .error .noDerivation) :
    parser.Settles parser.start 0 true none := by
  have hfailed : parser.attempt limit parser.start (0 : Nat) true = .failed :=
    outcome_runWithin_eq_noDerivation_iff.mp h
  obtain ⟨result, hsettles, hresult⟩ := exists_settles_of_ne_tooDeep (by rw [hfailed]; simp)
  obtain rfl := Attempt.settled_eq_failed_iff.mp (hresult.symm.trans hfailed)
  exact hsettles

/-- **Soundness.** A tree that an attempt derives is a parse tree of its symbol, and its leaves are
the tokens between the place where it is asked for and the place where it ends. So a tree that is
derived by a loaded grammar follows the rules at every node, and its leaves are all the tokens. -/
theorem derived_tree_sound :
    (∀ (parser : Parser) (limit : Nat) (symbol : Symbol) (index next : Int) (goal : Bool)
      (tree : Tree), 0 ≤ index → index ≤ parser.tokens.length →
      parser.attempt limit symbol index goal = .derived tree next →
        index ≤ next ∧ next ≤ parser.tokens.length ∧ parser.rules.ParseTree symbol tree ∧
          tree.leaves = (parser.tokens.extract index.toNat next.toNat).map Token.label) ∧
    ∀ (grammar : Grammar) (tokens : List Token) (limit : Nat) (tree : Tree), grammar.IsLoaded →
      ((grammar.parser tokens).runWithin limit).outcome = .ok tree →
        tree.label = .nonterminal grammar.start.name ∧
          grammar.rules.ParseTree grammar.start tree ∧
          (∀ entry ∈ tree.walk 0, ∃ symbol, grammar.rules.ParseTree symbol entry.2) ∧
          tree.leaves = tokens.map Token.label := by
  constructor
  · intro parser limit symbol index next goal tree hindex hlength hderived
    obtain ⟨place, rfl⟩ := Int.eq_ofNat_of_zero_le hindex
    have hplace : place ≤ parser.tokens.length := by omega
    obtain ⟨last, rfl, hlast, hsettles⟩ := exists_place_of_derived hplace hderived
    have hbegin := (hsettles.bounds hplace).1
    exact ⟨by omega, by omega, hsettles.parseTree, hsettles.leaves_eq hplace⟩
  · intro grammar tokens limit tree hloaded houtcome
    have hstart := hloaded.wellFormed.start_nonterminal
    obtain ⟨next, hderived⟩ := outcome_runWithin_eq_ok_iff.mp houtcome
    obtain ⟨last, rfl, -, hsettles⟩ := exists_place_of_derived (Nat.zero_le _) hderived
    -- The start symbol is the goal, so its tree ends with the last token.
    obtain rfl := hsettles.next_eq_length hstart
    have htree : grammar.rules.ParseTree grammar.start tree := hsettles.parseTree
    refine ⟨htree.label_eq hstart, htree, htree.of_mem_walk 0, ?_⟩
    rw [hsettles.leaves_eq (Nat.zero_le _)]
    simp [Grammar.parser]

/-- A nested attempt at the second of two tokens, and a sum with parentheses. -/
theorem derived_tree_sound_sums :
    (∃ tree, (0 : Int) ≤ 1 ∧ (1 : Int) ≤ doubled.tokens.length ∧
      doubled.attempt 2 ⟨"S", false⟩ 1 false = .derived tree 2 ∧
      doubled.rules.ParseTree ⟨"S", false⟩ tree ∧
      tree.leaves = (doubled.tokens.extract 1 2).map Token.label) ∧
    Grammar.sums.IsLoaded ∧
      ∃ tree, ((Grammar.sums.parser Grammar.numberAndSum).runWithin 6).outcome = .ok tree ∧
        Grammar.sums.rules.ParseTree ⟨"Expr", false⟩ tree ∧
        tree.leaves = Grammar.numberAndSum.map Token.label := by
  constructor
  · obtain ⟨tree, hderived⟩ :
        ∃ tree, doubled.attempt 2 ⟨"S", false⟩ 1 false = .derived tree 2 := ⟨_, rfl⟩
    obtain ⟨-, -, htree, hleaves⟩ :=
      derived_tree_sound.1 doubled 2 _ 1 2 false tree (by decide) (by decide) hderived
    exact ⟨tree, by decide, by decide, hderived, htree, hleaves⟩
  · obtain ⟨tree, houtcome⟩ :
        ∃ tree, ((Grammar.sums.parser Grammar.numberAndSum).runWithin 6).outcome = .ok tree :=
      ⟨_, rfl⟩
    obtain ⟨-, htree, -, hleaves⟩ := derived_tree_sound.2 Grammar.sums Grammar.numberAndSum 6 tree
      Grammar.isLoaded_sums houtcome
    exact ⟨Grammar.isLoaded_sums, tree, houtcome, htree, hleaves⟩

end Parser

end TokenGrammar
