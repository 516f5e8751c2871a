import TokenGrammar.Proofs.Derivation.ParseTree
import TokenGrammar.Proofs.Tree.Places

/-!
# Commitment to the first alternative

What an attempt derives does not depend on what it is nested in. So every subtree of a tree that is
derived can be had again, by an attempt at its symbol from the place of its first leaf, and its
children are those of the first alternative that can be derived from there. Only the goal passes
over alternatives that can be derived, because they do not use up all tokens.

## Main definitions

* `Tree.symbol` — the symbol that a tree derives
* `Parser.membersWithin` — the members of an alternative, derived one after the other
* `Parser.Commits` — trees that come from the first alternative that is derived and may end there
* `Parser.Repeats` — a subtree that an attempt at its place derives again

## Main results

* `commits_of_attempt_eq_derived` — where the children of a tree come from
* `repeats_of_mem_proper` — each subtree is what an attempt at its place derives
* `commits_at_every_node` — both, for the trees of a loaded grammar
-/

namespace TokenGrammar

/-- The symbol that a tree derives. -/
def Tree.symbol (tree : Tree) : Symbol := ⟨tree.label.name, tree.label.isTerminal⟩

theorem RuleTable.ParseTree.symbol_eq {table : RuleTable} {symbol : Symbol} {tree : Tree}
    (h : table.ParseTree symbol tree) : tree.symbol = symbol := by
  obtain ⟨name, isTerminal⟩ := symbol
  cases h with
  | leaf _ hterminal =>
    subst hterminal
    rfl
  | node hterminal =>
    subst hterminal
    rfl

namespace Parser

variable {parser : Parser} {limit : Nat} {symbol : Symbol} {goal : Bool} {tree : Tree}

/-- The members of an alternative, derived one after the other by attempts of the same limit. -/
def membersWithin (parser : Parser) (limit : Nat) (production : Production) (index : Int) :
    Attempt (List Tree) :=
  deriveSequence (fun member next => parser.attempt limit member next false) production index

/-- The children come from an alternative of `name` that is derived from a place and ends where it
may, and from the first such one: each alternative before it fails, or has to use up all tokens and
does not. -/
inductive Commits (parser : Parser) (limit : Nat) (name : String) (index : Nat) (goal : Bool)
    (children : List Tree) (next : Nat) : Prop
  | alternative {earlier later : List Production} {production : Production}
      (halternatives : parser.rules.alternatives name = earlier ++ production :: later)
      (hproduction : parser.membersWithin limit production index = .derived children next)
      (hgoal : goal = true → next = parser.tokens.length)
      (hearlier : ∀ other ∈ earlier, parser.membersWithin limit other index = .failed ∨
        goal = true ∧ ∃ trees, ∃ last : Int, parser.membersWithin limit other index =
          .derived trees last ∧ last ≠ parser.tokens.length)

/-! ### One node -/

/-- A tree that is derived from a non-terminal holds what the first alternative that is not passed
over derives within one attempt less. -/
theorem exists_alternative_of_attempt_eq_derived {index next : Int}
    (hterminal : symbol.isTerminal = false)
    (h : parser.attempt (limit + 1) symbol index goal = .derived tree next) :
    ∃ earlier production later children,
      parser.rules.alternatives symbol.name = earlier ++ production :: later ∧
      (∀ other ∈ earlier,
        (parser.membersWithin limit other index).filter (parser.accepts goal) = .failed) ∧
      parser.membersWithin limit production index = .derived children next ∧
      parser.accepts goal next = true ∧ tree = .node (.nonterminal symbol.name) children := by
  rw [attempt_nonterminal hterminal, Attempt.map_eq_derived_iff] at h
  obtain ⟨children, hfirst, rfl⟩ := h
  rcases deriveFirst_eq_failed_or (fun member next => parser.attempt limit member next false)
    (parser.accepts goal) index (parser.rules.alternatives symbol.name) with hfailed |
    ⟨earlier, production, later, halternatives, hearlier, -, htaken⟩
  · cases hfirst.symm.trans hfailed
  · obtain ⟨hproduction, haccepts⟩ := Attempt.filter_eq_derived_iff.mp (htaken.symm.trans hfirst)
    exact ⟨earlier, production, later, children, halternatives, hearlier, hproduction, haccepts,
      rfl⟩

theorem membersWithin_succ {production : Production} {index : Int}
    (h : parser.membersWithin limit production index ≠ .aborted .tooDeep) :
    parser.membersWithin (limit + 1) production index =
      parser.membersWithin limit production index :=
  deriveSequence_mono (fun _ _ => attempt_succ_of_ne) h

theorem accepts_eq_false_iff {next : Int} :
    parser.accepts goal next = false ↔ goal = true ∧ next ≠ parser.tokens.length := by
  simp [accepts]

/-- The children of a tree that is derived come from the first alternative that is derived. -/
theorem commits_of_attempt_eq_derived {index next : Nat} (hterminal : symbol.isTerminal = false)
    (h : parser.attempt limit symbol index goal = .derived tree next) :
    parser.Commits limit symbol.name index goal tree.children next := by
  cases limit with
  | zero => cases h
  | succ limit =>
    obtain ⟨earlier, production, later, children, halternatives, hearlier, hproduction, haccepts,
      rfl⟩ := exists_alternative_of_attempt_eq_derived hterminal h
    -- What comes to an end within one attempt less comes to the same end within this limit.
    refine .alternative halternatives ?_ (accepts_natCast.mp haccepts) fun other hother => ?_
    · rw [membersWithin_succ (by rw [hproduction]; simp), hproduction]
      rfl
    · rcases Attempt.filter_eq_failed_iff.mp (hearlier other hother) with hfailed |
        ⟨trees, last, hderived, hends⟩
      · exact .inl (by rw [membersWithin_succ (by rw [hfailed]; simp), hfailed])
      · obtain ⟨hgoal, hlast⟩ := accepts_eq_false_iff.mp hends
        refine .inr ⟨hgoal, trees, last, ?_, hlast⟩
        rw [membersWithin_succ (by rw [hderived]; simp), hderived]

/-! ### All subtrees -/

/-- An attempt ends as many tokens further on as its tree has leaves. -/
theorem Settles.next_eq {index next : Nat}
    (h : parser.Settles symbol index goal (some (tree, next)))
    (hindex : index ≤ parser.tokens.length) : next = index + tree.leaves.length := by
  obtain ⟨hle, hlength⟩ := h.bounds hindex
  rw [h.leaves_eq hindex, List.length_map, List.extract_eq_take_drop, List.length_take,
    List.length_drop]
  omega

/-- An attempt at the symbol of a subtree, from its place, derives the subtree and ends after its
last leaf. -/
def Repeats (parser : Parser) (limit : Nat) (entry : Nat × Tree) : Prop :=
  parser.attempt limit entry.2.symbol entry.1 false =
    .derived entry.2 (entry.1 + entry.2.leaves.length : Nat)

theorem Repeats.succ {entry : Nat × Tree} (h : parser.Repeats limit entry) :
    parser.Repeats (limit + 1) entry := by
  rw [Repeats, attempt_succ_of_ne (by rw [h]; simp), h]

/-- If the subtrees below what a member derives are repeated, so are those of a sequence. -/
theorem repeats_of_mem_placedAll
    (hproper : ∀ (member : Symbol) (index next : Nat) (tree : Tree), index ≤ parser.tokens.length →
      parser.attempt limit member index false = .derived tree next →
        ∀ entry ∈ tree.proper index, parser.Repeats limit entry)
    {production : Production} {index : Nat} {last : Int} {trees : List Tree}
    (hindex : index ≤ parser.tokens.length)
    (h : parser.membersWithin limit production index = .derived trees last) :
    ∀ entry ∈ Tree.placedAll index trees, parser.Repeats limit entry := by
  induction production generalizing index trees with
  | nil =>
    obtain ⟨rfl, -⟩ := Attempt.derived.inj h
    intro entry hentry
    cases hentry
  | cons member rest ih =>
    rw [membersWithin, deriveSequence] at h
    cases hmember : parser.attempt limit member index false with
    | failed =>
      rw [hmember] at h
      cases h
    | aborted cause =>
      rw [hmember] at h
      cases h
    | derived tree middle =>
      rw [hmember, Attempt.bind, Attempt.map_eq_derived_iff] at h
      obtain ⟨others, hrest, rfl⟩ := h
      obtain ⟨place, rfl, hplace, hsettles⟩ := exists_place_of_derived hindex hmember
      have hnext := hsettles.next_eq hindex
      intro entry hentry
      rcases List.mem_append.mp hentry with hfirst | hlater
      · rw [Tree.placed_eq_cons] at hfirst
        rcases List.mem_cons.mp hfirst with rfl | hbelow
        · rw [Repeats, hsettles.parseTree.symbol_eq, hmember, hnext]
        · exact hproper member index place tree hindex hmember entry hbelow
      · -- The other members begin where this one ends, which is after its leaves.
        rw [← hnext] at hlater
        exact ih hplace hrest entry hlater

/-- Every proper subtree of what an attempt derives is repeated within the same limit. -/
theorem repeats_of_mem_proper {index next : Nat} (hindex : index ≤ parser.tokens.length)
    (h : parser.attempt limit symbol index goal = .derived tree next) :
    ∀ entry ∈ tree.proper index, parser.Repeats limit entry := by
  induction limit generalizing symbol index next goal tree with
  | zero => cases h
  | succ limit ih =>
    cases hterminal : symbol.isTerminal with
    | true =>
      obtain ⟨place, -, -, hsettles⟩ := exists_place_of_derived hindex h
      cases hsettles with
      | matched => simp
      | chosen hterminal' => simp [hterminal] at hterminal'
    | false =>
      obtain ⟨-, production, -, children, -, -, hproduction, -, rfl⟩ :=
        exists_alternative_of_attempt_eq_derived hterminal h
      intro entry hentry
      rw [Tree.proper_nonterminal] at hentry
      have hmember := repeats_of_mem_placedAll (fun _ _ _ _ hplace hmember => ih hplace hmember)
        hindex hproduction entry hentry
      exact hmember.succ

/-! ### Derivations of all tokens -/

/-- The leaves of a subtree are the tokens from its place on. -/
theorem leaves_eq_of_mem_proper {tokens : List Token} (htree : tree.leaves = tokens.map Token.label)
    {first : Nat} {subtree : Tree} (hmem : (first, subtree) ∈ tree.proper 0) :
    subtree.leaves =
      (tokens.extract first (first + subtree.leaves.length)).map Token.label := by
  have hplaced : (first, subtree) ∈ tree.placed 0 := List.mem_of_mem_tail hmem
  obtain ⟨before, after, hleaves, hfirst⟩ := Tree.exists_leaves_eq_of_mem_placed hplaced
  have hlength : before.length = first := by
    rw [Nat.zero_add] at hfirst
    exact hfirst.symm
  rw [List.extract_eq_take_drop, List.map_take, List.map_drop, ← htree, hleaves,
    Nat.add_sub_cancel_left, List.append_assoc, List.drop_left' hlength, List.take_left]

/-- **Commitment at every node.** Let a loaded grammar derive a tree. Each subtree has a place, from
which on its leaves are the tokens. For every subtree below the root that derives a non-terminal, an
attempt at this non-terminal from the place, within the same limit, derives the subtree itself and
ends after its leaves; and its children come from the first alternative whose members are derived
one after the other from there. Those of the root come from the first alternative of the start
symbol whose members are derived from the first token on and use up all tokens. -/
theorem commits_at_every_node (grammar : Grammar) (tokens : List Token) (limit : Nat) (tree : Tree)
    (hloaded : grammar.IsLoaded)
    (htree : ((grammar.parser tokens).runWithin limit).outcome = .ok tree) :
    let parser := grammar.parser tokens
    (∀ first subtree, (first, subtree) ∈ tree.proper 0 → subtree.label.isTerminal = false →
      let last := first + subtree.leaves.length
      subtree.leaves = (tokens.extract first last).map Token.label ∧
        parser.attempt limit ⟨subtree.label.name, false⟩ first false = .derived subtree last ∧
        parser.Commits limit subtree.label.name first false subtree.children last) ∧
      parser.Commits limit grammar.start.name 0 true tree.children tokens.length := by
  intro parser
  have hstart := hloaded.wellFormed.start_nonterminal
  have hleaves : tree.leaves = tokens.map Token.label :=
    (parseTree_of_outcome_eq_ok hstart htree).2
  obtain ⟨next, hderived⟩ := outcome_runWithin_eq_ok_iff.mp htree
  obtain ⟨place, rfl, -, hsettles⟩ := exists_place_of_derived (Nat.zero_le _) hderived
  obtain rfl := hsettles.next_eq_length hstart
  refine ⟨fun first subtree hmem hterminal => ?_, commits_of_attempt_eq_derived hstart hderived⟩
  have hrepeats : parser.attempt limit ⟨subtree.label.name, subtree.label.isTerminal⟩ first false =
      .derived subtree (first + subtree.leaves.length : Nat) :=
    repeats_of_mem_proper (Nat.zero_le _) hderived (first, subtree) hmem
  rw [hterminal] at hrepeats
  exact ⟨leaves_eq_of_mem_proper hleaves hmem, hrepeats, commits_of_attempt_eq_derived rfl hrepeats⟩

/-- In a number plus a number in parentheses, the sum in parentheses begins with the fourth token.
The first alternative fails there, since no plus follows. -/
theorem commits_at_every_node_sums :
    Grammar.sums.IsLoaded ∧
      ∃ tree subtree,
        ((Grammar.sums.parser Grammar.numberAndSum).runWithin 6).outcome = .ok tree ∧
        (3, subtree) ∈ tree.proper 0 ∧ subtree.label = .nonterminal "Expr" ∧
        (Grammar.sums.parser Grammar.numberAndSum).attempt 6 ⟨"Expr", false⟩ 3 false =
          .derived subtree 4 ∧
        (Grammar.sums.parser Grammar.numberAndSum).Commits 6 "Expr" 3 false subtree.children 4 ∧
        (Grammar.sums.parser Grammar.numberAndSum).Commits 6 "Expr" 0 true tree.children 5 := by
  obtain ⟨subtree, hsubtree⟩ : ∃ subtree, subtree = Tree.node (.nonterminal "Expr")
    [.node (.nonterminal "Term") [.leaf (.terminal "NUM" "2")]] := ⟨_, rfl⟩
  obtain ⟨tree, hmem, htree⟩ : ∃ tree, (3, subtree) ∈ tree.proper 0 ∧
      ((Grammar.sums.parser Grammar.numberAndSum).runWithin 6).outcome = .ok tree := by
    subst hsubtree
    refine ⟨_, ?_, rfl⟩
    decide
  obtain ⟨hbelow, hroot⟩ := commits_at_every_node Grammar.sums Grammar.numberAndSum 6 tree
    Grammar.isLoaded_sums htree
  subst hsubtree
  obtain ⟨-, hattempt, hcommits⟩ := hbelow 3 _ hmem rfl
  exact ⟨Grammar.isLoaded_sums, tree, _, htree, hmem, rfl, hattempt, hcommits, hroot⟩

end Parser

end TokenGrammar
