import TokenGrammar.Proofs.Derivation.LeftRecursion
import TokenGrammar.Proofs.Derivation.ParseTree

/-!
# Progress, and the empty input

Whatever is derived uses up a token, so nothing is derived from the empty input. All alternatives of
a non-terminal are tried there, and each is given up at its first member, if that comes to an end.
So what is attempted are left corners and nothing else: if a left corner of the start symbol is
left-recursive, every limit is exceeded; if none is, a limit one above the number of non-terminals
suffices.

## Main definitions

* `RuleTable.MeetsLeftRecursion` — a left corner of a non-terminal is left-recursive
* `Parser.Starved` — there are no tokens, and the rules have no empty alternatives

## Main results

* `attempt_eq_tooDeep_iff_exists_first` — without tokens, only first members are attempted
* `attempt_eq_tooDeep`, `attempt_ne_tooDeep` — what left recursion decides
* `progress_and_empty_input` — what this says of a loaded grammar
-/

namespace TokenGrammar

/-! ### Cycles of left corners -/

namespace RuleTable

variable {table : RuleTable} {name other : String}

/-- The non-terminal leads along left corners to one that is left-recursive. -/
def MeetsLeftRecursion (table : RuleTable) (name : String) : Prop :=
  ∃ cycle, Relation.ReflTransGen table.LeftCorner name cycle ∧ table.LeftRecursive cycle

theorem MeetsLeftRecursion.exists_leftCorner (h : table.MeetsLeftRecursion name) :
    ∃ other, table.LeftCorner name other ∧ table.MeetsLeftRecursion other := by
  obtain ⟨cycle, hpath, hcycle⟩ := h
  -- The first step is on the way to the cycle, or on the cycle if the name is there already.
  rcases hpath.cases_head with rfl | ⟨other, hcorner, hrest⟩
  · obtain ⟨other, hcorner, hrest⟩ := Relation.TransGen.head'_iff.mp hcycle
    exact ⟨other, hcorner, name, hrest, hcycle⟩
  · exact ⟨other, hcorner, cycle, hrest, hcycle⟩

theorem MeetsLeftRecursion.of_leftCorner (hcorner : table.LeftCorner name other)
    (h : table.MeetsLeftRecursion other) : table.MeetsLeftRecursion name := by
  obtain ⟨cycle, hpath, hcycle⟩ := h
  exact ⟨cycle, .head hcorner hpath, hcycle⟩

theorem LeftRecursive.meetsLeftRecursion (h : table.LeftRecursive name) :
    table.MeetsLeftRecursion name := ⟨name, .refl, h⟩

theorem LeftCorner.refers (h : table.LeftCorner name other) : table.Refers name other := by
  obtain ⟨rest, hproduction⟩ := h
  exact ⟨_, hproduction, List.mem_cons_self ..⟩

end RuleTable

theorem Grammar.LeftRecursionFree.not_meetsLeftRecursion {grammar : Grammar}
    (h : grammar.LeftRecursionFree) : ¬ grammar.rules.MeetsLeftRecursion grammar.start.name := by
  rintro ⟨cycle, hpath, hcycle⟩
  have hreaches := Relation.ReflTransGen.mono (fun _ _ => RuleTable.LeftCorner.refers) _ _ hpath
  exact h cycle hreaches hcycle

/-- If every alternative is passed over or too deep, the choice is too deep exactly if one of them
is. -/
theorem deriveFirst_eq_tooDeep_iff {derive : Symbol → Int → Attempt Tree} {accepts : Int → Bool}
    {index : Int} {productions : List Production}
    (h : ∀ production ∈ productions,
      (deriveSequence derive production index).filter accepts = .failed ∨
        (deriveSequence derive production index).filter accepts = .aborted .tooDeep) :
    deriveFirst derive accepts index productions = .aborted .tooDeep ↔
      ∃ production ∈ productions,
        (deriveSequence derive production index).filter accepts = .aborted .tooDeep := by
  rcases deriveFirst_eq_failed_or derive accepts index productions with hfailed |
    ⟨earlier, production, later, rfl, -, hne, htaken⟩
  · refine iff_of_false (by rw [hfailed]; simp) ?_
    rintro ⟨production, hproduction, hdeep⟩
    cases (deriveFirst_eq_failed_iff.mp hfailed production hproduction).symm.trans hdeep
  · have hdeep := (h production (by simp)).resolve_left hne
    exact iff_of_true (htaken.trans hdeep) ⟨production, by simp, hdeep⟩

namespace Parser

/-- There are no tokens, and every alternative has a first member. -/
structure Starved (parser : Parser) : Prop where
  tokens_eq_nil : parser.tokens = []
  production_ne_nil : ∀ name, ∀ production ∈ parser.rules.alternatives name, production ≠ []

namespace Starved

variable {parser : Parser} {limit : Nat} {symbol : Symbol} {goal : Bool}

/-! ### Attempts without tokens -/

/-- Without tokens, nothing is derived. -/
theorem attempt_eq_failed_or (h : parser.Starved) (limit : Nat) (symbol : Symbol) (goal : Bool) :
    parser.attempt limit symbol (0 : Nat) goal = .failed ∨
      parser.attempt limit symbol (0 : Nat) goal = .aborted .tooDeep := by
  rcases parser.attempt_eq_tooDeep_or limit symbol 0 goal with
    hdeep | ⟨_ | ⟨tree, next⟩, hsettles, hresult⟩
  · exact .inr hdeep
  · exact .inl hresult
  · -- A tree would use up a token.
    have hlt := hsettles.lt_next h.production_ne_nil
    have hle := (hsettles.bounds (Nat.zero_le _)).2
    rw [h.tokens_eq_nil, List.length_nil] at hle
    omega

/-- Without tokens, a sequence ends as its first member does. -/
theorem filter_deriveSequence_cons (h : parser.Starved) (limit : Nat) (first : Symbol)
    (rest : Production) (accepts : Int → Bool) :
    (deriveSequence (fun member next => parser.attempt limit member next false) (first :: rest)
        (0 : Nat)).filter accepts =
      (parser.attempt limit first (0 : Nat) false).map fun _ => [] := by
  rw [deriveSequence]
  rcases h.attempt_eq_failed_or limit first false with hfirst | hfirst
  · rw [hfirst]
    rfl
  · rw [hfirst]
    rfl

/-- Without tokens, an attempt at a non-terminal is too deep exactly if one at the first member of
an alternative is, within one attempt less. -/
theorem attempt_eq_tooDeep_iff_exists_first (h : parser.Starved)
    (hterminal : symbol.isTerminal = false) :
    parser.attempt (limit + 1) symbol (0 : Nat) goal = .aborted .tooDeep ↔
      ∃ first rest, first :: rest ∈ parser.rules.alternatives symbol.name ∧
        parser.attempt limit first (0 : Nat) false = .aborted .tooDeep := by
  have hends : ∀ production ∈ parser.rules.alternatives symbol.name,
      (deriveSequence (fun member next => parser.attempt limit member next false) production
        (0 : Nat)).filter (parser.accepts goal) = .failed ∨
      (deriveSequence (fun member next => parser.attempt limit member next false) production
        (0 : Nat)).filter (parser.accepts goal) = .aborted .tooDeep := by
    intro production hproduction
    obtain ⟨first, rest, rfl⟩ :=
      List.exists_cons_of_ne_nil (h.production_ne_nil _ production hproduction)
    rw [h.filter_deriveSequence_cons, Attempt.map_eq_failed_iff, Attempt.map_eq_aborted_iff]
    exact h.attempt_eq_failed_or limit first false
  rw [attempt_nonterminal hterminal, Attempt.map_eq_aborted_iff, deriveFirst_eq_tooDeep_iff hends]
  constructor
  · rintro ⟨production, hproduction, hdeep⟩
    obtain ⟨first, rest, rfl⟩ :=
      List.exists_cons_of_ne_nil (h.production_ne_nil _ production hproduction)
    rw [h.filter_deriveSequence_cons, Attempt.map_eq_aborted_iff] at hdeep
    exact ⟨first, rest, hproduction, hdeep⟩
  · rintro ⟨first, rest, hproduction, hdeep⟩
    refine ⟨first :: rest, hproduction, ?_⟩
    rw [h.filter_deriveSequence_cons, Attempt.map_eq_aborted_iff, hdeep]

/-- Without tokens, a cycle of left corners exceeds every limit. -/
theorem attempt_eq_tooDeep (h : parser.Starved) (hterminal : symbol.isTerminal = false)
    (hcycle : parser.rules.MeetsLeftRecursion symbol.name) (limit : Nat) (goal : Bool) :
    parser.attempt limit symbol (0 : Nat) goal = .aborted .tooDeep := by
  induction limit generalizing symbol goal with
  | zero => rfl
  | succ limit ih =>
    obtain ⟨other, ⟨rest, hproduction⟩, hother⟩ := hcycle.exists_leftCorner
    have hdeep := @ih ⟨other, false⟩ rfl hother false
    exact (h.attempt_eq_tooDeep_iff_exists_first hterminal).mpr ⟨_, rest, hproduction, hdeep⟩

/-- Without tokens and cycles of left corners, a limit of two above the rank suffices: an attempt
for each left corner, one for the non-terminal itself, and one for a terminal. -/
theorem attempt_ne_tooDeep (h : parser.Starved)
    (hdeclared : ∀ name other, parser.rules.LeftCorner name other → other ∈ parser.rules.names)
    (hterminal : symbol.isTerminal = false)
    (hfree : ¬ parser.rules.MeetsLeftRecursion symbol.name)
    (hlimit : parser.rules.leftRank symbol.name + 2 ≤ limit) :
    parser.attempt limit symbol (0 : Nat) goal ≠ .aborted .tooDeep := by
  induction limit generalizing symbol goal with
  | zero => omega
  | succ limit ih =>
    rw [ne_eq, h.attempt_eq_tooDeep_iff_exists_first hterminal]
    rintro ⟨⟨other, isTerminal⟩, rest, hproduction, hdeep⟩
    cases isTerminal with
    | true =>
      -- There is one attempt left, which is all that a terminal needs.
      obtain ⟨limit, rfl⟩ := Nat.exists_eq_add_of_le' (show 1 ≤ limit by omega)
      obtain ⟨result, -, hresult⟩ :=
        @exists_settles_of_terminal parser ⟨other, true⟩ rfl 0 false
      rw [attempt_terminal rfl, hresult] at hdeep
      exact Attempt.settled_ne_aborted _ _ hdeep
    | false =>
      have hcorner : parser.rules.LeftCorner symbol.name other := ⟨rest, hproduction⟩
      have hother : ¬ parser.rules.MeetsLeftRecursion other := fun hmeets =>
        hfree (.of_leftCorner hcorner hmeets)
      have hrank := RuleTable.leftRank_lt_of_leftCorner hcorner (hdeclared _ _ hcorner)
        fun hrecursive => hother hrecursive.meetsLeftRecursion
      have hneed : parser.rules.leftRank other + 2 ≤ limit := by omega
      exact @ih ⟨other, false⟩ false rfl hother hneed hdeep

end Starved

end Parser

/-! ### Loaded grammars -/

namespace Grammar

variable {grammar : Grammar}

theorem WellFormed.starved (h : grammar.WellFormed) : (grammar.parser []).Starved :=
  ⟨rfl, h.production_ne_nil⟩

theorem WellFormed.mem_names_of_leftCorner (h : grammar.WellFormed) {name other : String}
    (hcorner : grammar.rules.LeftCorner name other) : other ∈ grammar.rules.names := by
  obtain ⟨rest, hproduction⟩ := hcorner
  exact h.declared name _ hproduction ⟨other, false⟩ (List.mem_cons_self ..) rfl

/-- Without left recursion at the start, a limit of one above the number of non-terminals suffices
for the empty input. -/
theorem WellFormed.parseWithin_nil_ne_tooDeep (h : grammar.WellFormed)
    (hfree : ¬ grammar.rules.MeetsLeftRecursion grammar.start.name) {limit : Nat}
    (hlimit : grammar.nonterminals.length + 1 ≤ limit) :
    (grammar.parser []).parseWithin limit ≠ .aborted .tooDeep := by
  have hrank : grammar.rules.leftRank grammar.start.name < grammar.nonterminals.length :=
    RuleTable.leftRank_lt_length h.start_declared fun hrecursive =>
      hfree hrecursive.meetsLeftRecursion
  have hneed : grammar.rules.leftRank grammar.start.name + 2 ≤ limit := by omega
  exact h.starved.attempt_ne_tooDeep (fun _ _ => h.mem_names_of_leftCorner) h.start_nonterminal
    hfree hneed

/-- **Progress, and the empty input.** Whatever a loaded grammar derives from a place ends further
to the right. So there is no tree for the empty input. If a left corner of the start symbol is
left-recursive, the empty input exceeds every limit; otherwise it has no derivation under any limit
from one above the number of non-terminals on. -/
theorem progress_and_empty_input (grammar : Grammar) (hloaded : grammar.IsLoaded) :
    (∀ (tokens : List Token) (limit : Nat) (symbol : Symbol) (index next : Int) (goal : Bool)
      (tree : Tree), 0 ≤ index → index ≤ tokens.length →
      (grammar.parser tokens).attempt limit symbol index goal = .derived tree next →
        index < next) ∧
    (∀ limit tree, ((grammar.parser []).runWithin limit).outcome ≠ .ok tree) ∧
    (grammar.rules.MeetsLeftRecursion grammar.start.name →
      ∀ limit, ((grammar.parser []).runWithin limit).outcome = .error .tooDeep) ∧
    (¬ grammar.rules.MeetsLeftRecursion grammar.start.name →
      ∀ limit ≥ grammar.nonterminals.length + 1,
        ((grammar.parser []).runWithin limit).outcome = .error .noDerivation) := by
  have hwell := hloaded.wellFormed
  have hends : ∀ limit, (grammar.parser []).parseWithin limit = .failed ∨
      (grammar.parser []).parseWithin limit = .aborted .tooDeep :=
    fun limit => hwell.starved.attempt_eq_failed_or limit grammar.start true
  refine ⟨?_, fun limit tree htree => ?_, fun hcycle limit => ?_, fun hfree limit hlimit => ?_⟩
  · intro tokens limit symbol index next goal tree hindex hlength hderived
    obtain ⟨place, rfl⟩ := Int.eq_ofNat_of_zero_le hindex
    have hplace : place ≤ tokens.length := by omega
    obtain ⟨last, rfl, -, hsettles⟩ := Parser.exists_place_of_derived hplace hderived
    exact Int.ofNat_lt.mpr (hsettles.lt_next hwell.production_ne_nil)
  · obtain ⟨next, hderived⟩ := Parser.outcome_runWithin_eq_ok_iff.mp htree
    rcases hends limit with hfailed | hdeep
    · cases hderived.symm.trans hfailed
    · cases hderived.symm.trans hdeep
  · exact Parser.outcome_runWithin_eq_tooDeep_iff.mpr
      (hwell.starved.attempt_eq_tooDeep hwell.start_nonterminal hcycle limit true)
  · exact Parser.outcome_runWithin_eq_noDerivation_iff.mpr
      ((hends limit).resolve_right (hwell.parseWithin_nil_ne_tooDeep hfree hlimit))

/-- The grammar of sums that are nested to the left: `Sum → Sum PLUS NUM | NUM`. -/
def leftSums : Grammar where
  rules := ⟨[("Sum", [[⟨"Sum", false⟩, ⟨"PLUS", true⟩, ⟨"NUM", true⟩], [⟨"NUM", true⟩]])], by simp⟩
  start := ⟨"Sum", false⟩
  terminalNames := ["LPAREN", "NUM", "PLUS", "RPAREN"]

theorem isLoaded_leftSums : leftSums.IsLoaded :=
  .ofLines sumTerminals (["Sum", "Sum PLUS NUM", "NUM"].map String.toList) rfl

theorem meetsLeftRecursion_leftSums : leftSums.rules.MeetsLeftRecursion "Sum" :=
  RuleTable.LeftRecursive.meetsLeftRecursion
    (.single ⟨[⟨"PLUS", true⟩, ⟨"NUM", true⟩], by decide⟩)

/-- Without tokens there is no sum that is nested to the right, and every limit is exceeded by sums
that are nested to the left. -/
theorem progress_and_empty_input_sums :
    (sums.IsLoaded ∧ ¬ sums.rules.MeetsLeftRecursion "Expr" ∧
      (∃ tree, (sums.parser numberAndSum).attempt 6 ⟨"Expr", false⟩ 3 false = .derived tree 4 ∧
        (3 : Int) < 4) ∧
      ∀ limit ≥ 3, ((sums.parser []).runWithin limit).outcome = .error .noDerivation) ∧
    leftSums.IsLoaded ∧ leftSums.rules.MeetsLeftRecursion "Sum" ∧
      ∀ limit, ((leftSums.parser []).runWithin limit).outcome = .error .tooDeep := by
  have hfree : ¬ sums.rules.MeetsLeftRecursion "Expr" :=
    leftRecursionFree_sums.not_meetsLeftRecursion
  obtain ⟨hprogress, -, -, hends⟩ := progress_and_empty_input sums isLoaded_sums
  obtain ⟨-, -, hdeep, -⟩ := progress_and_empty_input leftSums isLoaded_leftSums
  obtain ⟨tree, htree⟩ : ∃ tree,
      (sums.parser numberAndSum).attempt 6 ⟨"Expr", false⟩ 3 false = .derived tree 4 := ⟨_, rfl⟩
  exact ⟨⟨isLoaded_sums, hfree, ⟨tree, htree,
    hprogress numberAndSum 6 _ 3 4 false tree (by decide) (by decide) htree⟩, hends hfree⟩,
    isLoaded_leftSums, meetsLeftRecursion_leftSums, hdeep meetsLeftRecursion_leftSums⟩

end Grammar

end TokenGrammar
