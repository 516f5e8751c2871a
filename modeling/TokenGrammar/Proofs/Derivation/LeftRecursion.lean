import Mathlib.Data.Finset.Card
import Mathlib.Logic.Relation
import TokenGrammar.Loading
import TokenGrammar.Proofs.Derivation.Calls
import TokenGrammar.Proofs.Grammar.Loaded

/-!
# Left recursion

The first member of an alternative is derived where the alternative begins. As no alternative is
empty, every symbol that is derived uses up a token, and all other members are derived further to
the right. So calls stay at one place only along left corners; if no non-terminal is its own left
corner, directly or by way of others, each can be called at most once there, and calls are nested no
deeper than there are non-terminals and places.

## Main definitions

* `RuleTable.Refers`, `RuleTable.LeftCorner` — which non-terminals an alternative mentions, and
  which one it begins with
* `Grammar.LeftRecursionFree` — nothing that the start symbol leads to is its own left corner
* `RuleTable.leftRank` — how many non-terminals are left corners of one, directly or not

## Main results

* `SettlesAll.length_le` — each member of a sequence uses up a token
* `Invokes.need_lt` — what calls need decreases
* `calls_bounded` — without left recursion, every derivation comes to an end
-/

namespace TokenGrammar

namespace RuleTable

variable {table : RuleTable} {name other : String}

/-- An alternative of `name` mentions the non-terminal `other`. -/
def Refers (table : RuleTable) (name other : String) : Prop :=
  ∃ production ∈ table.alternatives name, ⟨other, false⟩ ∈ production

/-- An alternative of `name` begins with the non-terminal `other`. -/
def LeftCorner (table : RuleTable) (name other : String) : Prop :=
  ∃ rest, ⟨other, false⟩ :: rest ∈ table.alternatives name

/-- The non-terminals that `name` leads to. -/
def Reaches (table : RuleTable) : String → String → Prop := Relation.ReflTransGen table.Refers

/-- The non-terminal is a left corner of itself, directly or by way of others. -/
def LeftRecursive (table : RuleTable) (name : String) : Prop :=
  Relation.TransGen table.LeftCorner name name

open Classical in
/-- How many declared non-terminals are left corners of `name`, directly or not. -/
noncomputable def leftRank (table : RuleTable) (name : String) : Nat :=
  (table.names.toFinset.filter (Relation.TransGen table.LeftCorner name)).card

theorem leftRank_lt_of_leftCorner (hcorner : table.LeftCorner name other)
    (hdeclared : other ∈ table.names) (hfree : ¬ table.LeftRecursive other) :
    table.leftRank other < table.leftRank name := by
  classical
  refine Finset.card_lt_card (Finset.ssubset_iff_of_subset ?_ |>.mpr ⟨other, ?_, ?_⟩)
  · -- Every corner of a left corner is a corner itself.
    intro third hthird
    obtain ⟨hmem, hbelow⟩ := Finset.mem_filter.mp hthird
    exact Finset.mem_filter.mpr ⟨hmem, .head hcorner hbelow⟩
  · exact Finset.mem_filter.mpr ⟨List.mem_toFinset.mpr hdeclared, .single hcorner⟩
  · -- The left corner itself is one, but not one of its own.
    intro hother
    exact hfree (Finset.mem_filter.mp hother).2

theorem leftRank_lt_length (hdeclared : name ∈ table.names) (hfree : ¬ table.LeftRecursive name) :
    table.leftRank name < table.names.length := by
  classical
  calc
    table.leftRank name < table.names.toFinset.card := by
      refine Finset.card_lt_card (Finset.filter_ssubset.mpr ⟨name, ?_, hfree⟩)
      exact List.mem_toFinset.mpr hdeclared
    _ ≤ table.names.length := List.toFinset_card_le _

end RuleTable

/-- No non-terminal that the start symbol leads to is left-recursive. -/
def Grammar.LeftRecursionFree (grammar : Grammar) : Prop :=
  ∀ name, grammar.rules.Reaches grammar.start.name name → ¬ grammar.rules.LeftRecursive name

namespace Parser

variable {parser : Parser}

/-! ### Progress -/

mutual

/-- Without empty alternatives, every symbol uses up a token. -/
theorem Settles.lt_next {symbol : Symbol} {index next : Nat} {goal : Bool} {tree : Tree}
    (h : parser.Settles symbol index goal (some (tree, next)))
    (hne : ∀ name, ∀ production ∈ parser.rules.alternatives name, production ≠ []) :
    index < next := by
  match h with
  | .matched _ _ _ => exact Nat.lt_succ_self index
  | @Settles.chosen _ _ _ _ _ production _ _ _ _ halternatives _ hproduction _ =>
    -- The alternative has at least one member.
    have hlength := List.length_pos_iff.mpr (hne symbol.name production (by simp [halternatives]))
    have hnext := hproduction.length_le hne
    omega

/-- Without empty alternatives, a sequence uses up at least as many tokens as it has members. -/
theorem SettlesAll.length_le {production : Production} {index next : Nat} {trees : List Tree}
    (h : parser.SettlesAll production index (some (trees, next)))
    (hne : ∀ name, ∀ production ∈ parser.rules.alternatives name, production ≠ []) :
    index + production.length ≤ next := by
  match h with
  | .nil => exact le_rfl
  | .cons hmember hrest =>
    have hmiddle := hmember.lt_next hne
    have hlast := hrest.length_le hne
    rw [List.length_cons]
    omega

end

/-! ### What calls need -/

/-- The call is at a place that a derivation of all tokens reaches, for a symbol that it reaches. -/
structure Covers (parser : Parser) (call : Call) : Prop where
  index_le : call.index ≤ parser.tokens.length
  reaches : call.symbol.isTerminal = false →
    parser.rules.Reaches parser.start.name call.symbol.name

theorem covers_rootCall (parser : Parser) : parser.Covers parser.rootCall :=
  ⟨Nat.zero_le _, fun _ => .refl⟩

theorem Covers.of_invokes {call call' : Call} (h : parser.Covers call)
    (hinvokes : parser.Invokes call call') : parser.Covers call' := by
  obtain @⟨symbol, ⟨name, isTerminal⟩, index, next, goal, before, after, earlier, later, trees,
    hterminal, halternatives, -, hbefore⟩ := hinvokes
  constructor
  · exact (hbefore.bounds h.index_le).2
  · rintro rfl
    have hproduction :
        before ++ ⟨name, false⟩ :: after ∈ parser.rules.alternatives symbol.name := by
      simp [halternatives]
    exact (h.reaches hterminal).tail ⟨_, hproduction, by simp⟩

/-- How deep calls below this one may be nested: a terminal needs no other call, and a non-terminal
first its left corners, then everything further to the right. -/
noncomputable def need (parser : Parser) (call : Call) : Nat :=
  if call.symbol.isTerminal then 1
  else (parser.tokens.length - call.index) * parser.rules.names.length +
    parser.rules.leftRank call.symbol.name + 2

theorem need_pos (parser : Parser) (call : Call) : 0 < parser.need call := by
  rw [need]
  split <;> omega

/-- The rules that a derivation reaches declare their names, have no empty alternatives and no
left recursion. -/
structure Descends (parser : Parser) : Prop where
  production_ne_nil : ∀ name, ∀ production ∈ parser.rules.alternatives name, production ≠ []
  declared : ∀ name, parser.rules.Reaches parser.start.name name → name ∈ parser.rules.names
  not_leftRecursive : ∀ name, parser.rules.Reaches parser.start.name name →
    ¬ parser.rules.LeftRecursive name

/-- A call needs more than each call that it makes. -/
theorem Invokes.need_lt {call call' : Call} (hinvokes : parser.Invokes call call')
    (h : parser.Descends) (hcovers : parser.Covers call) :
    parser.need call' < parser.need call := by
  obtain ⟨hindex, hreaches⟩ := hcovers.of_invokes hinvokes
  obtain @⟨symbol, ⟨name, isTerminal⟩, index, next, goal, before, after, earlier, later, trees,
    hterminal, halternatives, -, hbefore⟩ := hinvokes
  cases isTerminal with
  | true => simp [need, hterminal]
  | false =>
    have hname := hreaches rfl
    have hdeclared := h.declared name hname
    have hfree := h.not_leftRecursive name hname
    simp only [need, hterminal, Bool.false_eq_true, if_false]
    cases before with
    | nil =>
      -- The first member stays at the place, but is one corner further down.
      cases hbefore
      have hcorner : parser.rules.LeftCorner symbol.name name :=
        ⟨after, by simp [halternatives]⟩
      have hrank := RuleTable.leftRank_lt_of_leftCorner hcorner hdeclared hfree
      omega
    | cons first before =>
      -- Any other member is further to the right, which outweighs every rank.
      have hnext := hbefore.length_le h.production_ne_nil
      have hrank := RuleTable.leftRank_lt_length hdeclared hfree
      rw [List.length_cons] at hnext
      have hright : parser.tokens.length - next + 1 ≤ parser.tokens.length - index := by
        simp only at hindex
        omega
      have hstep := Nat.mul_le_mul_right parser.rules.names.length hright
      rw [Nat.succ_mul] at hstep
      omega

/-- A chain of calls is no longer than the first one needs. -/
theorem Descends.length_le_need (h : parser.Descends) {call : Call} {calls : List Call}
    (hcovers : parser.Covers call) (hchain : (call :: calls).IsChain parser.Invokes) :
    (call :: calls).length ≤ parser.need call := by
  induction calls generalizing call with
  | nil => exact parser.need_pos call
  | cons call' calls ih =>
    obtain ⟨hinvokes, hchain'⟩ := List.isChain_cons_cons.mp hchain
    have hlength := ih (hcovers.of_invokes hinvokes) hchain'
    have hlt := hinvokes.need_lt h hcovers
    rw [List.length_cons]
    omega

end Parser

namespace Grammar

variable {grammar : Grammar}

/-- There is no left recursion if every left corner has a lower rank. -/
theorem LeftRecursionFree.of_rank (rank : String → Nat)
    (h : ∀ name other, grammar.rules.LeftCorner name other → rank other < rank name) :
    grammar.LeftRecursionFree := by
  intro name _ hcycle
  have hlt : ∀ other, Relation.TransGen grammar.rules.LeftCorner name other →
      rank other < rank name := by
    intro other hpath
    induction hpath with
    | single hcorner => exact h _ _ hcorner
    | tail _ hcorner ih => exact (h _ _ hcorner).trans ih
  exact lt_irrefl _ (hlt name hcycle)

/-- The start symbol of a well-formed grammar leads to declared names only. -/
theorem WellFormed.mem_names_of_reaches (h : grammar.WellFormed) {name : String}
    (hreaches : grammar.rules.Reaches grammar.start.name name) : name ∈ grammar.rules.names := by
  cases hreaches with
  | refl => exact h.start_declared
  | tail _ hrefers =>
    obtain ⟨production, hproduction, hmem⟩ := hrefers
    exact h.declared _ production hproduction _ hmem rfl

theorem WellFormed.descends (h : grammar.WellFormed) (hfree : grammar.LeftRecursionFree)
    (tokens : List Token) : (grammar.parser tokens).Descends :=
  ⟨h.production_ne_nil, fun _ => h.mem_names_of_reaches, hfree⟩

/-- What the goal needs under a well-formed grammar without left recursion. -/
theorem WellFormed.need_rootCall_le (h : grammar.WellFormed) (hfree : grammar.LeftRecursionFree)
    (tokens : List Token) :
    (grammar.parser tokens).need (grammar.parser tokens).rootCall ≤
      grammar.nonterminals.length * (tokens.length + 1) + 1 := by
  have hrank := RuleTable.leftRank_lt_length h.start_declared (hfree _ .refl)
  simp only [Parser.need, Parser.rootCall, parser, h.start_nonterminal, Bool.false_eq_true,
    if_false, nonterminals, Nat.sub_zero]
  rw [Nat.mul_succ, Nat.mul_comm grammar.rules.names.length]
  omega

/-- Without left recursion, no derivation is nested too deeply under a limit that large. -/
theorem WellFormed.parseWithin_ne_tooDeep (h : grammar.WellFormed)
    (hfree : grammar.LeftRecursionFree) (tokens : List Token) {limit : Nat}
    (hlimit : grammar.nonterminals.length * (tokens.length + 1) + 1 ≤ limit) :
    (grammar.parser tokens).parseWithin limit ≠ .aborted .tooDeep := by
  change (grammar.parser tokens).attemptAt limit (grammar.parser tokens).rootCall ≠ _
  refine Parser.attempt_ne_tooDeep_iff.mpr fun calls hchain => ?_
  have hlength := (h.descends hfree tokens).length_le_need (Parser.covers_rootCall _) hchain
  exact hlength.trans ((h.need_rootCall_le hfree tokens).trans hlimit)

/-- **Termination without left recursion.** If the start symbol of a loaded grammar leads to no
left recursion, calls are nested no deeper than a bound that depends on the number of non-terminals
and of tokens only. Under every limit from there on, a derivation ends with a tree, or because there
is none. -/
theorem calls_bounded (grammar : Grammar) (tokens : List Token) (hloaded : grammar.IsLoaded)
    (hfree : grammar.LeftRecursionFree) :
    let parser := grammar.parser tokens
    let bound := grammar.nonterminals.length * (tokens.length + 1) + 1
    (∀ calls, (parser.rootCall :: calls).IsChain parser.Invokes →
      (parser.rootCall :: calls).length ≤ bound) ∧
    ∀ limit ≥ bound, (∃ tree, (parser.runWithin limit).outcome = .ok tree) ∨
      (parser.runWithin limit).outcome = .error .noDerivation := by
  intro parser bound
  have hwell := hloaded.wellFormed
  have hcalls : ∀ calls, (parser.rootCall :: calls).IsChain parser.Invokes →
      (parser.rootCall :: calls).length ≤ bound := by
    intro calls hchain
    exact ((hwell.descends hfree tokens).length_le_need parser.covers_rootCall hchain).trans
      (hwell.need_rootCall_le hfree tokens)
  refine ⟨hcalls, fun limit hlimit => ?_⟩
  have hne : parser.parseWithin limit ≠ .aborted .tooDeep :=
    Parser.attempt_ne_tooDeep_iff.mpr fun calls hchain => (hcalls calls hchain).trans hlimit
  rcases parser.parseWithin_cases limit with ⟨tree, next, hderived⟩ | hfailed | hdeep
  · exact .inl ⟨tree, Parser.outcome_runWithin_eq_ok_iff.mpr ⟨next, hderived⟩⟩
  · exact .inr (Parser.outcome_runWithin_eq_noDerivation_iff.mpr hfailed)
  · exact absurd hdeep hne

/-- In sums, `Expr` begins with `Term`, which begins with terminals. -/
theorem leftRecursionFree_sums : sums.LeftRecursionFree := by
  have hcorner : ∀ {name other}, sums.rules.LeftCorner name other →
      name = "Expr" ∧ other = "Term" := by
    rintro name other ⟨rest, hproduction⟩
    obtain ⟨entry, hentry, rfl, hmem⟩ := RuleTable.exists_entry_of_mem_alternatives hproduction
    simp only [sums, List.mem_cons, List.not_mem_nil, or_false] at hentry
    rcases hentry with rfl | rfl
    · simp only [List.mem_cons, List.cons.injEq, Symbol.mk.injEq, List.not_mem_nil, or_false]
        at hmem
      rcases hmem with ⟨⟨rfl, -⟩, -⟩ | ⟨⟨rfl, -⟩, -⟩ <;> exact ⟨rfl, rfl⟩
    · simp at hmem
  intro name _ hcycle
  -- A cycle at a name would begin and end there.
  obtain ⟨_, hfirst, -⟩ := Relation.TransGen.head'_iff.mp hcycle
  obtain ⟨_, -, hlast⟩ := Relation.TransGen.tail'_iff.mp hcycle
  have hname := (hcorner hfirst).1.symm.trans (hcorner hlast).2
  simp at hname

/-- Two non-terminals and five tokens call for no more than thirteen nested attempts. -/
theorem calls_bounded_sums :
    sums.IsLoaded ∧ sums.LeftRecursionFree ∧
      (∀ calls, ((sums.parser numberAndSum).rootCall :: calls).IsChain
        (sums.parser numberAndSum).Invokes → calls.length < 13) ∧
      ∀ limit ≥ 13, (∃ tree, ((sums.parser numberAndSum).runWithin limit).outcome = .ok tree) ∨
        ((sums.parser numberAndSum).runWithin limit).outcome = .error .noDerivation := by
  obtain ⟨hcalls, hends⟩ := calls_bounded sums numberAndSum isLoaded_sums leftRecursionFree_sums
  exact ⟨isLoaded_sums, leftRecursionFree_sums, hcalls, hends⟩

end Grammar

end TokenGrammar
