import TokenGrammar.Proofs.Derivation.Attempt
import TokenGrammar.Proofs.Grammar.Loaded

/-!
# Dead alternatives

Suppose that one alternative of a name begins with an alternative that comes before it. Where the
shorter one is derived, it is taken, and the choice ends there. Where it fails, it fails at one of
its members, and the longer one has the same members in front of the same places, so it fails with
it; and where it is broken off, the longer one is not even tried. So the longer one is dead: taking
it out of the rule table changes no nested attempt, and does so under no limit.

The goal is different, because it passes over an alternative that leaves tokens over. The shorter
alternative may be passed over for this reason while the longer one uses up all tokens. So the name
of a dead alternative may notice that it is gone, but only as the start symbol.

## Main definitions

* `RuleTable.eraseAlternative` — the table without one of the alternatives of a name
* `RuleTable.Shadowed` — an alternative that begins with an earlier one

## Main results

* `deriveSequence_append` — a sequence in two parts
* `deriveFirst_append_cons` — an alternative that fails if all before it fail is never taken
* `attempt_eraseAlternative` — shadowed alternatives are dead, but for the goal
* `shadowed_alternative_dead` — attempts and derivations with and without a shadowed alternative
-/

namespace TokenGrammar

/-! ### Sequences in two parts -/

section Sequence

variable {derive : Symbol → Int → Attempt Tree} {index : Int} {short long : Production}

/-- The second part of a sequence is derived from where the first part ends. -/
theorem deriveSequence_append (derive : Symbol → Int → Attempt Tree) (before after : Production)
    (index : Int) :
    deriveSequence derive (before ++ after) index =
      (deriveSequence derive before index).bind fun trees next =>
        (deriveSequence derive after next).map (trees ++ ·) := by
  induction before generalizing index with
  | nil =>
    rw [List.nil_append, deriveSequence, Attempt.bind]
    cases deriveSequence derive after index <;> rfl
  | cons member rest ih =>
    rw [List.cons_append, deriveSequence, deriveSequence]
    -- Without a tree for the first member there is nothing to go on with, on either side.
    cases derive member index with
    | derived tree next =>
      change (deriveSequence derive (rest ++ after) next).map (tree :: ·) =
        ((deriveSequence derive rest next).map (tree :: ·)).bind fun trees last =>
          (deriveSequence derive after last).map (trees ++ ·)
      rw [ih, Attempt.map_bind, Attempt.bind_map]
      simp only [Attempt.map_map]
      rfl
    | failed => rfl
    | aborted cause => rfl

/-- A sequence fails if it begins with one that fails. -/
theorem deriveSequence_eq_failed_of_prefix (hbegins : short <+: long)
    (h : deriveSequence derive short index = .failed) :
    deriveSequence derive long index = .failed := by
  obtain ⟨rest, rfl⟩ := hbegins
  rw [deriveSequence_append, h]
  rfl

end Sequence

/-! ### Alternatives that are never taken -/

section First

variable {derive : Symbol → Int → Attempt Tree} {accepts : Int → Bool} {index : Int}
  {production : Production} {earlier later : List Production}

/-- If not all of the alternatives in front fail, those that follow are not tried. -/
theorem deriveFirst_append_of_ne_failed
    (h : deriveFirst derive accepts index earlier ≠ .failed) :
    deriveFirst derive accepts index (earlier ++ later) =
      deriveFirst derive accepts index earlier := by
  induction earlier with
  | nil => exact absurd rfl h
  | cons first earlier ih =>
    rw [List.cons_append]
    by_cases hfirst : (deriveSequence derive first index).filter accepts = .failed
    · rw [deriveFirst_cons_of_failed hfirst] at h ⊢
      rw [deriveFirst_cons_of_failed hfirst, ih h]
    · rw [deriveFirst_cons_of_ne_failed hfirst, deriveFirst_cons_of_ne_failed hfirst]

/-- An alternative that fails if all before it fail is never taken. -/
theorem deriveFirst_append_cons
    (h : (∀ other ∈ earlier, (deriveSequence derive other index).filter accepts = .failed) →
      (deriveSequence derive production index).filter accepts = .failed) :
    deriveFirst derive accepts index (earlier ++ production :: later) =
      deriveFirst derive accepts index (earlier ++ later) := by
  by_cases hearlier : deriveFirst derive accepts index earlier = .failed
  · -- The choice reaches the alternative, which fails as all others have done.
    have hfailed := deriveFirst_eq_failed_iff.mp hearlier
    rw [deriveFirst_append_of_failed hfailed, deriveFirst_append_of_failed hfailed,
      deriveFirst_cons_of_failed (h hfailed)]
  · -- The choice comes to an end before the alternative.
    rw [deriveFirst_append_of_ne_failed hearlier, deriveFirst_append_of_ne_failed hearlier]

end First

/-! ### Shadowed alternatives -/

namespace RuleTable

variable {table : RuleTable} {name other : String} {number : Nat}

/-- The table without one of the alternatives of a name. -/
def eraseAlternative (table : RuleTable) (name : String) (number : Nat) : RuleTable :=
  table.insert name ((table.alternatives name).eraseIdx number)

/-- The alternative of this number begins with an earlier alternative of the name, or is equal to
it. Members are the same only if they are of the same kind: in a table, one name may stand for a
terminal in one place and for a non-terminal in another. -/
def Shadowed (table : RuleTable) (name : String) (number : Nat) : Prop :=
  ∃ earlier < number, ∃ short long, (table.alternatives name)[earlier]? = some short ∧
    (table.alternatives name)[number]? = some long ∧ short <+: long

theorem alternatives_eraseAlternative_self (table : RuleTable) (name : String) (number : Nat) :
    (table.eraseAlternative name number).alternatives name =
      (table.alternatives name).eraseIdx number :=
  alternatives_insert_self ..

theorem alternatives_eraseAlternative_of_ne (h : other ≠ name) (number : Nat) :
    (table.eraseAlternative name number).alternatives other = table.alternatives other :=
  alternatives_insert_of_ne table h _

/-- The alternatives around a shadowed one, with one among those in front that it begins with. -/
theorem Shadowed.exists_split (h : table.Shadowed name number) :
    ∃ earlier long later, table.alternatives name = earlier ++ long :: later ∧
      (table.alternatives name).eraseIdx number = earlier ++ later ∧
        ∃ short ∈ earlier, short <+: long := by
  obtain ⟨first, hfirst, short, long, hshort, hlong, hbegins⟩ := h
  obtain ⟨hnumber, rfl⟩ := List.getElem?_eq_some_iff.mp hlong
  refine ⟨_, _, (table.alternatives name).drop (number + 1), ?_, List.eraseIdx_eq_take_drop_succ ..,
    short, ?_, hbegins⟩
  · rw [List.getElem_cons_drop hnumber, List.take_append_drop]
  · apply List.mem_of_getElem?
    rw [List.getElem?_take_of_lt hfirst, hshort]

end RuleTable

namespace Parser

variable {parser : Parser} {name : String} {number limit : Nat} {symbol : Symbol} {index : Int}
  {goal : Bool}

/-- The parser without one of the alternatives of a name. -/
def eraseAlternative (parser : Parser) (name : String) (number : Nat) : Parser :=
  { parser with rules := parser.rules.eraseAlternative name number }

/-- A nested attempt accepts every end. -/
theorem filter_accepts_nested {α : Type} (parser : Parser) (attempt : Attempt α) :
    attempt.filter (parser.accepts false) = attempt := by
  cases attempt <;> rfl

/-- A shadowed alternative is dead, except for the goal at its own name. -/
theorem attempt_eraseAlternative (hshadowed : parser.rules.Shadowed name number)
    (hgoal : goal = true → symbol.isTerminal = false → symbol.name ≠ name) :
    (parser.eraseAlternative name number).attempt limit symbol index goal =
      parser.attempt limit symbol index goal := by
  induction limit generalizing symbol index goal with
  | zero => rfl
  | succ limit ih =>
    cases hterminal : symbol.isTerminal with
    | true =>
      rw [attempt_terminal hterminal, attempt_terminal hterminal]
      rfl
    | false =>
      -- Members are never the goal, so they are derived alike within one limit less.
      have hmembers : (fun member next =>
            (parser.eraseAlternative name number).attempt limit member next false) =
          fun member next => parser.attempt limit member next false := by
        funext member next
        exact ih fun hgoal => absurd hgoal (by simp)
      have haccepts : (parser.eraseAlternative name number).accepts goal =
          parser.accepts goal := rfl
      rw [attempt_nonterminal hterminal, attempt_nonterminal hterminal, hmembers, haccepts]
      congr 1
      by_cases hname : symbol.name = name
      · obtain rfl : goal = false := Bool.eq_false_iff.mpr fun htrue => hgoal htrue hterminal hname
        obtain ⟨earlier, long, later, halternatives, herased, short, hshort, hbegins⟩ :=
          hshadowed.exists_split
        have hrules : (parser.eraseAlternative name number).rules.alternatives symbol.name =
            earlier ++ later := by
          rw [hname, ← herased]
          exact RuleTable.alternatives_eraseAlternative_self ..
        rw [hrules, hname, halternatives]
        apply (deriveFirst_append_cons fun hearlier => ?_).symm
        -- Every end is accepted, so to be passed over is to fail.
        have hfailed := hearlier short hshort
        rw [filter_accepts_nested] at hfailed ⊢
        exact deriveSequence_eq_failed_of_prefix hbegins hfailed
      · have hrules : (parser.eraseAlternative name number).rules.alternatives symbol.name =
            parser.rules.alternatives symbol.name :=
          RuleTable.alternatives_eraseAlternative_of_ne hname number
        rw [hrules]

theorem runWithin_eraseAlternative (hshadowed : parser.rules.Shadowed name number)
    (hstart : parser.start.isTerminal = false → parser.start.name ≠ name) (limit : Nat) :
    (parser.eraseAlternative name number).runWithin limit = parser.runWithin limit := by
  have hparse : (parser.eraseAlternative name number).parseWithin limit =
      parser.parseWithin limit :=
    attempt_eraseAlternative hshadowed fun _ => hstart
  rw [runWithin, runWithin, hparse]
  rfl

end Parser

/-! ### Loaded grammars -/

namespace Grammar

variable {grammar : Grammar} {name : String} {short long : Production}

/-- In a well-formed grammar a name is of one kind in all alternatives, so one alternative begins
with another as soon as its names do. -/
theorem WellFormed.prefix_of_map_name (h : grammar.WellFormed)
    (hshort : short ∈ grammar.rules.alternatives name)
    (hlong : long ∈ grammar.rules.alternatives name)
    (hnames : short.map Symbol.name <+: long.map Symbol.name) : short <+: long := by
  have hkinds : ∀ production ∈ grammar.rules.alternatives name,
      (production.map Symbol.name).map
        (fun name => (⟨name, decide (name ∈ grammar.terminalNames)⟩ : Symbol)) = production := by
    intro production hproduction
    rw [List.map_map]
    refine (List.map_congr_left fun symbol hsymbol => ?_).trans production.map_id
    have hkind := h.isTerminal_iff name production hproduction symbol hsymbol
    obtain ⟨name, isTerminal⟩ := symbol
    simp only [Function.comp_apply, id, Symbol.mk.injEq, true_and]
    exact Bool.eq_iff_iff.mpr (decide_eq_true_iff.trans hkind.symm)
  rw [← hkinds short hshort, ← hkinds long hlong]
  exact hnames.map _

end Grammar

/-- **Shadowed alternatives are dead below the goal.** Let an alternative of a name begin with an
earlier one, and take it out of the rule table. Then every nested attempt, at any symbol and from
any index, ends as before under the same limit; and so does the derivation of all tokens, unless the
name itself is the start symbol. In a loaded grammar it is enough that the names of the one
alternative begin with those of the other. -/
theorem Parser.shadowed_alternative_dead :
    (∀ (parser : Parser) (name : String) (number : Nat), parser.rules.Shadowed name number →
      (∀ limit symbol index,
        (parser.eraseAlternative name number).attempt limit symbol index false =
          parser.attempt limit symbol index false) ∧
      ((parser.start.isTerminal = false → parser.start.name ≠ name) → ∀ limit,
        (parser.eraseAlternative name number).runWithin limit = parser.runWithin limit)) ∧
    ∀ (grammar : Grammar) (name : String) (earlier number : Nat) (short long : Production),
      grammar.IsLoaded → earlier < number →
      (grammar.rules.alternatives name)[earlier]? = some short →
      (grammar.rules.alternatives name)[number]? = some long →
      short.map Symbol.name <+: long.map Symbol.name → grammar.rules.Shadowed name number := by
  refine ⟨fun parser name number hshadowed =>
      ⟨fun limit symbol index => ?_, fun hstart limit => ?_⟩,
    fun grammar name earlier number short long hloaded hlt hshort hlong hnames => ?_⟩
  · exact attempt_eraseAlternative hshadowed fun hgoal => absurd hgoal (by simp)
  · exact runWithin_eraseAlternative hshadowed hstart limit
  · exact ⟨earlier, hlt, short, long, hshort, hlong, hloaded.wellFormed.prefix_of_map_name
      (List.mem_of_getElem? hshort) (List.mem_of_getElem? hlong) hnames⟩

namespace Grammar

/-- The lines of a grammar with a shadowed alternative, `A B` after `A`. -/
def committedLines : List (List Char) :=
  ["Start", "Inner", "", "Inner", "A", "A B"].map String.toList

/-- The grammar of these lines. -/
def committed : Grammar where
  rules := ⟨[("Start", [[⟨"Inner", false⟩]]),
    ("Inner", [[⟨"A", true⟩], [⟨"A", true⟩, ⟨"B", true⟩]])], by simp⟩
  start := ⟨"Start", false⟩
  terminalNames := ["A", "B"]

/-- A token for each member of the shadowed alternative. -/
def oneOfEach : List Token := [⟨"A", "a", 1, 1⟩, ⟨"B", "b", 1, 2⟩]

end Grammar

open Grammar in
/-- From `Start` the two tokens are not derived, with or without the shadowed alternative of
`Inner`. From `Inner` they are, and only the shadowed alternative uses up both. -/
theorem Parser.shadowed_alternative_dead_committed :
    committed.IsLoaded ∧ committed.rules.Shadowed "Inner" 1 ∧
      (∀ limit symbol index,
        ((committed.parser oneOfEach).eraseAlternative "Inner" 1).attempt limit symbol index false =
          (committed.parser oneOfEach).attempt limit symbol index false) ∧
      (committed.start.isTerminal = false → committed.start.name ≠ "Inner") ∧
      (∀ limit, ((committed.parser oneOfEach).eraseAlternative "Inner" 1).runWithin limit =
        (committed.parser oneOfEach).runWithin limit) ∧
      let inner : Parser := { committed.parser oneOfEach with start := ⟨"Inner", false⟩ }
      (∃ tree, (inner.runWithin 2).outcome = .ok tree) ∧
        ((inner.eraseAlternative "Inner" 1).runWithin 2).outcome = .error .noDerivation := by
  have hloaded : committed.IsLoaded := .ofLines [⟨"A", ""⟩, ⟨"B", ""⟩] committedLines rfl
  have hshadowed : committed.rules.Shadowed "Inner" 1 :=
    shadowed_alternative_dead.2 committed "Inner" 0 1 _ _ hloaded (by decide) rfl rfl (by decide)
  have hstart : committed.start.isTerminal = false → committed.start.name ≠ "Inner" := by decide
  obtain ⟨hattempt, hrun⟩ :=
    shadowed_alternative_dead.1 (committed.parser oneOfEach) "Inner" 1 hshadowed
  exact ⟨hloaded, hshadowed, hattempt, hstart, hrun hstart, ⟨_, rfl⟩, rfl⟩

end TokenGrammar
