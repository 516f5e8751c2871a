import Mathlib.Data.Finset.Prod
import Mathlib.Order.Monotone.Basic
import TokenGrammar.Loading
import TokenGrammar.Proofs.Derivation.OrderedChoice

/-!
# How deep attempts are nested

A larger limit lets more attempts come to an end. Below the goal there is one attempt for each
non-terminal and each place, so the limit can make a difference only finitely often; and once two
limits in a row make no difference, no larger one does. So there is a bound, which depends on the
number of non-terminals and of tokens only, beyond which no limit makes a difference.

## Main definitions

* `Parser.settledPlaces` — the non-terminals and places where attempts end within a limit
* `Parser.Agrees` — two limits make no difference below the goal

## Main results

* `settledPlaces_stable` — a bound beyond which no further attempt ends
* `attempt_stable` — beyond it, no limit makes a difference
* `runWithin_stable` — the same for derivations of all tokens
-/

namespace TokenGrammar

namespace Parser

variable {parser : Parser} {limit limit' : Nat} {symbol : Symbol} {index : Nat} {goal : Bool}

/-- The non-terminals and places where an attempt below the goal ends within a limit. -/
def settledPlaces (parser : Parser) (limit : Nat) : Finset (String × Nat) :=
  (parser.rules.names.toFinset ×ˢ Finset.range (parser.tokens.length + 1)).filter fun place =>
    parser.attempt limit ⟨place.1, false⟩ place.2 false ≠ .aborted .tooDeep

theorem mem_settledPlaces {name : String} :
    (name, index) ∈ parser.settledPlaces limit ↔
      (name ∈ parser.rules.names ∧ index ≤ parser.tokens.length) ∧
        parser.attempt limit ⟨name, false⟩ index false ≠ .aborted .tooDeep := by
  rw [settledPlaces, Finset.mem_filter, Finset.mem_product, List.mem_toFinset, Finset.mem_range,
    Nat.lt_succ_iff]

theorem settledPlaces_mono (parser : Parser) : Monotone parser.settledPlaces := by
  rintro limit limit' hlimit ⟨name, index⟩ hplace
  obtain ⟨hdeclared, hne⟩ := mem_settledPlaces.mp hplace
  exact mem_settledPlaces.mpr ⟨hdeclared, by rwa [attempt_mono hlimit hne]⟩

/-- There is a place for each non-terminal before each token, and after the last one. -/
theorem card_settledPlaces_le (parser : Parser) (limit : Nat) :
    (parser.settledPlaces limit).card ≤
      parser.rules.names.length * (parser.tokens.length + 1) := by
  calc
    _ ≤ (parser.rules.names.toFinset ×ˢ Finset.range (parser.tokens.length + 1)).card :=
      Finset.card_filter_le _ _
    _ = parser.rules.names.toFinset.card * (parser.tokens.length + 1) := by
      rw [Finset.card_product, Finset.card_range]
    _ ≤ _ := Nat.mul_le_mul_right _ (List.toFinset_card_le _)

/-- Two limits make no difference to attempts below the goal. -/
def Agrees (parser : Parser) (limit limit' : Nat) : Prop :=
  ∀ (symbol : Symbol) (index : Nat), index ≤ parser.tokens.length →
    parser.attempt limit symbol index false = parser.attempt limit' symbol index false

theorem Agrees.settledPlaces_eq (h : parser.Agrees limit limit') :
    parser.settledPlaces limit = parser.settledPlaces limit' := by
  ext ⟨name, index⟩
  simp only [mem_settledPlaces]
  refine and_congr_right fun hdeclared => ?_
  rw [h _ _ hdeclared.2]

/-- If the same attempts end, they end in the same way: those of terminals and of names without a
rule end at once. -/
theorem agrees_of_settledPlaces_eq (hlimit : limit ≤ limit')
    (h : parser.settledPlaces (limit + 1) = parser.settledPlaces (limit' + 1)) :
    parser.Agrees (limit + 1) (limit' + 1) := by
  intro symbol index hindex
  -- What ends within the smaller limit is kept; the question is what does not.
  by_cases hne : parser.attempt (limit + 1) symbol index false = .aborted .tooDeep
  · obtain ⟨name, isTerminal⟩ := symbol
    cases isTerminal with
    | true => rw [attempt_terminal rfl, attempt_terminal rfl]
    | false =>
      by_cases hdeclared : name ∈ parser.rules.names
      · -- If it ended within the larger limit, its place would be there for one of the two only.
        rw [hne]
        by_contra hne'
        have hmem := mem_settledPlaces.mpr ⟨⟨hdeclared, hindex⟩, Ne.symm hne'⟩
        exact (mem_settledPlaces.mp (h ▸ hmem)).2 hne
      · rw [attempt_nonterminal rfl, attempt_nonterminal rfl,
          RuleTable.alternatives_eq_nil hdeclared]
        rfl
  · exact (attempt_mono (by omega) hne).symm

/-- One attempt above, the goal included, two limits make no difference either. -/
theorem Agrees.attempt_succ (h : parser.Agrees limit limit')
    (hindex : index ≤ parser.tokens.length) :
    parser.attempt (limit + 1) symbol index goal =
      parser.attempt (limit' + 1) symbol index goal := by
  cases hterminal : symbol.isTerminal with
  | true => rw [attempt_terminal hterminal, attempt_terminal hterminal]
  | false =>
    rw [attempt_nonterminal hterminal, attempt_nonterminal hterminal]
    congr 1
    -- Members are asked for only where the members before them end.
    apply deriveFirst_congr (p := fun next => ∃ place : Nat,
      next = place ∧ place ≤ parser.tokens.length)
    · rintro member _ tree next ⟨place, rfl, hplace⟩ hderived
      obtain ⟨last, rfl, hlast, -⟩ := exists_place_of_derived hplace hderived
      exact ⟨last, rfl, hlast⟩
    · rintro production - member - _ ⟨place, rfl, hplace⟩
      exact h member place hplace
    · exact ⟨index, rfl, hindex⟩

/-- Once two limits in a row let the same attempts end, so do the next two. -/
theorem settledPlaces_succ_eq (h : parser.settledPlaces (limit + 1) =
      parser.settledPlaces (limit + 2)) :
    parser.settledPlaces (limit + 2) = parser.settledPlaces (limit + 3) := by
  have hagrees := agrees_of_settledPlaces_eq (Nat.le_succ limit) h
  -- The goal flag is not set below the goal, so one attempt above stays below it.
  exact Agrees.settledPlaces_eq fun _ _ hindex => hagrees.attempt_succ hindex

/-- The number of non-terminals and places bounds the limits that let another attempt end. -/
theorem settledPlaces_stable
    (hlimit : parser.rules.names.length * (parser.tokens.length + 1) ≤ limit) :
    parser.settledPlaces (parser.rules.names.length * (parser.tokens.length + 1) + 1) =
      parser.settledPlaces (limit + 1) := by
  have hsubset := fun {k k'} (hk : k ≤ k') => parser.settledPlaces_mono (Nat.succ_le_succ hk)
  -- The sets grow and are bounded in size, and two equal ones in a row are equal for ever.
  refine Finset.eq_of_subset_of_card_le (hsubset hlimit) (le_of_eq ?_)
  refine Nat.stabilises_of_monotone (f := fun k => (parser.settledPlaces (k + 1)).card)
    (fun k k' hk => Finset.card_le_card (hsubset hk))
    (fun k => parser.card_settledPlaces_le _) (fun k hcard => ?_) hlimit
  have heq := Finset.eq_of_subset_of_card_le (hsubset (Nat.le_succ k)) hcard.ge
  exact congrArg Finset.card (settledPlaces_succ_eq heq)

/-- Beyond the bound, no limit makes a difference. -/
theorem attempt_stable (hindex : index ≤ parser.tokens.length)
    (hlimit : parser.rules.names.length * (parser.tokens.length + 1) + 2 ≤ limit) :
    parser.attempt limit symbol index goal =
      parser.attempt (parser.rules.names.length * (parser.tokens.length + 1) + 2)
        symbol index goal := by
  obtain ⟨limit, rfl⟩ := Nat.exists_eq_add_of_le' (Nat.le_of_add_left_le hlimit)
  have hbound : parser.rules.names.length * (parser.tokens.length + 1) ≤ limit := by omega
  have hagrees := agrees_of_settledPlaces_eq hbound (settledPlaces_stable hbound)
  exact (hagrees.attempt_succ hindex).symm

/-! ### Derivations of all tokens -/

theorem runWithin_congr (h : parser.parseWithin limit = parser.parseWithin limit') :
    parser.runWithin limit = parser.runWithin limit' := by
  rw [runWithin, runWithin, h]

/-- **Finite nesting or overflow.** A derivation that is not nested too deeply ends in the same way
under every larger limit. From a bound on, which depends on the number of non-terminals and of
tokens only, every limit gives the same tree, or every limit fails, or else no limit suffices. -/
theorem runWithin_stable (parser : Parser) :
    (∀ limit limit', limit ≤ limit' → (parser.runWithin limit).outcome ≠ .error .tooDeep →
      parser.runWithin limit' = parser.runWithin limit) ∧
    let bound := parser.rules.names.length * (parser.tokens.length + 1) + 2
    (∃ tree, ∀ limit ≥ bound, (parser.runWithin limit).outcome = .ok tree) ∨
      (∀ limit ≥ bound, (parser.runWithin limit).outcome = .error .noDerivation) ∨
      ∀ limit, (parser.runWithin limit).outcome = .error .tooDeep := by
  constructor
  · intro limit limit' hlimit hne
    exact runWithin_congr
      (attempt_mono hlimit fun hdeep => hne (outcome_runWithin_eq_tooDeep_iff.mpr hdeep))
  · intro bound
    have hstable : ∀ limit ≥ bound, parser.parseWithin limit = parser.parseWithin bound :=
      fun limit hlimit => attempt_stable (Nat.zero_le _) hlimit
    -- The outcome at the bound decides which of the three holds.
    rcases parser.parseWithin_cases bound with ⟨tree, next, hderived⟩ | hfailed | hdeep
    · refine .inl ⟨tree, fun limit hlimit => outcome_runWithin_eq_ok_iff.mpr ⟨next, ?_⟩⟩
      rw [hstable limit hlimit, hderived]
    · refine .inr (.inl fun limit hlimit => outcome_runWithin_eq_noDerivation_iff.mpr ?_)
      rw [hstable limit hlimit, hfailed]
    · refine .inr (.inr fun limit => outcome_runWithin_eq_tooDeep_iff.mpr ?_)
      rcases le_total bound limit with hlimit | hlimit
      · rw [hstable limit hlimit, hdeep]
      · -- Below the bound, any other end would be kept up to it.
        by_contra hne
        exact hne ((attempt_mono hlimit hne).symm.trans hdeep)

/-- The two tokens need three nested attempts, and a fourth one makes no difference. -/
theorem runWithin_stable_doubled :
    3 ≤ 4 ∧ (doubled.runWithin 3).outcome ≠ .error .tooDeep ∧
      doubled.runWithin 4 = doubled.runWithin 3 := by
  have hne : (doubled.runWithin 3).outcome ≠ .error .tooDeep := by
    rw [ne_eq, outcome_runWithin_eq_tooDeep_iff]
    decide
  exact ⟨by decide, hne, (runWithin_stable doubled).1 3 4 (by decide) hne⟩

end Parser

end TokenGrammar
