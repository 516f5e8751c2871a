import TokenGrammar.Proofs.Derivation.OrderedChoice

/-!
# Derivations from an index on

An attempt at an index sees the tokens from there on, and nothing in front of them. If the index is
negative, it counts from the end; it goes up while tokens are matched, and the index zero, which is
next after the last token, is that of the first one. So the attempt sees the tokens at the end and
then all tokens once more, and no token is left only after these.

This makes it an attempt at the index zero of another parser, whose tokens are those that are seen.
All indices differ by the same number: that where an attempt ends, that where the tokens end, and
that where the goal has to end.

## Main definitions

* `Attempt.shift` — the attempt with its end at another index
* `Parser.startingAt` — the parser with the tokens that are seen from an index on
* `Parser.token?` — the token that an index tells

## Main results

* `deriveSequence_shift`, `deriveFirst_shift` — if all attempts at members are shifted, so are those
  at sequences and choices
* `matchTerminal_startingAt` — both parsers see the same tokens
* `attempt_startingAt` — both parsers make the same attempts
* `tryDerive_eq_startingAt` — what is given back for an index, which is never at fault
-/

namespace TokenGrammar

/-! ### Shifted attempts -/

namespace Attempt

variable {α β : Type} {offset : Int}

/-- The attempt with its end moved by an offset. -/
def shift (offset : Int) : Attempt α → Attempt α
  | derived a next => derived a (next + offset)
  | failed => failed
  | aborted cause => aborted cause

@[simp] theorem shift_derived (a : α) (next : Int) :
    (derived a next).shift offset = derived a (next + offset) := rfl

@[simp] theorem shift_aborted (cause : Abort) :
    (aborted cause : Attempt α).shift offset = aborted cause := rfl

theorem map_shift (offset : Int) (f : α → β) (attempt : Attempt α) :
    (attempt.shift offset).map f = (attempt.map f).shift offset := by
  cases attempt <;> rfl

theorem filter_shift (accepts : Int → Bool) (attempt : Attempt α) :
    (attempt.shift (-offset)).filter (fun next => accepts (next + offset)) =
      (attempt.filter accepts).shift (-offset) := by
  cases attempt with
  | derived a next =>
    -- The end is asked about where it was before it was moved.
    simp only [shift_derived, filter, Int.neg_add_cancel_right]
    split <;> rfl
  | failed => rfl
  | aborted cause => rfl

/-- What is given back for a shifted attempt is shifted as well. -/
theorem report_shift (offset index : Int) (attempt : Attempt α) :
    ((attempt.shift (-offset)).report index).map (fun (result, next) => (result, next + offset)) =
      attempt.report (index + offset) := by
  cases attempt with
  | derived a next => simp [report, Except.map]
  | failed => rfl
  | aborted cause => rfl

theorem report_eq_error_iff {attempt : Attempt α} {index : Int} {cause : Abort} :
    attempt.report index = .error cause ↔ attempt = aborted cause := by
  cases attempt <;> simp [report]

end Attempt

section Shift

variable (derive : Symbol → Int → Attempt Tree) (offset : Int)

/-- The attempts of a derivation with all indices reduced by an offset. -/
def shiftedBack (symbol : Symbol) (index : Int) : Attempt Tree :=
  (derive symbol (index + offset)).shift (-offset)

theorem deriveSequence_shift (production : Production) (index : Int) :
    deriveSequence (shiftedBack derive offset) production index =
      (deriveSequence derive production (index + offset)).shift (-offset) := by
  induction production generalizing index with
  | nil => simp only [deriveSequence, Attempt.shift, Int.add_neg_cancel_right]
  | cons member rest ih =>
    rw [deriveSequence, deriveSequence, shiftedBack]
    cases derive member (index + offset) with
    | derived tree next =>
      -- The rest is derived from where the member ends, which is moved back and forth.
      simp only [Attempt.shift_derived, Attempt.bind]
      rw [ih, Int.neg_add_cancel_right, Attempt.map_shift]
    | failed => rfl
    | aborted cause => rfl

theorem deriveFirst_shift (accepts : Int → Bool) (index : Int) (productions : List Production) :
    deriveFirst (shiftedBack derive offset) (fun next => accepts (next + offset)) index
        productions =
      (deriveFirst derive accepts (index + offset) productions).shift (-offset) := by
  induction productions with
  | nil => rfl
  | cons production rest ih =>
    rw [deriveFirst, deriveFirst, deriveSequence_shift, Attempt.filter_shift]
    cases (deriveSequence derive production (index + offset)).filter accepts with
    | derived trees next => rfl
    | failed =>
      -- The alternative is passed over on both sides.
      exact ih
    | aborted cause => rfl

end Shift

/-! ### The tokens that are seen -/

namespace Parser

variable {parser : Parser} {limit : Nat} {symbol : Symbol} {index offset : Int} {goal : Bool}

/-- The parser with the tokens that are seen from an index on: those from the index to the end, and
then all tokens if the index is negative. -/
def startingAt (parser : Parser) (index : Int) : Parser :=
  { parser with
    tokens :=
      if index < 0 then
        parser.tokens.drop (index + parser.tokens.length).toNat ++ parser.tokens
      else parser.tokens.drop index.toNat }

/-- The token that an index tells, from the front or from the end. -/
def token? (parser : Parser) (index : Int) : Option Token :=
  if index < 0 then parser.tokens[(index + parser.tokens.length).toNat]?
  else parser.tokens[index.toNat]?

/-- A terminal matches the token that the index tells, if there is one. -/
theorem matchTerminal_eq (symbol : Symbol) (hlow : -(parser.tokens.length : Int) ≤ index) :
    parser.matchTerminal symbol index =
      (parser.token? index).elim .failed fun token =>
        if token.name = symbol.name then
          .derived (.leaf (.terminal token.name token.value)) (index + 1)
        else .failed := by
  rw [matchTerminal, token?]
  by_cases hend : (parser.tokens.length : Int) ≤ index
  · -- The index is after the last token, where none is told.
    have hnonneg : ¬ index < 0 := by omega
    rw [if_pos hend, if_neg hnonneg, List.getElem?_eq_none (by omega)]
    rfl
  · rw [if_neg hend]
    by_cases hneg : index < 0
    · have hplace : 0 ≤ index + parser.tokens.length ∧
          index + parser.tokens.length < parser.tokens.length := by omega
      simp only [placeOf, if_pos hneg, if_pos hplace]
      cases parser.tokens[(index + parser.tokens.length).toNat]? <;> rfl
    · have hplace : 0 ≤ index ∧ index < parser.tokens.length := by omega
      simp only [placeOf, if_neg hneg, if_pos hplace]
      cases parser.tokens[index.toNat]? <;> rfl

theorem length_startingAt (hlow : -(parser.tokens.length : Int) ≤ offset)
    (hhigh : offset ≤ parser.tokens.length) :
    ((parser.startingAt offset).tokens.length : Int) = parser.tokens.length - offset := by
  rw [startingAt]
  split
  · simp only [List.length_append, List.length_drop]
    omega
  · simp only [List.length_drop]
    omega

/-- Both parsers see the same tokens, at indices that differ by the offset. -/
theorem token?_startingAt (hlow : -(parser.tokens.length : Int) ≤ offset) (hindex : 0 ≤ index) :
    (parser.startingAt offset).token? index = parser.token? (index + offset) := by
  have hnonneg : ¬ index < 0 := by omega
  rw [token?, token?, if_neg hnonneg, startingAt]
  by_cases hoffset : offset < 0
  · simp only [if_pos hoffset]
    by_cases hsum : index + offset < 0
    · -- The token is one of those at the end.
      rw [if_pos hsum, List.getElem?_append_left (by rw [List.length_drop]; omega),
        List.getElem?_drop]
      congr 1
      omega
    · -- It is one of all tokens, which come after those at the end.
      rw [if_neg hsum, List.getElem?_append_right (by rw [List.length_drop]; omega),
        List.length_drop]
      congr 1
      omega
  · have hsum : ¬ index + offset < 0 := by omega
    simp only [if_neg hoffset]
    rw [if_neg hsum, List.getElem?_drop]
    congr 1
    omega

theorem matchTerminal_startingAt (symbol : Symbol) (hlow : -(parser.tokens.length : Int) ≤ offset)
    (hindex : 0 ≤ index) :
    (parser.startingAt offset).matchTerminal symbol index =
      (parser.matchTerminal symbol (index + offset)).shift (-offset) := by
  rw [matchTerminal_eq symbol (by omega), matchTerminal_eq symbol (by omega),
    token?_startingAt hlow hindex]
  cases parser.token? (index + offset) with
  | none => rfl
  | some token =>
    simp only [Option.elim]
    split
    · rw [Attempt.shift_derived, Int.add_right_comm index offset 1, Int.add_neg_cancel_right]
    · rfl

/-! ### The attempts that are made -/

/-- What is derived from an index that is not negative ends at one that is not negative. -/
theorem nonneg_of_derived {tree : Tree} {next : Int} (hindex : 0 ≤ index)
    (h : parser.attempt limit symbol index goal = .derived tree next) : 0 ≤ next := by
  obtain ⟨place, rfl⟩ := Int.eq_ofNat_of_zero_le hindex
  obtain ⟨result, -, hresult⟩ := exists_settles_of_ne_tooDeep (by rw [h]; simp)
  obtain ⟨last, -, rfl⟩ := Attempt.settled_eq_derived_iff.mp (hresult.symm.trans h)
  exact Int.natCast_nonneg last

/-- The goal has to end with the last token, which is told by shifted indices. -/
theorem accepts_startingAt (hlow : -(parser.tokens.length : Int) ≤ offset)
    (hhigh : offset ≤ parser.tokens.length) :
    (parser.startingAt offset).accepts goal = fun next => parser.accepts goal (next + offset) := by
  funext next
  have hlength := length_startingAt hlow hhigh
  rw [accepts, accepts, Bool.eq_iff_iff, Bool.or_eq_true, Bool.or_eq_true, beq_iff_eq, beq_iff_eq]
  -- It is the same goal on both sides, so only the two ends are to be compared.
  apply or_congr_right
  omega

/-- An attempt at an index is one at the tokens that are seen from an offset on, shifted by it. -/
theorem attempt_startingAt (hlow : -(parser.tokens.length : Int) ≤ offset)
    (hhigh : offset ≤ parser.tokens.length) (hindex : 0 ≤ index) :
    (parser.startingAt offset).attempt limit symbol index goal =
      (parser.attempt limit symbol (index + offset) goal).shift (-offset) := by
  induction limit generalizing symbol index goal with
  | zero => rfl
  | succ limit ih =>
    cases hterminal : symbol.isTerminal with
    | true =>
      rw [attempt_terminal hterminal, attempt_terminal hterminal]
      exact matchTerminal_startingAt symbol hlow hindex
    | false =>
      rw [attempt_nonterminal hterminal, attempt_nonterminal hterminal, ← Attempt.map_shift,
        ← deriveFirst_shift, ← accepts_startingAt hlow hhigh]
      congr 1
      -- Members are derived from indices that are not negative, where the induction hypothesis is
      -- known.
      exact deriveFirst_congr (p := fun place => 0 ≤ place)
        (fun member place tree next hplace => nonneg_of_derived hplace)
        (fun _ _ member _ place hplace => ih hplace) hindex

/-! ### What is given back -/

/-- **A derivation sees only the tokens from its index on.** Let an index tell a token or the end of
the tokens. To derive a symbol there, as the goal or not, gives back what deriving it at the index
zero from the tokens that are seen gives back, under the same limit: the same tree and an index that
is further on by that of the attempt, or no tree and the index of the attempt, or a derivation that
is broken off for the same cause. No index that comes up is at fault. -/
theorem tryDerive_eq_startingAt (parser : Parser) (limit : Nat) (symbol : Symbol) (index : Int)
    (goal : Bool) (hlow : -(parser.tokens.length : Int) ≤ index)
    (hhigh : index ≤ parser.tokens.length) :
    parser.tryDerive limit symbol index goal =
        ((parser.startingAt index).tryDerive limit symbol 0 goal).map
          (fun (tree?, next) => (tree?, next + index)) ∧
      ∀ fault, parser.tryDerive limit symbol index goal ≠ .error (.badIndex fault) := by
  have hattempt : (parser.startingAt index).attempt limit symbol 0 goal =
      (parser.attempt limit symbol index goal).shift (-index) := by
    rw [attempt_startingAt hlow hhigh le_rfl, Int.zero_add]
  constructor
  · rw [tryDerive, tryDerive, hattempt, Attempt.report_shift, Int.zero_add]
  · -- From the index zero an attempt ends with the result of ordered choice, or is too deep.
    intro fault hfault
    rw [Attempt.report_eq_error_iff.mp hfault, Attempt.shift_aborted] at hattempt
    rcases attempt_eq_tooDeep_or (parser.startingAt index) limit symbol 0 goal with
      hdeep | ⟨result, -, hresult⟩
    · cases hattempt.symm.trans hdeep
    · exact Attempt.settled_ne_aborted result _ (hresult.symm.trans hattempt)

/-- A rule for three tokens, and two tokens. -/
def threeOfTwo : Parser where
  tokens := [⟨"A", "x", 1, 1⟩, ⟨"A", "y", 1, 2⟩]
  rules := ⟨[("S", [[⟨"A", true⟩, ⟨"A", true⟩, ⟨"A", true⟩]])], by simp⟩
  start := ⟨"S", false⟩

/-- From the last of the two tokens on, three are seen, and the goal uses up all of them. -/
theorem tryDerive_eq_startingAt_threeOfTwo :
    -(threeOfTwo.tokens.length : Int) ≤ -1 ∧ (-1 : Int) ≤ threeOfTwo.tokens.length ∧
      (threeOfTwo.startingAt (-1)).tokens.map Token.value = ["y", "x", "y"] ∧
      ∃ tree, threeOfTwo.tryDerive 2 threeOfTwo.start (-1) true = .ok (some tree, 2) ∧
        tree.leaves.map Label.value = ["y", "x", "y"] ∧
        ∀ fault, threeOfTwo.tryDerive 2 threeOfTwo.start (-1) true ≠ .error (.badIndex fault) := by
  have hlow : -(threeOfTwo.tokens.length : Int) ≤ -1 := by decide
  have hhigh : (-1 : Int) ≤ threeOfTwo.tokens.length := by decide
  obtain ⟨hanswer, hfault⟩ :=
    tryDerive_eq_startingAt threeOfTwo 2 threeOfTwo.start (-1) true hlow hhigh
  obtain ⟨tree, hseen, hleaves⟩ : ∃ tree,
      (threeOfTwo.startingAt (-1)).tryDerive 2 threeOfTwo.start 0 true = .ok (some tree, 3) ∧
        tree.leaves.map Label.value = ["y", "x", "y"] := ⟨_, rfl, rfl⟩
  rw [hseen] at hanswer
  exact ⟨hlow, hhigh, rfl, tree, hanswer, hleaves, hfault⟩

/-- Before the first token, an index is at fault as soon as a token is asked for. -/
example : threeOfTwo.tryDerive 2 threeOfTwo.start (-3) true = .error (.badIndex .outOfRange) := by
  rfl

end Parser

end TokenGrammar
