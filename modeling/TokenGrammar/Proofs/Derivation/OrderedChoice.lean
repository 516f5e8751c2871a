import Mathlib.Order.Filter.AtTopBot.Basic
import Mathlib.Order.Filter.Finite
import TokenGrammar.Proofs.Derivation.Attempt

/-!
# Ordered choice without a limit

What ordered choice means is said by rules that know of no limit: a terminal matches one token, a
sequence stops at the first member that fails, and a non-terminal takes the first alternative that
is not rejected. That all alternatives before it are rejected is a premise of the rule, so the rules
assign results to attempts only where each of those attempts comes to an end.

An attempt of the parser either is nested beyond its limit or ends with the result that the rules
assign; and where they assign a result, every limit that is large enough gives it.

## Main definitions

* `Parser.Settles` — the result of deriving a symbol at a place
* `Parser.SettlesAll` — the result of deriving the members of a sequence one after the other
* `Parser.Rejects` — an alternative fails, or ends where it is not accepted

## Main results

* `Settles.unique` — there is at most one result
* `attempt_eq_tooDeep_or` — an attempt within a limit ends with the result, or is nested too deeply
* `Settles.eventually_attempt_eq` — large limits give the result
* `orderedChoice_adequate` — both directions together
-/

namespace TokenGrammar

namespace Parser

mutual

/-- How deriving a symbol at a place ends by ordered choice: with a tree and the place after its
last token, or without one. The goal of a derivation has to use up all tokens. -/
inductive Settles (parser : Parser) : Symbol → Nat → Bool → Option (Tree × Nat) → Prop
  /-- A terminal matches a token of its name. -/
  | matched {symbol : Symbol} {index : Nat} {goal : Bool} {token : Token}
      (hterminal : symbol.isTerminal = true) (htoken : parser.tokens[index]? = some token)
      (hname : token.name = symbol.name) :
      Settles parser symbol index goal
        (some (.leaf (.terminal token.name token.value), index + 1))
  /-- It fails on any other token, and after the last one. -/
  | unmatched {symbol : Symbol} {index : Nat} {goal : Bool}
      (hterminal : symbol.isTerminal = true)
      (htoken : ∀ token, parser.tokens[index]? = some token → token.name ≠ symbol.name) :
      Settles parser symbol index goal none
  /-- A non-terminal takes an alternative if all alternatives before it are rejected. -/
  | chosen {symbol : Symbol} {index next : Nat} {goal : Bool} {production : Production}
      {earlier later : List Production} {children : List Tree}
      (hterminal : symbol.isTerminal = false)
      (halternatives :
        parser.rules.alternatives symbol.name = earlier ++ production :: later)
      (hearlier : ∀ other ∈ earlier, Rejects parser other index goal)
      (hproduction : SettlesAll parser production index (some (children, next)))
      (hgoal : goal = true → next = parser.tokens.length) :
      Settles parser symbol index goal
        (some (.node (.nonterminal symbol.name) children, next))
  /-- It fails if all its alternatives are rejected. -/
  | exhausted {symbol : Symbol} {index : Nat} {goal : Bool}
      (hterminal : symbol.isTerminal = false)
      (hall : ∀ production ∈ parser.rules.alternatives symbol.name,
        Rejects parser production index goal) :
      Settles parser symbol index goal none

/-- How deriving the members of a sequence ends, each from where the one before it ended. -/
inductive SettlesAll (parser : Parser) : Production → Nat → Option (List Tree × Nat) → Prop
  | nil {index : Nat} : SettlesAll parser [] index (some ([], index))
  | cons {member : Symbol} {rest : Production} {index next last : Nat} {tree : Tree}
      {trees : List Tree} (hmember : Settles parser member index false (some (tree, next)))
      (hrest : SettlesAll parser rest next (some (trees, last))) :
      SettlesAll parser (member :: rest) index (some (tree :: trees, last))
  | headFails {member : Symbol} {rest : Production} {index : Nat}
      (hmember : Settles parser member index false none) :
      SettlesAll parser (member :: rest) index none
  | tailFails {member : Symbol} {rest : Production} {index next : Nat} {tree : Tree}
      (hmember : Settles parser member index false (some (tree, next)))
      (hrest : SettlesAll parser rest next none) :
      SettlesAll parser (member :: rest) index none

/-- An alternative is rejected at a place: it fails there, or it is to use up all tokens and ends
elsewhere. -/
inductive Rejects (parser : Parser) : Production → Nat → Bool → Prop
  | fails {production : Production} {index : Nat} {goal : Bool}
      (hproduction : SettlesAll parser production index none) :
      Rejects parser production index goal
  | endsEarly {production : Production} {index next : Nat} {children : List Tree}
      (hproduction : SettlesAll parser production index (some (children, next)))
      (hnext : next ≠ parser.tokens.length) :
      Rejects parser production index true

end

variable {parser : Parser}

/-! ### There is at most one result -/

/-- Two ways to single out a member of a list either agree, or one of the two members comes before
the other. -/
private theorem split_trichotomy {α : Type} {earlier earlier' later later' : List α} {a a' : α}
    (h : earlier ++ a :: later = earlier' ++ a' :: later') :
    a = a' ∨ a ∈ earlier' ∨ a' ∈ earlier := by
  -- Whichever part in front is longer contains the member of the other, unless both are equal.
  rcases List.append_eq_append_iff.mp h with ⟨between, hearlier, hrest⟩ |
    ⟨between, hearlier, hrest⟩
  · cases between with
    | nil => exact .inl (List.cons.inj hrest).1
    | cons b between =>
      obtain ⟨rfl, -⟩ := List.cons.inj hrest
      exact .inr (.inl (by simp [hearlier]))
  · cases between with
    | nil => exact .inl (List.cons.inj hrest).1.symm
    | cons b between =>
      obtain ⟨rfl, -⟩ := List.cons.inj hrest
      exact .inr (.inr (by simp [hearlier]))

mutual

/-- Ordered choice gives a symbol at most one result at a place. -/
theorem Settles.unique {symbol : Symbol} {index : Nat} {goal : Bool}
    {result : Option (Tree × Nat)} (h : parser.Settles symbol index goal result) :
    ∀ result', parser.Settles symbol index goal result' → result = result' := by
  match h with
  | .matched hterminal htoken hname =>
    intro result' h'
    cases h' with
    | matched _ htoken' _ => rw [Option.some.inj (htoken.symm.trans htoken')]
    | unmatched _ htoken' => exact absurd hname (htoken' _ htoken)
    | chosen hterminal' => simp [hterminal] at hterminal'
    | exhausted hterminal' => simp [hterminal] at hterminal'
  | .unmatched hterminal htoken =>
    intro result' h'
    cases h' with
    | matched _ htoken' hname' => exact absurd hname' (htoken _ htoken')
    | unmatched => rfl
    | chosen hterminal' => simp [hterminal] at hterminal'
    | exhausted => rfl
  | @Settles.chosen _ _ _ _ _ production _ _ _ hterminal halternatives hearlier hproduction
      hgoal =>
    intro result' h'
    have hrejected := fun other hother => (hearlier other hother).not_accepted
    have hunique := hproduction.unique
    -- Another result needs this alternative rejected, or an earlier one accepted.
    have hkept : ¬ parser.Rejects production index goal := by
      rintro (hfails | ⟨hends, hnext⟩)
      · cases hunique _ hfails
      · cases hunique _ hends
        exact hnext (hgoal rfl)
    cases h' with
    | matched hterminal' => simp [hterminal] at hterminal'
    | unmatched hterminal' => simp [hterminal] at hterminal'
    | chosen _ halternatives' hearlier' hproduction' hgoal' =>
      rcases split_trichotomy (halternatives.symm.trans halternatives') with rfl | hmem | hmem
      · cases hunique _ hproduction'
        rfl
      · exact absurd (hearlier' _ hmem) hkept
      · exact absurd hgoal' (hrejected _ hmem _ _ hproduction')
    | exhausted _ hall => exact absurd (hall production (by simp [halternatives])) hkept
  | .exhausted hterminal hall =>
    intro result' h'
    -- No alternative is accepted, so none can be chosen.
    have hrejected := fun production hproduction => (hall production hproduction).not_accepted
    cases h' with
    | matched hterminal' => simp [hterminal] at hterminal'
    | unmatched => rfl
    | @chosen _ _ _ _ production _ _ _ _ halternatives' _ hproduction' hgoal' =>
      exact absurd hgoal' (hrejected production (by simp [halternatives']) _ _ hproduction')
    | exhausted => rfl

/-- Ordered choice gives a sequence at most one result at a place. -/
theorem SettlesAll.unique {production : Production} {index : Nat}
    {result : Option (List Tree × Nat)} (h : parser.SettlesAll production index result) :
    ∀ result', parser.SettlesAll production index result' → result = result' := by
  match h with
  | .nil =>
    intro result' h'
    cases h' with
    | nil => rfl
  | .cons hmember hrest =>
    intro result' h'
    have hunique := hmember.unique
    have huniqueRest := hrest.unique
    cases h' with
    | cons hmember' hrest' =>
      cases hunique _ hmember'
      cases huniqueRest _ hrest'
      rfl
    | headFails hmember' => cases hunique _ hmember'
    | tailFails hmember' hrest' =>
      cases hunique _ hmember'
      cases huniqueRest _ hrest'
  | .headFails hmember =>
    intro result' h'
    have hunique := hmember.unique
    cases h' with
    | cons hmember' => cases hunique _ hmember'
    | headFails => rfl
    | tailFails => rfl
  | .tailFails hmember hrest =>
    intro result' h'
    have hunique := hmember.unique
    have huniqueRest := hrest.unique
    cases h' with
    | cons hmember' hrest' =>
      cases hunique _ hmember'
      cases huniqueRest _ hrest'
    | headFails => rfl
    | tailFails => rfl

/-- An alternative that is rejected at a place does not end where it is accepted. -/
theorem Rejects.not_accepted {production : Production} {index : Nat} {goal : Bool}
    (h : parser.Rejects production index goal) :
    ∀ children next, parser.SettlesAll production index (some (children, next)) →
      ¬ (goal = true → next = parser.tokens.length) := by
  match h with
  | .fails hfails =>
    intro children next h'
    cases hfails.unique _ h'
  | .endsEarly hends hnext =>
    intro children next h'
    -- A sequence has one end only, and this one is not where the tokens end.
    cases hends.unique _ h'
    exact fun hgoal => hnext (hgoal rfl)

end

/-! ### Places -/

mutual

/-- What is derived begins where it is asked for and ends no later than the tokens do. -/
theorem Settles.bounds {symbol : Symbol} {index next : Nat} {goal : Bool} {tree : Tree}
    (h : parser.Settles symbol index goal (some (tree, next)))
    (hindex : index ≤ parser.tokens.length) :
    index ≤ next ∧ next ≤ parser.tokens.length := by
  match h with
  | .matched _ htoken _ =>
    have hlt : index < parser.tokens.length := (List.getElem?_eq_some_iff.mp htoken).1
    omega
  | .chosen _ _ _ hproduction _ => exact hproduction.bounds hindex

/-- A sequence begins where it is asked for and ends no later than the tokens do. -/
theorem SettlesAll.bounds {production : Production} {index next : Nat} {trees : List Tree}
    (h : parser.SettlesAll production index (some (trees, next)))
    (hindex : index ≤ parser.tokens.length) :
    index ≤ next ∧ next ≤ parser.tokens.length := by
  match h with
  | .nil => exact ⟨le_rfl, hindex⟩
  | .cons hmember hrest =>
    obtain ⟨hmiddle, hmiddleLength⟩ := hmember.bounds hindex
    obtain ⟨hlast, hlastLength⟩ := hrest.bounds hmiddleLength
    exact ⟨hmiddle.trans hlast, hlastLength⟩

end

/-- A non-terminal that is the goal uses up all tokens. -/
theorem Settles.next_eq_length {symbol : Symbol} {index next : Nat} {tree : Tree}
    (h : parser.Settles symbol index true (some (tree, next)))
    (hterminal : symbol.isTerminal = false) : next = parser.tokens.length := by
  cases h with
  | matched hterminal' => simp [hterminal] at hterminal'
  | chosen _ _ _ _ hgoal => exact hgoal rfl

/-! ### Attempts within a limit -/

theorem matchTerminal_of_match {symbol : Symbol} {index : Nat} {token : Token}
    (htoken : parser.tokens[index]? = some token) (hname : token.name = symbol.name) :
    parser.matchTerminal symbol index =
      Attempt.settled (some (.leaf (.terminal token.name token.value), index + 1)) := by
  have hlt : index < parser.tokens.length := (List.getElem?_eq_some_iff.mp htoken).1
  have hin : ¬ (parser.tokens.length : Int) ≤ (index : Int) := by omega
  simp only [matchTerminal, if_neg hin, placeOf_natCast hlt, htoken, if_pos hname]
  rfl

theorem matchTerminal_of_no_match {symbol : Symbol} {index : Nat}
    (htoken : ∀ token, parser.tokens[index]? = some token → token.name ≠ symbol.name) :
    parser.matchTerminal symbol index = Attempt.settled none := by
  rw [matchTerminal]
  split
  · rfl
  · next hin =>
    have hlt : index < parser.tokens.length := by omega
    have hget : parser.tokens[index]? = some parser.tokens[index] :=
      List.getElem?_eq_getElem hlt
    simp [placeOf_natCast hlt, hget, htoken _ hget]

/-- A terminal has a result at every place. -/
theorem exists_settles_of_terminal {symbol : Symbol} (hterminal : symbol.isTerminal = true)
    (index : Nat) (goal : Bool) :
    ∃ result, parser.Settles symbol index goal result ∧
      parser.matchTerminal symbol index = .settled result := by
  by_cases hmatch : ∃ token, parser.tokens[index]? = some token ∧ token.name = symbol.name
  · obtain ⟨token, htoken, hname⟩ := hmatch
    exact ⟨_, .matched hterminal htoken hname, matchTerminal_of_match htoken hname⟩
  · have hnone : ∀ token, parser.tokens[index]? = some token → token.name ≠ symbol.name := by
      intro token htoken hname
      exact hmatch ⟨token, htoken, hname⟩
    exact ⟨none, .unmatched hterminal hnone, matchTerminal_of_no_match hnone⟩

theorem accepts_natCast {goal : Bool} {next : Nat} :
    parser.accepts goal next = true ↔ (goal = true → next = parser.tokens.length) := by
  cases goal with
  | false => simp [accepts]
  | true =>
    simp only [accepts, Bool.not_true, Bool.false_or, beq_iff_eq, Int.natCast_inj, forall_const]

theorem accepts_natCast_eq_false {goal : Bool} {next : Nat} :
    parser.accepts goal next = false ↔ goal = true ∧ next ≠ parser.tokens.length := by
  rw [← Bool.not_eq_true, accepts_natCast, Classical.not_imp]

/-- A way to derive symbols follows ordered choice if it ends with the result of ordered choice,
or is nested too deeply. -/
def Follows (parser : Parser) (derive : Symbol → Int → Attempt Tree) : Prop :=
  ∀ symbol (index : Nat), derive symbol index = .aborted .tooDeep ∨
    ∃ result, parser.Settles symbol index false result ∧ derive symbol index = .settled result

namespace Follows

variable {derive : Symbol → Int → Attempt Tree}

theorem deriveSequence_eq_tooDeep_or (h : parser.Follows derive) (production : Production)
    (index : Nat) :
    deriveSequence derive production index = .aborted .tooDeep ∨
      ∃ result, parser.SettlesAll production index result ∧
        deriveSequence derive production index = .settled result := by
  induction production generalizing index with
  | nil => exact .inr ⟨_, .nil, rfl⟩
  | cons member rest ih =>
    rw [deriveSequence]
    -- The first member is nested too deeply, fails, or says where the others begin.
    rcases h member index with hmember | ⟨_ | ⟨tree, next⟩, hsettles, hmember⟩
    · exact .inl (by rw [hmember]; rfl)
    · exact .inr ⟨none, .headFails hsettles, by rw [hmember]; rfl⟩
    · simp only [hmember, Attempt.settled_some, Attempt.bind, Attempt.map_eq_aborted_iff]
      rcases ih next with hrest | ⟨_ | ⟨trees, last⟩, hsettlesRest, hrest⟩
      · exact .inl hrest
      · exact .inr ⟨none, .tailFails hsettles hsettlesRest, by rw [hrest]; rfl⟩
      · exact .inr ⟨_, .cons hsettles hsettlesRest, by rw [hrest]; rfl⟩

/-- An alternative that is passed over is rejected. -/
theorem rejects_of_filter_eq_failed (h : parser.Follows derive) {production : Production}
    {index : Nat} {goal : Bool}
    (hfailed : (deriveSequence derive production index).filter (parser.accepts goal) = .failed) :
    parser.Rejects production index goal := by
  rcases h.deriveSequence_eq_tooDeep_or production index with heq |
    ⟨_ | ⟨children, next⟩, hsettles, heq⟩
  · rw [heq] at hfailed
    cases hfailed
  · exact .fails hsettles
  · -- It is derived, so it can only have been filtered out for its end.
    rw [heq, Attempt.filter_eq_failed_iff] at hfailed
    rcases hfailed with hfailed | ⟨_, place, hderived, hplace⟩
    · cases hfailed
    · obtain ⟨-, rfl⟩ := Attempt.derived.inj hderived
      obtain ⟨rfl, hnext⟩ := accepts_natCast_eq_false.mp hplace
      exact .endsEarly hsettles hnext

/-- An alternative that is taken is accepted, unless it is nested too deeply. -/
theorem filter_eq_tooDeep_or (h : parser.Follows derive) {production : Production}
    {index : Nat} {goal : Bool}
    (hne : (deriveSequence derive production index).filter (parser.accepts goal) ≠ .failed) :
    (deriveSequence derive production index).filter (parser.accepts goal) = .aborted .tooDeep ∨
      ∃ children next, parser.SettlesAll production index (some (children, next)) ∧
        (goal = true → next = parser.tokens.length) ∧
        (deriveSequence derive production index).filter (parser.accepts goal) =
          .derived children next := by
  rcases h.deriveSequence_eq_tooDeep_or production index with heq |
    ⟨_ | ⟨children, next⟩, hsettles, heq⟩
  · exact .inl (Attempt.filter_eq_aborted_iff.mpr heq)
  · exact absurd (by rw [heq]; rfl) hne
  · have haccepts : parser.accepts goal next = true := by
      by_contra hrejected
      rw [heq] at hne
      exact hne (Attempt.filter_eq_failed_iff.mpr (.inr ⟨_, _, rfl, by simpa using hrejected⟩))
    exact .inr ⟨children, next, hsettles, accepts_natCast.mp haccepts,
      Attempt.filter_eq_derived_iff.mpr ⟨heq, haccepts⟩⟩

end Follows

/-- Within any limit, an attempt is nested too deeply or ends with the result of ordered choice. -/
theorem attempt_eq_tooDeep_or (parser : Parser) (limit : Nat) (symbol : Symbol) (index : Nat)
    (goal : Bool) :
    parser.attempt limit symbol index goal = .aborted .tooDeep ∨
      ∃ result, parser.Settles symbol index goal result ∧
        parser.attempt limit symbol index goal = .settled result := by
  induction limit generalizing symbol index goal with
  | zero => exact .inl rfl
  | succ limit ih =>
    cases hterminal : symbol.isTerminal with
    | true =>
      rw [attempt_terminal hterminal]
      exact .inr (exists_settles_of_terminal hterminal index goal)
    | false =>
      have hfollows : parser.Follows fun member next => parser.attempt limit member next false :=
        fun member next => ih member next false
      rw [attempt_nonterminal hterminal]
      -- Either every alternative is passed over, or there is a first one that is not.
      rcases deriveFirst_eq_failed_or (fun member next => parser.attempt limit member next false)
        (parser.accepts goal) index (parser.rules.alternatives symbol.name) with hfailed |
        ⟨earlier, production, later, halternatives, hearlier, hne, htaken⟩
      · have hall := deriveFirst_eq_failed_iff.mp hfailed
        refine .inr ⟨none, .exhausted hterminal fun production hproduction => ?_, ?_⟩
        · exact hfollows.rejects_of_filter_eq_failed (hall production hproduction)
        · rw [hfailed]
          rfl
      · rw [htaken, Attempt.map_eq_aborted_iff]
        rcases hfollows.filter_eq_tooDeep_or hne with hdeep |
          ⟨children, next, hsettles, hgoal, hderived⟩
        · exact .inl hdeep
        · refine .inr ⟨_, .chosen hterminal halternatives (fun other hother => ?_) hsettles hgoal,
            by rw [hderived]; rfl⟩
          exact hfollows.rejects_of_filter_eq_failed (hearlier other hother)

theorem follows_attempt (parser : Parser) (limit : Nat) :
    parser.Follows fun member next => parser.attempt limit member next false :=
  fun member next => parser.attempt_eq_tooDeep_or limit member next false

/-- An attempt that is not nested too deeply ends with the result of ordered choice. -/
theorem exists_settles_of_ne_tooDeep {limit : Nat} {symbol : Symbol} {index : Nat} {goal : Bool}
    (h : parser.attempt limit symbol index goal ≠ .aborted .tooDeep) :
    ∃ result, parser.Settles symbol index goal result ∧
      parser.attempt limit symbol index goal = .settled result :=
  (parser.attempt_eq_tooDeep_or limit symbol index goal).resolve_left h

/-- An attempt that is asked for at a place derives something up to a place. -/
theorem exists_place_of_derived {limit : Nat} {symbol : Symbol} {index : Nat} {goal : Bool}
    {tree : Tree} {next : Int} (hindex : index ≤ parser.tokens.length)
    (h : parser.attempt limit symbol index goal = .derived tree next) :
    ∃ place : Nat, next = place ∧ place ≤ parser.tokens.length ∧
      parser.Settles symbol index goal (some (tree, place)) := by
  obtain ⟨result, hsettles, hresult⟩ := exists_settles_of_ne_tooDeep (by rw [h]; simp)
  obtain ⟨place, rfl, rfl⟩ := Attempt.settled_eq_derived_iff.mp (hresult.symm.trans h)
  exact ⟨place, rfl, (hsettles.bounds hindex).2, hsettles⟩

/-- A derivation of all tokens has one of three outcomes. -/
theorem parseWithin_cases (parser : Parser) (limit : Nat) :
    (∃ tree next, parser.parseWithin limit = .derived tree next) ∨
      parser.parseWithin limit = .failed ∨ parser.parseWithin limit = .aborted .tooDeep := by
  rcases parser.attempt_eq_tooDeep_or limit parser.start 0 true with
    hdeep | ⟨_ | ⟨tree, next⟩, -, hresult⟩
  · exact .inr (.inr hdeep)
  · exact .inr (.inl hresult)
  · exact .inl ⟨tree, next, hresult⟩

/-! ### Large limits -/

open Filter in
/-- What holds under one limit less holds under large limits. -/
private theorem eventually_succ {p : Nat → Prop} (h : ∀ᶠ limit in atTop, p (limit + 1)) :
    ∀ᶠ limit in atTop, p limit := by
  obtain ⟨bound, hbound⟩ := eventually_atTop.mp h
  refine eventually_atTop.mpr ⟨bound + 1, fun limit hlimit => ?_⟩
  obtain ⟨limit, rfl⟩ := Nat.exists_eq_add_of_le' (Nat.le_of_add_left_le hlimit)
  exact hbound limit (by omega)

open Filter in
private theorem eventually_forall_mem {α : Type} {members : List α} {p : α → Nat → Prop}
    (h : ∀ a ∈ members, ∀ᶠ limit in atTop, p a limit) :
    ∀ᶠ limit in atTop, ∀ a ∈ members, p a limit :=
  (eventually_all_finite (List.finite_toSet members)).mpr h

mutual

/-- Every limit that is large enough gives the result of ordered choice. -/
theorem Settles.eventually_attempt_eq {symbol : Symbol} {index : Nat} {goal : Bool}
    {result : Option (Tree × Nat)} (h : parser.Settles symbol index goal result) :
    ∀ᶠ limit in Filter.atTop, parser.attempt limit symbol index goal = .settled result := by
  match h with
  | .matched hterminal htoken hname =>
    refine eventually_succ (.of_forall fun limit => ?_)
    rw [attempt_terminal hterminal, matchTerminal_of_match htoken hname]
  | .unmatched hterminal htoken =>
    refine eventually_succ (.of_forall fun limit => ?_)
    rw [attempt_terminal hterminal, matchTerminal_of_no_match htoken]
  | .chosen hterminal halternatives hearlier hproduction hgoal =>
    refine eventually_succ ?_
    -- There are finitely many premises, so one bound serves all of them.
    filter_upwards [eventually_forall_mem fun other hother =>
      (hearlier other hother).eventually_filter_eq, hproduction.eventually_deriveSequence_eq]
      with limit hfailed hderived
    have haccepted := Attempt.filter_eq_derived_iff.mpr ⟨hderived, accepts_natCast.mpr hgoal⟩
    rw [attempt_nonterminal hterminal, halternatives, deriveFirst_append_of_failed hfailed,
      deriveFirst_cons_of_ne_failed (by rw [haccepted]; simp), haccepted]
    rfl
  | .exhausted hterminal hall =>
    refine eventually_succ ?_
    filter_upwards [eventually_forall_mem fun production hproduction =>
      (hall production hproduction).eventually_filter_eq] with limit hfailed
    rw [attempt_nonterminal hterminal, deriveFirst_eq_failed_iff.mpr hfailed]
    rfl

/-- Every limit that is large enough gives the result of a sequence. -/
theorem SettlesAll.eventually_deriveSequence_eq {production : Production} {index : Nat}
    {result : Option (List Tree × Nat)} (h : parser.SettlesAll production index result) :
    ∀ᶠ limit in Filter.atTop,
      deriveSequence (fun member next => parser.attempt limit member next false)
        production index = .settled result := by
  match h with
  | .nil => exact .of_forall fun _ => rfl
  | .cons hmember hrest =>
    filter_upwards [hmember.eventually_attempt_eq, hrest.eventually_deriveSequence_eq]
      with limit hlimit hlimitRest
    rw [deriveSequence, hlimit]
    simp only [Attempt.settled_some, Attempt.bind, hlimitRest]
    rfl
  | .headFails hmember =>
    filter_upwards [hmember.eventually_attempt_eq] with limit hlimit
    rw [deriveSequence, hlimit]
    rfl
  | .tailFails hmember hrest =>
    filter_upwards [hmember.eventually_attempt_eq, hrest.eventually_deriveSequence_eq]
      with limit hlimit hlimitRest
    rw [deriveSequence, hlimit]
    simp only [Attempt.settled_some, Attempt.bind, hlimitRest]
    rfl

/-- Every limit that is large enough passes over an alternative that is rejected. -/
theorem Rejects.eventually_filter_eq {production : Production} {index : Nat} {goal : Bool}
    (h : parser.Rejects production index goal) :
    ∀ᶠ limit in Filter.atTop,
      (deriveSequence (fun member next => parser.attempt limit member next false)
        production index).filter (parser.accepts goal) = .failed := by
  match h with
  | .fails hfails =>
    filter_upwards [hfails.eventually_deriveSequence_eq] with limit hlimit
    rw [hlimit]
    rfl
  | .endsEarly hends hnext =>
    filter_upwards [hends.eventually_deriveSequence_eq] with limit hlimit
    rw [hlimit]
    exact Attempt.filter_eq_failed_iff.mpr
      (.inr ⟨_, _, rfl, accepts_natCast_eq_false.mpr ⟨rfl, hnext⟩⟩)

end

/-- Where ordered choice has a result, an attempt that is not nested too deeply ends with it. -/
theorem Settles.attempt_eq {limit : Nat} {symbol : Symbol} {index : Nat} {goal : Bool}
    {result : Option (Tree × Nat)} (h : parser.Settles symbol index goal result)
    (hne : parser.attempt limit symbol index goal ≠ .aborted .tooDeep) :
    parser.attempt limit symbol index goal = .settled result := by
  obtain ⟨result', h', heq⟩ := exists_settles_of_ne_tooDeep hne
  rw [heq, h.unique _ h']

/-- **Adequacy.** Ordered choice has at most one result. Within every limit, an attempt that is not
nested too deeply ends with this result. Where there is a result, all limits from some bound on
give it; where there is none, the attempt is nested too deeply within every limit. -/
theorem orderedChoice_adequate (parser : Parser) (symbol : Symbol) (index : Nat) (goal : Bool) :
    (∀ result result', parser.Settles symbol index goal result →
      parser.Settles symbol index goal result' → result = result') ∧
    (∀ limit, parser.attempt limit symbol index goal ≠ .aborted .tooDeep →
      ∃ result, parser.Settles symbol index goal result ∧
        parser.attempt limit symbol index goal = .settled result) ∧
    (∀ result, parser.Settles symbol index goal result →
      ∃ bound, ∀ limit ≥ bound, parser.attempt limit symbol index goal = .settled result) ∧
    ((∃ result, parser.Settles symbol index goal result) ∨
      ∀ limit, parser.attempt limit symbol index goal = .aborted .tooDeep) := by
  refine ⟨fun result result' h h' => h.unique result' h', fun _ => exists_settles_of_ne_tooDeep,
    fun result h => Filter.eventually_atTop.mp h.eventually_attempt_eq, ?_⟩
  by_cases hdeep : ∀ limit, parser.attempt limit symbol index goal = .aborted .tooDeep
  · exact .inr hdeep
  · obtain ⟨limit, hne⟩ := not_forall.mp hdeep
    obtain ⟨result, hsettles, -⟩ := exists_settles_of_ne_tooDeep hne
    exact .inl ⟨result, hsettles⟩

/-- One left-recursive rule, `S → A | S A`, and two tokens. As the goal, `S` passes over its first
alternative, which leaves a token over, and takes the second one. -/
def doubled : Parser where
  tokens := [⟨"A", "x", 1, 1⟩, ⟨"A", "y", 1, 2⟩]
  rules := ⟨[("S", [[⟨"A", true⟩], [⟨"S", false⟩, ⟨"A", true⟩]])], by simp⟩
  start := ⟨"S", false⟩

/-- Three nested attempts suffice to derive both tokens, and so does every larger limit. -/
theorem orderedChoice_adequate_doubled :
    doubled.attempt 3 doubled.start (0 : Nat) true ≠ .aborted .tooDeep ∧
      ∃ tree, doubled.Settles doubled.start 0 true (some (tree, 2)) ∧
        (∀ result, doubled.Settles doubled.start 0 true result → some (tree, 2) = result) ∧
        ∃ bound, ∀ limit ≥ bound, doubled.attempt limit doubled.start (0 : Nat) true =
          .derived tree (2 : Nat) := by
  have hne : doubled.attempt 3 doubled.start (0 : Nat) true ≠ .aborted .tooDeep := by decide
  obtain ⟨hunique, hfound, hlarge, -⟩ := orderedChoice_adequate doubled doubled.start 0 true
  obtain ⟨result, hsettles, hresult⟩ := hfound 3 hne
  obtain ⟨tree, rfl⟩ : ∃ tree, result = some (tree, 2) := by
    have hderived : doubled.attempt 3 doubled.start (0 : Nat) true = .settled (some
      (.node (.nonterminal "S") [.node (.nonterminal "S") [.leaf (.terminal "A" "x")],
        .leaf (.terminal "A" "y")], 2)) := by decide
    exact ⟨_, Attempt.settled_injective (hresult.symm.trans hderived)⟩
  exact ⟨hne, tree, hsettles, fun _ => hunique _ _ hsettles, hlarge _ hsettles⟩

end Parser

end TokenGrammar
