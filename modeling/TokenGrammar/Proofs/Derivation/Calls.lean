import TokenGrammar.Proofs.Derivation.OrderedChoice

/-!
# Nested calls

An attempt calls for others: that at a non-terminal calls for the members of its alternatives, each
at the place where the members before it end, and only if the alternatives before are rejected. An
attempt is nested too deeply exactly if some chain of such calls is longer than the limit.

## Main definitions

* `Call` — a symbol, a place and whether all tokens have to be used up
* `Parser.Invokes` — one call is made directly by another

## Main results

* `attempt_eq_tooDeep_iff` — the limit is exceeded by a chain of calls
* `attempt_ne_tooDeep_iff` — the limit suffices for every chain of calls
-/

namespace TokenGrammar

/-- What an attempt is made at. -/
structure Call where
  /-- The symbol to derive. -/
  symbol : Symbol
  /-- The place of the first token. -/
  index : Nat
  /-- Whether all tokens have to be used up. -/
  goal : Bool

namespace Parser

variable {parser : Parser} {limit : Nat} {call call' : Call}

/-- The call that a derivation of all tokens begins with. -/
def rootCall (parser : Parser) : Call := ⟨parser.start, 0, true⟩

/-- The attempt at a call, in at most `limit` nested attempts. -/
def attemptAt (parser : Parser) (limit : Nat) (call : Call) : Attempt Tree :=
  parser.attempt limit call.symbol call.index call.goal

/-- The calls that an attempt makes: for a member of an alternative, once the alternatives before
it are rejected and the members before it have ended. -/
inductive Invokes (parser : Parser) : Call → Call → Prop
  | member {symbol member : Symbol} {index next : Nat} {goal : Bool} {before after : Production}
      {earlier later : List Production} {trees : List Tree}
      (hterminal : symbol.isTerminal = false)
      (halternatives : parser.rules.alternatives symbol.name =
        earlier ++ (before ++ member :: after) :: later)
      (hearlier : ∀ other ∈ earlier, parser.Rejects other index goal)
      (hbefore : parser.SettlesAll before index (some (trees, next))) :
      Invokes parser ⟨symbol, index, goal⟩ ⟨member, next, false⟩

/-! ### One call -/

namespace Follows

variable {derive : Symbol → Int → Attempt Tree}

/-- What is nested too deeply at a member is so at the sequence. -/
theorem deriveSequence_append_eq_tooDeep (h : parser.Follows derive) {before after : Production}
    {member : Symbol} {index next : Nat} {trees : List Tree}
    (hbefore : parser.SettlesAll before index (some (trees, next)))
    (hmember : derive member next = .aborted .tooDeep) :
    deriveSequence derive (before ++ member :: after) index = .aborted .tooDeep := by
  induction before generalizing index trees with
  | nil =>
    cases hbefore
    rw [List.nil_append, deriveSequence, hmember]
    rfl
  | cons first rest ih =>
    cases hbefore with
    | @cons _ _ _ middle _ tree _ hfirst hrest =>
      rw [List.cons_append, deriveSequence]
      -- Whether the first member already is nested too deeply or ends as it has to, the whole is.
      rcases h first index with hdeep | ⟨result, hsettles, hresult⟩
      · rw [hdeep]
        rfl
      · obtain rfl := hfirst.unique _ hsettles
        simp only [hresult, Attempt.settled_some, Attempt.bind, ih hrest]
        rfl

/-- A sequence that is nested too deeply is so at one of its members. -/
theorem exists_member_of_eq_tooDeep (h : parser.Follows derive) {production : Production}
    {index : Nat} (hdeep : deriveSequence derive production index = .aborted .tooDeep) :
    ∃ before member after trees, ∃ next : Nat, production = before ++ member :: after ∧
      parser.SettlesAll before index (some (trees, next)) ∧
      derive member next = .aborted .tooDeep := by
  induction production generalizing index with
  | nil => cases hdeep
  | cons first rest ih =>
    rw [deriveSequence] at hdeep
    rcases h first index with hfirst | ⟨_ | ⟨tree, middle⟩, hsettles, hresult⟩
    · exact ⟨[], first, rest, [], index, rfl, .nil, hfirst⟩
    · rw [hresult] at hdeep
      cases hdeep
    · simp only [hresult, Attempt.settled_some, Attempt.bind, Attempt.map_eq_aborted_iff] at hdeep
      obtain ⟨before, member, after, trees, next, rfl, hbefore, hmember⟩ := ih hdeep
      exact ⟨first :: before, member, after, tree :: trees, next, rfl, .cons hsettles hbefore,
        hmember⟩

/-- A rejected alternative is passed over, unless it is nested too deeply. -/
theorem filter_eq_failed_or (h : parser.Follows derive) {production : Production} {index : Nat}
    {goal : Bool} (hrejects : parser.Rejects production index goal) :
    (deriveSequence derive production index).filter (parser.accepts goal) = .failed ∨
      (deriveSequence derive production index).filter (parser.accepts goal) =
        .aborted .tooDeep := by
  -- What is not passed over is either nested too deeply or accepted, and it cannot be accepted.
  by_cases hfailed :
    (deriveSequence derive production index).filter (parser.accepts goal) = .failed
  · exact .inl hfailed
  · rcases h.filter_eq_tooDeep_or hfailed with hdeep | ⟨children, next, hsettles, hgoal, -⟩
    · exact .inr hdeep
    · exact absurd hgoal (hrejects.not_accepted _ _ hsettles)

end Follows

/-- What is nested too deeply at an alternative is so at the choice, if no alternative before it
is taken. -/
private theorem deriveFirst_append_eq_tooDeep {derive : Symbol → Int → Attempt Tree}
    {accepts : Int → Bool} {index : Int} {production : Production}
    {earlier later : List Production}
    (hearlier : ∀ other ∈ earlier,
      (deriveSequence derive other index).filter accepts = .failed ∨
        (deriveSequence derive other index).filter accepts = .aborted .tooDeep)
    (hproduction : deriveSequence derive production index = .aborted .tooDeep) :
    deriveFirst derive accepts index (earlier ++ production :: later) = .aborted .tooDeep := by
  induction earlier with
  | nil =>
    have hdeep : (deriveSequence derive production index).filter accepts = .aborted .tooDeep :=
      Attempt.filter_eq_aborted_iff.mpr hproduction
    rw [List.nil_append, deriveFirst_cons_of_ne_failed (by rw [hdeep]; simp), hdeep]
  | cons first earlier ih =>
    rw [List.cons_append]
    rcases hearlier first (by simp) with hfailed | hdeep
    · rw [deriveFirst_cons_of_failed hfailed]
      exact ih fun other hother => hearlier other (by simp [hother])
    · rw [deriveFirst_cons_of_ne_failed (by rw [hdeep]; simp), hdeep]

/-- An attempt is nested too deeply if one that it calls for is so within one attempt less. -/
theorem Invokes.attemptAt_eq_tooDeep (h : parser.Invokes call call')
    (hdeep : parser.attemptAt limit call' = .aborted .tooDeep) :
    parser.attemptAt (limit + 1) call = .aborted .tooDeep := by
  obtain ⟨hterminal, halternatives, hearlier, hbefore⟩ := h
  have hfollows := parser.follows_attempt limit
  rw [attemptAt, attempt_nonterminal hterminal, Attempt.map_eq_aborted_iff, halternatives]
  apply deriveFirst_append_eq_tooDeep
  · exact fun other hother => hfollows.filter_eq_failed_or (hearlier other hother)
  · exact hfollows.deriveSequence_append_eq_tooDeep hbefore hdeep

/-- An attempt is nested too deeply only if it calls for one that is so within one attempt less. -/
theorem exists_invokes_of_eq_tooDeep
    (hdeep : parser.attemptAt (limit + 1) call = .aborted .tooDeep) :
    ∃ call', parser.Invokes call call' ∧ parser.attemptAt limit call' = .aborted .tooDeep := by
  obtain ⟨symbol, index, goal⟩ := call
  simp only [attemptAt] at hdeep
  cases hterminal : symbol.isTerminal with
  | true =>
    -- A terminal comes to an end at once, and makes no calls.
    obtain ⟨result, -, hresult⟩ := exists_settles_of_terminal hterminal index goal
    rw [attempt_terminal hterminal, hresult] at hdeep
    exact absurd hdeep (Attempt.settled_ne_aborted _ _)
  | false =>
    have hfollows := parser.follows_attempt limit
    rw [attempt_nonterminal hterminal, Attempt.map_eq_aborted_iff] at hdeep
    rcases deriveFirst_eq_failed_or (fun member next => parser.attempt limit member next false)
      (parser.accepts goal) index (parser.rules.alternatives symbol.name) with hfailed |
      ⟨earlier, production, later, halternatives, hearlier, -, htaken⟩
    · rw [hfailed] at hdeep
      cases hdeep
    · -- The first alternative that is not passed over has a member that is nested too deeply.
      rw [htaken, Attempt.filter_eq_aborted_iff] at hdeep
      obtain ⟨before, member, after, trees, next, rfl, hbefore, hmember⟩ :=
        hfollows.exists_member_of_eq_tooDeep hdeep
      refine ⟨⟨member, next, false⟩, .member hterminal halternatives ?_ hbefore, hmember⟩
      intro other hother
      exact hfollows.rejects_of_filter_eq_failed (hearlier other hother)

/-! ### Chains of calls -/

/-- An attempt is nested too deeply exactly if some chain of calls, each made by the one before it,
is longer than the limit. -/
theorem attempt_eq_tooDeep_iff :
    parser.attemptAt limit call = .aborted .tooDeep ↔
      ∃ calls, (call :: calls).IsChain parser.Invokes ∧ limit < (call :: calls).length := by
  induction limit generalizing call with
  | zero => exact iff_of_true rfl ⟨[], .singleton call, by simp⟩
  | succ limit ih =>
    constructor
    · intro hdeep
      obtain ⟨call', hinvokes, hdeep'⟩ := exists_invokes_of_eq_tooDeep hdeep
      obtain ⟨calls, hchain, hlength⟩ := ih.mp hdeep'
      exact ⟨call' :: calls, .cons_cons hinvokes hchain, Nat.succ_lt_succ hlength⟩
    · rintro ⟨_ | ⟨call', calls⟩, hchain, hlength⟩
      · simp at hlength
      · obtain ⟨hinvokes, hchain'⟩ := List.isChain_cons_cons.mp hchain
        have hdeep' := ih.mpr ⟨calls, hchain', Nat.lt_of_succ_lt_succ hlength⟩
        exact hinvokes.attemptAt_eq_tooDeep hdeep'

/-- The limit suffices exactly if no chain of calls is longer. -/
theorem attempt_ne_tooDeep_iff :
    parser.attemptAt limit call ≠ .aborted .tooDeep ↔
      ∀ calls, (call :: calls).IsChain parser.Invokes → (call :: calls).length ≤ limit := by
  rw [ne_eq, attempt_eq_tooDeep_iff]
  simp only [not_exists, not_and, not_lt]

end Parser

end TokenGrammar
