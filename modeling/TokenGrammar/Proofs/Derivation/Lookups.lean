import TokenGrammar.Proofs.Grammar.Loaded

/-!
# Looking up rules

A non-terminal without an entry in the rule table has no alternatives, so that it fails like one
that is declared without any. Of a loaded grammar nobody asks for such a name: a derivation calls
for the start symbol, and then only for members of alternatives, which are terminals of a known name
or declared. So it makes no difference if a missing entry is a fault that breaks off the whole
derivation.

## Main definitions

* `Parser.called` — the symbols that an attempt calls for, in order
* `Parser.attemptStrictly`, `Parser.runStrictly` — derivations in which a missing entry is a fault
* `Grammar.Knows` — terminals of a known name, and declared non-terminals

## Main results

* `forall_mem_called` — what holds of the members of all alternatives holds of all calls
* `attemptStrictly_eq_ok`, `runStrictly_eq_ok` — only a call for an undeclared name is a fault
* `called_symbols_known` — no derivation of a loaded grammar makes such a call
-/

namespace TokenGrammar

/-! ### The calls of an attempt -/

section Called

variable (derive : Symbol → Int → Attempt Tree) (called : Symbol → Int → List Symbol)

/-- The symbols called for while the members of a sequence are derived: those of each member, as
long as the members before it are derived. -/
def calledInSequence : Production → Int → List Symbol
  | [], _ => []
  | member :: rest, index =>
    called member index ++
      match derive member index with
      | .derived _ next => calledInSequence rest next
      | _ => []

/-- The symbols called for while an alternative is chosen: those of each alternative, as long as the
alternatives before it are passed over. -/
def calledInFirst (accepts : Int → Bool) (index : Int) : List Production → List Symbol
  | [] => []
  | production :: rest =>
    calledInSequence derive called production index ++
      match (deriveSequence derive production index).filter accepts with
      | .failed => calledInFirst accepts index rest
      | _ => []

variable {derive called} {accepts : Int → Bool} {index : Int} {symbol : Symbol}

theorem exists_member_of_mem_calledInSequence {production : Production}
    (h : symbol ∈ calledInSequence derive called production index) :
    ∃ member ∈ production, ∃ next, symbol ∈ called member next := by
  induction production generalizing index with
  | nil => cases h
  | cons member rest ih =>
    rcases List.mem_append.mp h with hmember | hrest
    · exact ⟨member, List.mem_cons_self, index, hmember⟩
    · split at hrest
      · obtain ⟨other, hother, next, hsymbol⟩ := ih hrest
        exact ⟨other, List.mem_cons_of_mem member hother, next, hsymbol⟩
      · cases hrest

theorem exists_member_of_mem_calledInFirst {productions : List Production}
    (h : symbol ∈ calledInFirst derive called accepts index productions) :
    ∃ production ∈ productions, ∃ member ∈ production, ∃ next, symbol ∈ called member next := by
  induction productions with
  | nil => cases h
  | cons production rest ih =>
    rcases List.mem_append.mp h with hproduction | hrest
    · exact ⟨production, List.mem_cons_self, exists_member_of_mem_calledInSequence hproduction⟩
    · split at hrest
      · obtain ⟨other, hother, hmember⟩ := ih hrest
        exact ⟨other, List.mem_cons_of_mem production hother, hmember⟩
      · cases hrest

end Called

namespace Parser

/-- The symbols that an attempt calls for, in the order of the calls: its own, and those that the
attempts nested in it call for. The last one may be beyond the limit. -/
def called (parser : Parser) : (limit : Nat) → Symbol → (index : Int) → (goal : Bool) → List Symbol
  | 0, symbol, _, _ => [symbol]
  | limit + 1, symbol, index, goal =>
    symbol ::
      if symbol.isTerminal then []
      else
        calledInFirst (fun member next => parser.attempt limit member next false)
          (fun member next => parser.called limit member next false) (parser.accepts goal) index
          (parser.rules.alternatives symbol.name)

/-- What holds of a symbol and of the members of all alternatives holds of every symbol that is
called for. -/
theorem forall_mem_called {parser : Parser} {p : Symbol → Prop}
    (hmembers : ∀ name, ∀ production ∈ parser.rules.alternatives name,
      ∀ member ∈ production, p member)
    {limit : Nat} {symbol : Symbol} {index : Int} {goal : Bool} (hsymbol : p symbol) :
    ∀ other ∈ parser.called limit symbol index goal, p other := by
  induction limit generalizing symbol index goal with
  | zero => exact List.forall_mem_singleton.mpr hsymbol
  | succ limit ih =>
    intro other hother
    rcases List.mem_cons.mp hother with rfl | hnested
    · exact hsymbol
    · split at hnested
      · cases hnested
      · obtain ⟨production, hproduction, member, hmember, next, hcalled⟩ :=
          exists_member_of_mem_calledInFirst hnested
        exact ih (hmembers _ production hproduction member hmember) other hcalled

end Parser

/-! ### Missing entries as faults -/

/-- The alternatives of a name; a name without an entry is a fault. -/
def RuleTable.require (table : RuleTable) (name : String) : Except String (List Production) :=
  match table.entries.lookup name with
  | some productions => .ok productions
  | none => .error name

theorem RuleTable.require_eq_ok {table : RuleTable} {name : String} (h : name ∈ table.names) :
    table.require name = .ok (table.alternatives name) := by
  obtain ⟨⟨_, productions⟩, hentry, rfl⟩ := List.mem_map.mp h
  rw [require, alternatives]
  cases hlookup : table.entries.lookup _ with
  | some found => rfl
  | none =>
    have hne := List.lookup_eq_none_iff.mp hlookup _ hentry
    simp at hne

section Strictly

variable (derive : Symbol → Int → Except String (Attempt Tree))

/-- Derives the members of a sequence, where a fault of one of them is the fault of the whole. -/
def deriveSequenceStrictly : Production → Int → Except String (Attempt (List Tree))
  | [], index => .ok (.derived [] index)
  | member :: rest, index =>
    match derive member index with
    | .error name => .error name
    | .ok (.derived tree next) =>
      (deriveSequenceStrictly rest next).map (Attempt.map (tree :: ·))
    | .ok .failed => .ok .failed
    | .ok (.aborted cause) => .ok (.aborted cause)

/-- Takes the first alternative that is derived and ends where it is accepted; a fault in one that
is tried is the fault of the whole. -/
def deriveFirstStrictly (accepts : Int → Bool) (index : Int) :
    List Production → Except String (Attempt (List Tree))
  | [] => .ok .failed
  | production :: rest =>
    match (deriveSequenceStrictly derive production index).map (Attempt.filter accepts) with
    | .ok .failed => deriveFirstStrictly accepts index rest
    | outcome => outcome

end Strictly

namespace Parser

/-- Derives a symbol as `attempt` does, but a non-terminal without an entry in the rule table is a
fault. -/
def attemptStrictly (parser : Parser) : (limit : Nat) → Symbol → (index : Int) → (goal : Bool) →
    Except String (Attempt Tree)
  | 0, _, _, _ => .ok (.aborted .tooDeep)
  | limit + 1, symbol, index, goal =>
    if symbol.isTerminal then .ok (parser.matchTerminal symbol index)
    else
      match parser.rules.require symbol.name with
      | .error name => .error name
      | .ok productions =>
        (deriveFirstStrictly (fun member next => parser.attemptStrictly limit member next false)
          (parser.accepts goal) index productions).map
          (Attempt.map (.node (.nonterminal symbol.name)))

/-- What a derivation of all tokens comes to, from how the attempt at the start symbol ends. -/
def conclude (parser : Parser) (attempt : Attempt Tree) : Session Tree := do
  Session.record [.derivationBegun parser.tokens.length parser.start.name]
  match attempt with
  | .derived tree _ =>
    Session.record [.derivationFound parser.start.name]
    return tree
  | .failed => Session.fail .noDerivation
  | .aborted cause => Session.fail cause.failure

theorem runWithin_eq_conclude (parser : Parser) (limit : Nat) :
    parser.runWithin limit = parser.conclude (parser.parseWithin limit) := rfl

/-- The parse tree of all tokens, where a non-terminal without an entry in the rule table is a
fault. -/
def runStrictly (parser : Parser) (limit : Nat) : Except String (Session Tree) :=
  (parser.attemptStrictly limit parser.start 0 true).map parser.conclude

/-- Without an entry for the start symbol, the derivation ends in two different ways. -/
example : (⟨[], .empty, ⟨"S", false⟩⟩ : Parser).parseWithin 1 = .failed ∧
    (⟨[], .empty, ⟨"S", false⟩⟩ : Parser).attemptStrictly 1 ⟨"S", false⟩ 0 true = .error "S" :=
  ⟨rfl, rfl⟩

end Parser

/-! ### Faults come from calls -/

section Faultless

variable {derive : Symbol → Int → Attempt Tree} {called : Symbol → Int → List Symbol}
  {strictly : Symbol → Int → Except String (Attempt Tree)} {p : Symbol → Prop}
  {accepts : Int → Bool} {index : Int}

theorem deriveSequenceStrictly_eq_ok
    (hstrictly : ∀ member next, (∀ symbol ∈ called member next, p symbol) →
      strictly member next = .ok (derive member next))
    {production : Production}
    (h : ∀ symbol ∈ calledInSequence derive called production index, p symbol) :
    deriveSequenceStrictly strictly production index =
      .ok (deriveSequence derive production index) := by
  induction production generalizing index with
  | nil => rfl
  | cons member rest ih =>
    rw [calledInSequence, List.forall_mem_append] at h
    obtain ⟨hmember, hrest⟩ := h
    rw [deriveSequenceStrictly, deriveSequence, hstrictly member index hmember]
    -- The rest is called for only where the member is derived.
    cases hderive : derive member index with
    | derived tree next =>
      rw [hderive] at hrest
      simp only [ih hrest]
      rfl
    | failed => rfl
    | aborted cause => rfl

theorem deriveFirstStrictly_eq_ok
    (hstrictly : ∀ member next, (∀ symbol ∈ called member next, p symbol) →
      strictly member next = .ok (derive member next))
    {productions : List Production}
    (h : ∀ symbol ∈ calledInFirst derive called accepts index productions, p symbol) :
    deriveFirstStrictly strictly accepts index productions =
      .ok (deriveFirst derive accepts index productions) := by
  induction productions with
  | nil => rfl
  | cons production rest ih =>
    rw [calledInFirst, List.forall_mem_append] at h
    obtain ⟨hproduction, hrest⟩ := h
    rw [deriveFirstStrictly, deriveFirst, deriveSequenceStrictly_eq_ok hstrictly hproduction]
    simp only [Except.map]
    -- The other alternatives are called for only where this one is passed over.
    cases hfilter : (deriveSequence derive production index).filter accepts with
    | derived trees next => rfl
    | failed =>
      rw [hfilter] at hrest
      exact ih hrest
    | aborted cause => rfl

end Faultless

namespace Parser

variable {parser : Parser} {limit : Nat}

/-- If every non-terminal that is called for is declared, there is no fault, and the attempt ends as
it does otherwise. -/
theorem attemptStrictly_eq_ok {symbol : Symbol} {index : Int} {goal : Bool}
    (h : ∀ other ∈ parser.called limit symbol index goal,
      other.isTerminal = false → other.name ∈ parser.rules.names) :
    parser.attemptStrictly limit symbol index goal =
      .ok (parser.attempt limit symbol index goal) := by
  induction limit generalizing symbol index goal with
  | zero => rfl
  | succ limit ih =>
    rw [called, List.forall_mem_cons] at h
    obtain ⟨hsymbol, hnested⟩ := h
    rw [attemptStrictly, attempt]
    cases hterminal : symbol.isTerminal with
    | true => rfl
    | false =>
      rw [hterminal] at hnested
      simp only [Bool.false_eq_true, if_false, RuleTable.require_eq_ok (hsymbol hterminal),
        deriveFirstStrictly_eq_ok (fun member next => ih) hnested]
      rfl

theorem runStrictly_eq_ok
    (h : ∀ symbol ∈ parser.called limit parser.start 0 true,
      symbol.isTerminal = false → symbol.name ∈ parser.rules.names) :
    parser.runStrictly limit = .ok (parser.runWithin limit) := by
  rw [runStrictly, attemptStrictly_eq_ok h, runWithin_eq_conclude]
  rfl

end Parser

/-! ### Loaded grammars -/

namespace Grammar

/-- A symbol that is a terminal of a known name, or a declared non-terminal. -/
def Knows (grammar : Grammar) (symbol : Symbol) : Prop :=
  symbol.isTerminal = true ∧ symbol.name ∈ grammar.terminalNames ∨
    symbol.isTerminal = false ∧ symbol.name ∈ grammar.rules.names

variable {grammar : Grammar} {tokens : List Token}

theorem WellFormed.knows_start (h : grammar.WellFormed) : grammar.Knows grammar.start :=
  .inr ⟨h.start_nonterminal, h.start_declared⟩

theorem WellFormed.knows_member (h : grammar.WellFormed) {name : String}
    {production : Production} (hproduction : production ∈ grammar.rules.alternatives name)
    {member : Symbol} (hmember : member ∈ production) : grammar.Knows member := by
  cases hterminal : member.isTerminal with
  | true =>
    have hiff := h.isTerminal_iff name production hproduction member hmember
    exact .inl ⟨hterminal, hiff.mp hterminal⟩
  | false =>
    exact .inr ⟨hterminal, h.declared name production hproduction member hmember hterminal⟩

/-- **Only known symbols are called for.** Whatever the limit, each call that a derivation of a
loaded grammar makes is for a terminal of a known name, or for a declared non-terminal. So the
derivation records and ends as it does if a missing entry in the rule table is a fault. -/
theorem called_symbols_known (grammar : Grammar) (tokens : List Token) (limit : Nat)
    (hloaded : grammar.IsLoaded) :
    (∀ symbol ∈ (grammar.parser tokens).called limit grammar.start 0 true, grammar.Knows symbol) ∧
      (grammar.parser tokens).runStrictly limit =
        .ok ((grammar.parser tokens).runWithin limit) := by
  have hwell := hloaded.wellFormed
  have hcalled : ∀ symbol ∈ (grammar.parser tokens).called limit grammar.start 0 true,
      grammar.Knows symbol :=
    Parser.forall_mem_called (fun _ _ hproduction _ => hwell.knows_member hproduction)
      hwell.knows_start
  refine ⟨hcalled, Parser.runStrictly_eq_ok fun symbol hsymbol hterminal => ?_⟩
  rcases hcalled symbol hsymbol with ⟨hterminal', -⟩ | ⟨-, hname⟩
  · simp [hterminal] at hterminal'
  · exact hname

/-- A number is called for as an expression and twice as a term: a plus sign is missing the first
time. -/
theorem called_symbols_known_number :
    sums.IsLoaded ∧
      (sums.parser [⟨"NUM", "1", 1, 1⟩]).called 3 sums.start 0 true =
        [⟨"Expr", false⟩, ⟨"Term", false⟩, ⟨"NUM", true⟩, ⟨"PLUS", true⟩, ⟨"Term", false⟩,
          ⟨"NUM", true⟩] ∧
      (∀ symbol ∈ (sums.parser [⟨"NUM", "1", 1, 1⟩]).called 3 sums.start 0 true,
        sums.Knows symbol) ∧
      (sums.parser [⟨"NUM", "1", 1, 1⟩]).runStrictly 3 =
        .ok ((sums.parser [⟨"NUM", "1", 1, 1⟩]).runWithin 3) := by
  obtain ⟨hcalled, hstrictly⟩ := called_symbols_known sums [⟨"NUM", "1", 1, 1⟩] 3 isLoaded_sums
  exact ⟨isLoaded_sums, by decide, hcalled, hstrictly⟩

end Grammar

end TokenGrammar
