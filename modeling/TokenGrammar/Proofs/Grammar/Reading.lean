import TokenGrammar.Proofs.Grammar.Loaded
import TokenGrammar.Proofs.Grammar.Pass

/-!
# What reading a grammar does

Lines write exactly one list of blocks. If the blocks are consistent, reading gives the grammar that
they stand for and records a warning for each block without alternatives, in order, and then the
size of the grammar. Otherwise nothing is recorded, and the one fault that is reported for the blocks
is the outcome.

## Main results

* `Denotes.events_eq` — what is recorded of a grammar, said of its blocks
* `read_eq_ok_iff`, `read_eq_error_iff` — the outcome, said of the blocks
* `read_exact` — all of this together, and that one pass over the lines suffices
-/

namespace TokenGrammar.Grammar

variable {terminals : List Terminal} {blocks : List Block} {lines : List (List Char)}
  {grammar grammar' : Grammar}

/-! ### The grammar of some blocks -/

theorem Denotes.unique (h : Denotes terminals blocks grammar)
    (h' : Denotes terminals blocks grammar') : grammar = grammar' := by
  obtain ⟨rules, start, names⟩ := grammar
  obtain ⟨rules', start', names'⟩ := grammar'
  obtain ⟨first, hfirst, hstart⟩ := h.start
  obtain ⟨first', hfirst', hstart'⟩ := h'.start
  obtain rfl := Option.some.inj (hfirst.symm.trans hfirst')
  rw [Grammar.mk.injEq]
  exact ⟨RuleTable.eq_of_entries_eq (h.entries.trans h'.entries.symm),
    hstart.trans hstart'.symm, h.terminalNames.trans h'.terminalNames.symm⟩

/-- The warnings are for the blocks without alternatives. -/
theorem Denotes.events_eq (h : Denotes terminals blocks grammar) :
    grammar.events =
      ((blocks.filter fun block => block.alternatives.isEmpty).map fun block =>
        .barrenNonterminal block.header) ++ [.grammarLoaded blocks.length grammar.start.name] := by
  have hbarren : grammar.barren =
      (blocks.filter fun block => block.alternatives.isEmpty).map Block.header := by
    rw [barren, h.entries, List.filter_map, List.map_map]
    simp [Function.comp_def]
  have hlength : grammar.nonterminals.length = blocks.length := by
    simp [nonterminals, RuleTable.names, h.entries]
  rw [events, hbarren, hlength, List.map_map]
  rfl

/-! ### Reading -/

theorem read_eq_ok_iff :
    Grammar.read terminals lines = .ok grammar ↔
      Consistent terminals (blocksOf lines) ∧ Denotes terminals (blocksOf lines) grammar := by
  rw [Grammar.read]
  rcases consistent_or_reports terminals (blocksOf lines) with hconsistent | ⟨fault, hreports⟩
  · obtain ⟨grammar', hread, hdenotes⟩ := hconsistent.exists_denotes
    rw [hread, Except.ok.injEq]
    constructor
    · rintro rfl
      exact ⟨hconsistent, hdenotes⟩
    · rintro ⟨-, h⟩
      exact hdenotes.unique h
  · rw [hreports.ofBlocks_eq]
    refine ⟨fun h => (nomatch h), fun ⟨hconsistent, _⟩ => ?_⟩
    -- A fault is reported only for blocks that are not consistent.
    obtain ⟨grammar', hread, -⟩ := hconsistent.exists_denotes
    cases hreports.ofBlocks_eq.symm.trans hread

theorem read_eq_error_iff {fault : ConfigFault} :
    Grammar.read terminals lines = .error fault ↔ Reports terminals (blocksOf lines) fault := by
  refine ⟨fun h => ?_, Reports.ofBlocks_eq⟩
  rcases consistent_or_reports terminals (blocksOf lines) with hconsistent | ⟨fault', hreports⟩
  · obtain ⟨grammar', hread, -⟩ := hconsistent.exists_denotes
    cases h.symm.trans hread
  · obtain rfl := Except.error.inj (h.symm.trans hreports.ofBlocks_eq)
    exact hreports

theorem announce_ok (grammar : Grammar) : announce (.ok grammar) = ⟨grammar.events, .ok grammar⟩ := by
  change Session.mk ([] ++ (grammar.events ++ [])) _ = _
  rw [List.append_nil]
  rfl

theorem announce_error (fault : ConfigFault) :
    announce (.error fault) = ⟨[], .error (.config fault)⟩ := rfl

/-- **Reading.** Lines write exactly one list of blocks, and reading them line by line gives what
these blocks give. A grammar is read exactly if the blocks are consistent; it is the one that they
stand for, and a warning is recorded for each block without alternatives, and then its size.
Otherwise the failure is the fault that is reported for the blocks, and nothing is recorded. -/
theorem read_exact (terminals : List Terminal) (lines : List (List Char)) :
    readByLine terminals lines = Grammar.read terminals lines ∧
    ∃ blocks, (∀ other, Writes lines other ↔ other = blocks) ∧
      let session := announce (Grammar.read terminals lines)
      ((∃ grammar, session.outcome = .ok grammar) ↔ Consistent terminals blocks) ∧
      (∀ grammar, session.outcome = .ok grammar → Denotes terminals blocks grammar ∧
        session.events = ((blocks.filter fun block => block.alternatives.isEmpty).map fun block =>
          .barrenNonterminal block.header) ++ [.grammarLoaded blocks.length grammar.start.name]) ∧
      ∀ failure, session.outcome = .error failure → session.events = [] ∧
        ∃ fault, failure = .config fault ∧ Reports terminals blocks fault := by
  refine ⟨readByLine_eq_read terminals lines, blocksOf lines, fun _ => writes_iff, ?_⟩
  intro session
  cases hread : Grammar.read terminals lines with
  | ok grammar =>
    have hsession : session = ⟨grammar.events, .ok grammar⟩ :=
      (congrArg announce hread).trans (announce_ok grammar)
    obtain ⟨hconsistent, hdenotes⟩ := read_eq_ok_iff.mp hread
    rw [hsession]
    refine ⟨iff_of_true ⟨grammar, rfl⟩ hconsistent, ?_, fun failure hfailure => ?_⟩
    · rintro _ ⟨⟩
      exact ⟨hdenotes, hdenotes.events_eq⟩
    · cases hfailure
  | error fault =>
    have hsession : session = ⟨[], .error (.config fault)⟩ :=
      (congrArg announce hread).trans (announce_error fault)
    have hreports := read_eq_error_iff.mp hread
    rw [hsession]
    refine ⟨iff_of_false (fun ⟨_, hok⟩ => nomatch hok) fun hconsistent => ?_, ?_, ?_⟩
    · obtain ⟨grammar, hok, -⟩ := hconsistent.exists_denotes
      cases hread.symm.trans hok
    · rintro _ ⟨⟩
    · rintro _ ⟨⟩
      exact ⟨rfl, fault, rfl, hreports⟩

/-- The grammar of sums, whose two non-terminals have alternatives. -/
theorem read_exact_sums :
    ∃ blocks, Writes sumLines blocks ∧ Consistent sumTerminals blocks ∧
      Denotes sumTerminals blocks sums ∧
      (announce (Grammar.read sumTerminals sumLines)).events =
        ((blocks.filter fun block => block.alternatives.isEmpty).map fun block =>
          .barrenNonterminal block.header) ++ [.grammarLoaded blocks.length "Expr"] := by
  obtain ⟨-, blocks, hwrites, hconsistent, hok, -⟩ := read_exact sumTerminals sumLines
  obtain ⟨hdenotes, hevents⟩ := hok sums rfl
  exact ⟨blocks, (hwrites blocks).mpr rfl, hconsistent.mp ⟨sums, rfl⟩, hdenotes, hevents⟩

end TokenGrammar.Grammar
