import TokenGrammar.Loading

/-!
# Loaded grammars

A grammar comes from lines, from a text in memory or from a file; whatever comes out of a text or a
file also comes out of some lines. Reading guarantees what a derivation relies on: the start symbol
is a declared non-terminal, no alternative is empty, and a symbol in an alternative stands for a
terminal exactly if a terminal has its name, and is declared otherwise.

## Main definitions

* `Grammar.IsLoaded` — a grammar that is read from somewhere
* `Grammar.WellFormed` — what reading guarantees
* `Grammar.sums` — a grammar of sums, as an example

## Main results

* `IsLoaded.exists_read` — lines suffice
* `IsLoaded.wellFormed` — loaded grammars are well-formed
-/

namespace TokenGrammar

namespace Grammar

/-- A grammar that is read from lines, from a text in memory or from a file. -/
inductive IsLoaded (grammar : Grammar) : Prop
  | ofLines (terminals : List Terminal) (lines : List (List Char))
      (h : Grammar.read terminals lines = .ok grammar)
  | ofText (terminals : List Terminal) (text : String)
      (h : Grammar.readText terminals text = .ok grammar)
  | ofFile (files : Files) (terminals : List Terminal) (path : Option String)
      (h : (loadGrammar files terminals path).outcome = .ok grammar)

/-- What reading guarantees of a grammar. -/
structure WellFormed (grammar : Grammar) : Prop where
  start_nonterminal : grammar.start.isTerminal = false
  start_declared : grammar.start.name ∈ grammar.rules.names
  /-- No alternative is empty. -/
  production_ne_nil : ∀ name, ∀ production ∈ grammar.rules.alternatives name, production ≠ []
  /-- A symbol is a terminal exactly if a terminal has its name. -/
  isTerminal_iff : ∀ name, ∀ production ∈ grammar.rules.alternatives name,
    ∀ symbol ∈ production, symbol.isTerminal = true ↔ symbol.name ∈ grammar.terminalNames
  /-- Every other symbol is declared. -/
  declared : ∀ name, ∀ production ∈ grammar.rules.alternatives name,
    ∀ symbol ∈ production, symbol.isTerminal = false → symbol.name ∈ grammar.rules.names

variable {terminals : NameSet} {blocks : List Block} {fileFault : Option ConfigFault}
  {grammar : Grammar}

/-! ### Blocks -/

/-- The blocks of a grammar have different headers and use known names only. -/
theorem ofBlocks_eq_ok (h : ofBlocks terminals blocks fileFault = .ok grammar) :
    fileFault = none ∧ firstUnknown? terminals blocks = none ∧
      ∃ (hheaders : firstRepeat? [] (blocks.map Block.header) = none) (first : Block),
        first ∈ blocks ∧
          grammar = ⟨tableOf terminals blocks hheaders, ⟨first.header, false⟩, terminals⟩ := by
  rw [ofBlocks] at h
  split at h
  · cases h
  · next hheaders =>
    split at h
    · cases h
    · cases h
    · next first hfirst =>
      split at h
      · cases h
      · next hunknown =>
        exact ⟨rfl, hunknown, hheaders, first, List.mem_of_mem_head? hfirst,
          (Except.ok.inj h).symm⟩

theorem exists_line_of_mem_blocksOf {lines : List (List Char)} {block : Block}
    (hblock : block ∈ blocksOf lines) {alternative : List String}
    (halternative : alternative ∈ block.alternatives) :
    ∃ line, alternative = namesOf line := by
  obtain ⟨run, -, hrun⟩ := List.mem_filterMap.mp hblock
  -- A run of lines gives a header and the lines of the alternatives, if there is a first line.
  cases run with
  | nil => cases hrun
  | cons header rest =>
    obtain rfl := Option.some.inj hrun
    obtain ⟨line, -, rfl⟩ := List.mem_map.mp halternative
    exact ⟨line, rfl⟩

theorem namesOf_ne_nil (line : List Char) : namesOf line ≠ [] := by
  simp [namesOf, Text.cutAtSpaces]

/-- The alternatives in a rule table are those of a block, name by name. -/
theorem exists_block_of_mem_alternatives
    (hheaders : firstRepeat? [] (blocks.map Block.header) = none) {name : String}
    {production : Production}
    (h : production ∈ (tableOf terminals blocks hheaders).alternatives name) :
    ∃ block ∈ blocks, block.header = name ∧ ∃ alternative ∈ block.alternatives,
      production = alternative.map (symbolOf terminals) := by
  obtain ⟨entry, hentry, rfl, hproduction⟩ := RuleTable.exists_entry_of_mem_alternatives h
  obtain ⟨block, hblock, rfl⟩ := List.mem_map.mp hentry
  obtain ⟨alternative, halternative, rfl⟩ := List.mem_map.mp hproduction
  exact ⟨block, hblock, rfl, alternative, halternative, rfl⟩

theorem names_tableOf (hheaders : firstRepeat? [] (blocks.map Block.header) = none) :
    (tableOf terminals blocks hheaders).names = blocks.map Block.header := by
  simp [RuleTable.names, tableOf, Block.entry, Function.comp_def]

/-- If no name is unknown, a name in an alternative is a header or that of a terminal. -/
theorem mem_headers_or_mem_terminals (h : firstUnknown? terminals blocks = none) {block : Block}
    (hblock : block ∈ blocks) {alternative : List String}
    (halternative : alternative ∈ block.alternatives) {name : String} (hname : name ∈ alternative) :
    name ∈ blocks.map Block.header ∨ name ∈ terminals := by
  have hknown := List.find?_eq_none.mp h name
    (List.mem_flatMap.mpr ⟨block, hblock, List.mem_flatten.mpr ⟨alternative, halternative, hname⟩⟩)
  simpa only [Bool.not_eq_true, Bool.not_eq_false', Bool.or_eq_true, List.contains_iff_mem]
    using hknown

/-! ### Loaded grammars -/

/-- Whatever is read from lines is well-formed. -/
theorem wellFormed_of_read {terminals : List Terminal} {lines : List (List Char)}
    (h : Grammar.read terminals lines = .ok grammar) : grammar.WellFormed := by
  obtain ⟨-, hunknown, hheaders, first, hfirst, rfl⟩ := ofBlocks_eq_ok h
  -- The start symbol is the header of the first block; all else is looked up in the blocks.
  refine ⟨rfl, ?_, ?_, ?_, ?_⟩
  · rw [names_tableOf]
    exact List.mem_map_of_mem hfirst
  · intro name production hproduction
    obtain ⟨block, hblock, -, alternative, halternative, rfl⟩ :=
      exists_block_of_mem_alternatives hheaders hproduction
    obtain ⟨line, rfl⟩ := exists_line_of_mem_blocksOf hblock halternative
    simpa using namesOf_ne_nil line
  · intro name production hproduction symbol hsymbol
    obtain ⟨block, -, -, alternative, -, rfl⟩ :=
      exists_block_of_mem_alternatives hheaders hproduction
    obtain ⟨other, -, rfl⟩ := List.mem_map.mp hsymbol
    exact List.contains_iff_mem
  · intro name production hproduction symbol hsymbol hterminal
    obtain ⟨block, hblock, -, alternative, halternative, rfl⟩ :=
      exists_block_of_mem_alternatives hheaders hproduction
    obtain ⟨other, hother, rfl⟩ := List.mem_map.mp hsymbol
    rw [names_tableOf]
    -- The name is known, and not as that of a terminal.
    refine (mem_headers_or_mem_terminals hunknown hblock halternative hother).resolve_right ?_
    intro hmem
    exact absurd (List.contains_iff_mem.mpr hmem) (ne_true_of_eq_false hterminal)

theorem mapError_eq_ok_iff {ε ε' α : Type} {f : ε → ε'} {outcome : Except ε α} {a : α} :
    outcome.mapError f = .ok a ↔ outcome = .ok a := by
  cases outcome with
  | error e =>
    constructor
    · intro h
      cases h
    · intro h
      cases h
  | ok b =>
    constructor
    · intro h
      rw [Except.ok.inj h]
    · intro h
      rw [Except.ok.inj h]
      rfl

/-- The lines of a file that gives a grammar are all its lines, and give the same grammar. -/
theorem read_of_readIncoming {terminals : List Terminal} {path : String}
    {incoming : Text.Incoming} (h : Grammar.readIncoming terminals path incoming = .ok grammar) :
    Grammar.read terminals incoming.lines = .ok grammar := by
  obtain ⟨hfault, -⟩ := ofBlocks_eq_ok h
  rwa [readIncoming, hfault] at h

/-- Whatever is read from a text or a file is also read from lines. -/
theorem IsLoaded.exists_read (h : grammar.IsLoaded) :
    ∃ terminals lines, Grammar.read terminals lines = .ok grammar := by
  cases h with
  | ofLines terminals lines h => exact ⟨terminals, lines, h⟩
  | ofText terminals text h => exact ⟨terminals, _, h⟩
  | ofFile files terminals path h =>
    -- The path is there, the file is read, and only then its lines are looked at.
    rw [loadGrammar, Session.outcome_bind_eq_ok_iff] at h
    obtain ⟨name, -, h⟩ := h
    split at h
    · cases h
    · next bytes _ =>
      rw [announce, Session.outcome_bind_eq_ok_iff] at h
      obtain ⟨loaded, hloaded, h⟩ := h
      rw [Session.outcome_ofExcept, mapError_eq_ok_iff] at hloaded
      rw [Session.outcome_bind_eq_ok_iff] at h
      obtain ⟨-, -, h⟩ := h
      obtain rfl := Except.ok.inj h
      exact ⟨terminals, _, read_of_readIncoming hloaded⟩

theorem IsLoaded.wellFormed (h : grammar.IsLoaded) : grammar.WellFormed := by
  obtain ⟨terminals, lines, hread⟩ := h.exists_read
  exact wellFormed_of_read hread

/-! ### Sums -/

/-- The terminals of sums of numbers. -/
def sumTerminals : List Terminal := [⟨"NUM", ""⟩, ⟨"PLUS", ""⟩, ⟨"LPAREN", ""⟩, ⟨"RPAREN", ""⟩]

/-- The lines of a grammar of sums, which are nested to the right. -/
def sumLines : List (List Char) :=
  ["Expr", "Term PLUS Expr", "Term", "", "Term", "NUM", "LPAREN Expr RPAREN"].map String.toList

/-- The grammar of sums. -/
def sums : Grammar where
  rules := ⟨[("Expr", [[⟨"Term", false⟩, ⟨"PLUS", true⟩, ⟨"Expr", false⟩], [⟨"Term", false⟩]]),
    ("Term", [[⟨"NUM", true⟩], [⟨"LPAREN", true⟩, ⟨"Expr", false⟩, ⟨"RPAREN", true⟩]])], by simp⟩
  start := ⟨"Expr", false⟩
  terminalNames := ["LPAREN", "NUM", "PLUS", "RPAREN"]

theorem isLoaded_sums : sums.IsLoaded := .ofLines sumTerminals sumLines rfl

/-- A number plus a number in parentheses. -/
def numberAndSum : List Token :=
  [⟨"NUM", "1", 1, 1⟩, ⟨"PLUS", "+", 1, 2⟩, ⟨"LPAREN", "(", 1, 3⟩, ⟨"NUM", "2", 1, 4⟩,
    ⟨"RPAREN", ")", 1, 5⟩]

end Grammar

end TokenGrammar
