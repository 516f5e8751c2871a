import TokenGrammar.Proofs.Grammar.Blocks
import TokenGrammar.Proofs.Grammar.Format

/-!
# Reading a grammar line by line

A grammar can be read in one pass that looks at each line once. It keeps the rules so far, the first
header and the header of the block that it is in, if any. A blank line ends the block; any other
line is an alternative of the block, or else the header of a new one, which must not be declared
yet. Whether the names in the alternatives are known is checked when all lines are read, as a name
may be declared further down. The pass gives what the blocks give, with the same fault where there is
one.

## Main definitions

* `Grammar.Pass` — what is known after some lines
* `Pass.step`, `Pass.finish` — one more line, and the end of the lines
* `Grammar.readByLine` — the grammar that some lines write, read in one pass
* `Pass.Represents` — the blocks that have been read

## Main results

* `Represents.step_header`, `Represents.step_alternative` — what one line adds
* `Represents.foldlM_step` — what lines add to the blocks before them
* `readByLine_eq_read` — the pass agrees with the blocks
-/

namespace TokenGrammar

/-- The first name in the alternatives that is neither declared nor that of a terminal. -/
def RuleTable.firstUnknown? (terminals : NameSet) (table : RuleTable) : Option String :=
  (table.entries.flatMap fun entry => entry.2.flatten.map Symbol.name).find? fun name =>
    !(table.declares name || terminals.contains name)

namespace Grammar

/-- What is known after some lines. -/
structure Pass where
  /-- The rules so far. -/
  rules : RuleTable := .empty
  /-- The header of the first block. -/
  first? : Option String := none
  /-- The header of the block that the next line may belong to. -/
  current? : Option String := none

namespace Pass

/-- Reads one more line. -/
def step (terminals : NameSet) (pass : Pass) (raw : List Char) : Except ConfigFault Pass :=
  let line := Text.trim raw
  if line.isEmpty then .ok { pass with current? := none }
  else
    match pass.current? with
    | none =>
      let header := String.ofList line
      if pass.rules.declares header then .error (.repeatedHeader header)
      else .ok ⟨pass.rules.insert header [], pass.first?.or (some header), some header⟩
    | some header =>
      let production := (namesOf line).map (symbolOf terminals)
      .ok { pass with
        rules := pass.rules.insert header (pass.rules.alternatives header ++ [production]) }

/-- The grammar when all lines are read. -/
def finish (terminals : NameSet) (pass : Pass) : Except ConfigFault Grammar :=
  match pass.first? with
  | none => .error .noBlocks
  | some first =>
    match pass.rules.firstUnknown? terminals with
    | some name => .error (.unknownSymbol name)
    | none => .ok ⟨pass.rules, ⟨first, false⟩, terminals⟩

/-- The blocks that have been read. -/
structure Represents (terminals : NameSet) (pass : Pass) (blocks : List Block) : Prop where
  entries : pass.rules.entries = blocks.map (Block.entry terminals)
  first : pass.first? = (blocks.map Block.header).head?

end Pass

/-- The grammar that some lines write, read line by line. -/
def readByLine (terminals : List Terminal) (lines : List (List Char)) :
    Except ConfigFault Grammar := do
  let pass ← lines.foldlM (Pass.step (namesOfTerminals terminals)) {}
  pass.finish (namesOfTerminals terminals)

namespace Pass

variable {terminals : NameSet} {pass : Pass} {blocks earlier : List Block} {line : List Char}
  {lines : List (List Char)}

/-! ### One line -/

theorem step_blank (terminals : NameSet) (pass : Pass) (h : Text.trim line = []) :
    pass.step terminals line = .ok { pass with current? := none } := by
  simp [step, h]

theorem step_outside (hline : Text.trim line ≠ []) (hcurrent : pass.current? = none)
    (hdeclares : pass.rules.declares (String.ofList (Text.trim line)) = false) :
    pass.step terminals line = .ok ⟨pass.rules.insert (String.ofList (Text.trim line)) [],
      pass.first?.or (some (String.ofList (Text.trim line))),
      some (String.ofList (Text.trim line))⟩ := by
  simp [step, hline, hcurrent, hdeclares]

theorem step_within {header : String} (hline : Text.trim line ≠ [])
    (hcurrent : pass.current? = some header) :
    pass.step terminals line = .ok { pass with
      rules := pass.rules.insert header (pass.rules.alternatives header ++
        [(namesOf (Text.trim line)).map (symbolOf terminals)]) } := by
  simp [step, hline, hcurrent]

theorem Represents.names_eq (h : pass.Represents terminals blocks) :
    pass.rules.names = blocks.map Block.header := by
  simp [RuleTable.names, h.entries, Block.entry, Function.comp_def]

theorem Represents.nodup (h : pass.Represents terminals blocks) :
    (blocks.map Block.header).Nodup := by
  rw [← h.names_eq]
  exact pass.rules.nodup

/-- A header that is declared is a fault. -/
theorem Represents.step_repeated (h : pass.Represents terminals blocks)
    (hline : Text.trim line ≠ []) (hcurrent : pass.current? = none)
    (hmem : String.ofList (Text.trim line) ∈ blocks.map Block.header) :
    pass.step terminals line = .error (.repeatedHeader (String.ofList (Text.trim line))) := by
  have hdeclares : pass.rules.declares (String.ofList (Text.trim line)) = true := by
    rw [RuleTable.declares, h.names_eq]
    exact List.contains_iff_mem.mpr hmem
  simp [step, hline, hcurrent, hdeclares]

/-- A header that is not declared begins a new block. -/
theorem Represents.step_header (h : pass.Represents terminals blocks)
    (hline : Text.trim line ≠ []) (hcurrent : pass.current? = none)
    (hmem : String.ofList (Text.trim line) ∉ blocks.map Block.header) :
    ∃ pass', pass.step terminals line = .ok pass' ∧
      pass'.current? = some (String.ofList (Text.trim line)) ∧
      pass'.Represents terminals (blocks ++ [⟨String.ofList (Text.trim line), []⟩]) := by
  rw [← h.names_eq] at hmem
  have hdeclares : pass.rules.declares (String.ofList (Text.trim line)) = false := by
    rw [RuleTable.declares]
    exact Bool.eq_false_iff.mpr fun hcontains => hmem (List.contains_iff_mem.mp hcontains)
  refine ⟨_, step_outside hline hcurrent hdeclares, rfl, ?_, ?_⟩
  · rw [RuleTable.entries_insert_of_not_mem hmem, h.entries]
    simp [Block.entry]
  · simp only [h.first, List.map_append, List.head?_append]
    rfl

/-- Within a block, a line is one more alternative. -/
theorem Represents.step_alternative {header : String} {alternatives : List (List String)}
    (h : pass.Represents terminals (earlier ++ [⟨header, alternatives⟩]))
    (hline : Text.trim line ≠ []) (hcurrent : pass.current? = some header) :
    ∃ pass', pass.step terminals line = .ok pass' ∧ pass'.current? = some header ∧
      pass'.Represents terminals
        (earlier ++ [⟨header, alternatives ++ [namesOf (Text.trim line)]⟩]) := by
  have hentries := h.entries
  rw [List.map_append] at hentries
  have hold : pass.rules.alternatives header = alternatives.map (List.map (symbolOf terminals)) :=
    RuleTable.alternatives_eq_of_mem (by simp [hentries, Block.entry])
  refine ⟨_, step_within hline hcurrent, hcurrent, ?_, ?_⟩
  · rw [RuleTable.entries_insert_last hentries, hold]
    simp [Block.entry]
  · simpa using h.first

/-! ### Many lines -/

/-- Lines that are not blank are alternatives of the block. -/
theorem Represents.foldlM_alternatives {header : String} {alternatives : List (List String)}
    (h : pass.Represents terminals (earlier ++ [⟨header, alternatives⟩]))
    (hlines : ∀ line ∈ lines, Text.trim line ≠ []) (hcurrent : pass.current? = some header) :
    ∃ pass', lines.foldlM (step terminals) pass = .ok pass' ∧
      pass'.Represents terminals
        (earlier ++ [⟨header, alternatives ++ lines.map fun line => namesOf (Text.trim line)⟩]) := by
  induction lines generalizing pass alternatives with
  | nil => exact ⟨pass, rfl, by simpa using h⟩
  | cons line lines ih =>
    obtain ⟨pass', hstep, hcurrent', h'⟩ := h.step_alternative (hlines line (by simp)) hcurrent
    obtain ⟨pass'', hfold, h''⟩ :=
      ih h' (fun other hother => hlines other (by simp [hother])) hcurrent'
    exact ⟨pass'', by rw [List.foldlM_cons, hstep]; exact hfold, by simpa using h''⟩

theorem Represents.firstUnknown?_eq (h : pass.Represents terminals blocks) :
    pass.rules.firstUnknown? terminals = Grammar.firstUnknown? terminals blocks := by
  have hnames : (pass.rules.entries.flatMap fun entry => entry.2.flatten.map Symbol.name) =
      blocks.flatMap fun block => block.alternatives.flatten := by
    rw [h.entries, List.flatMap_map]
    simp [Block.entry, symbolOf, List.map_flatten, Function.comp_def]
  rw [RuleTable.firstUnknown?, hnames]
  simp only [RuleTable.declares, h.names_eq]
  rfl

/-- At the end of the lines, the pass gives what the blocks give. -/
theorem Represents.finish_eq (h : pass.Represents terminals blocks) :
    pass.finish terminals = ofBlocks terminals blocks none := by
  have hheaders := firstRepeat?_nil_eq_none_iff.mpr h.nodup
  rw [finish, h.first, h.firstUnknown?_eq]
  cases blocks with
  | nil => rfl
  | cons first rest =>
    cases hunknown : firstUnknown? terminals (first :: rest) with
    | some name => rw [ofBlocks_of_unknown hheaders (List.cons_ne_nil _ _) hunknown]; rfl
    | none =>
      rw [ofBlocks_of_known hheaders hunknown]
      have hrules : pass.rules = tableOf terminals (first :: rest) hheaders :=
        RuleTable.eq_of_entries_eq h.entries
      rw [← hrules]
      rfl

/-- What lines add to the blocks that have been read. The pass is not within a block, or the block
ends here. -/
theorem Represents.foldlM_step {more : List Block} (h : pass.Represents terminals blocks)
    (hwrites : Writes lines more)
    (hopen : pass.current? = none ∨ ∀ line ∈ lines.head?, Text.trim line = []) :
    (lines.foldlM (step terminals) pass >>= finish terminals) =
      ofBlocks terminals (blocks ++ more) none := by
  induction hwrites generalizing pass blocks with
  | nil =>
    rw [List.append_nil]
    exact h.finish_eq
  | blank hline _ ih =>
    rw [List.foldlM_cons, step_blank _ _ hline]
    exact ih ⟨h.entries, h.first⟩ (.inl rfl)
  | @block header rest lines block more hne hheader hrest hend _ ih =>
    obtain ⟨name, alternatives⟩ := block
    obtain ⟨hplain, rfl⟩ := forall₂_spells_iff.mp hrest
    obtain rfl : String.ofList (Text.trim header) = name := by rw [hheader, String.ofList_toList]
    have hcurrent : pass.current? = none := by
      refine hopen.resolve_right fun hblank => hne ?_
      exact hblank header rfl
    rw [List.cons_append, List.foldlM_cons]
    by_cases hmem : String.ofList (Text.trim header) ∈ blocks.map Block.header
    · -- The blocks before have different headers, so this one is the first that repeats.
      have hrepeat : firstRepeat? [] ((blocks ++
          ⟨String.ofList (Text.trim header), rest.map fun line => namesOf (Text.trim line)⟩ ::
            more).map Block.header) = some (String.ofList (Text.trim header)) :=
        firstRepeat?_nil_eq_some_iff.mpr ⟨_, _, List.map_append, h.nodup, hmem⟩
      rw [h.step_repeated hne hcurrent hmem, ofBlocks_of_repeated hrepeat]
      rfl
    · obtain ⟨pass', hstep, hcurrent', h'⟩ := h.step_header hne hcurrent hmem
      obtain ⟨pass'', hfold, h''⟩ := h'.foldlM_alternatives hplain hcurrent'
      have hlines := ih h'' (.inr hend)
      rw [List.append_assoc, List.singleton_append, List.nil_append] at hlines
      rw [hstep, ← hlines]
      change (List.foldlM _ _ _ >>= _) = _
      rw [List.foldlM_append, hfold]
      rfl

end Pass

/-- **One pass.** Reading line by line gives what the blocks give, with the same fault if there is
one. -/
theorem readByLine_eq_read (terminals : List Terminal) (lines : List (List Char)) :
    readByLine terminals lines = Grammar.read terminals lines := by
  have hbegin : Pass.Represents (namesOfTerminals terminals) {} [] := ⟨rfl, rfl⟩
  exact hbegin.foldlM_step (writes_blocksOf lines) (.inl rfl)

end Grammar

end TokenGrammar
