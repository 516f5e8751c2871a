import TokenGrammar.Proofs.Grammar.Reading

/-!
# Writing a grammar

Blocks are written line by line: the header, each alternative with its names joined by single
spaces, and an empty line. Reading these lines gives the blocks back unless something in them is lost
in a line, as a space within a name or a blank at an end of a line would be. Nothing like this is
left in the blocks of a grammar that was read, so it can be written and read again.

## Main definitions

* `Grammar.render` — the lines of some blocks
* `Grammar.toBlocks` — the blocks of a grammar
* `Grammar.WellWritten` — blocks that can be written and read

## Main results

* `Writes.writable` — whatever is written by lines can be written again
* `blocksOf_render` — cutting the lines of blocks gives the blocks back
* `read_render` — what reading gives, and that it undoes writing
-/

namespace TokenGrammar.Grammar

/-- The lines of a block: its header, its alternatives, and an empty line. -/
def Block.lines (block : Block) : List (List Char) :=
  block.header.toList ::
    block.alternatives.map (fun names => (" ".intercalate names).toList) ++ [[]]

/-- The lines of some blocks. -/
def render (blocks : List Block) : List (List Char) := blocks.flatMap Block.lines

/-- The blocks of a grammar: its rules, in which symbols are only names. -/
def toBlocks (grammar : Grammar) : List Block :=
  grammar.rules.entries.map fun entry => ⟨entry.1, entry.2.map (List.map Symbol.name)⟩

/-- Names that a line can spell, and that are spelled by nothing else when it is trimmed. -/
structure Writable (names : List String) : Prop where
  ne_nil : names ≠ []
  no_space : ∀ name ∈ names, ' ' ∉ name.toList
  head_begins : ∀ name ∈ names.head?, Text.BeginsPlain name.toList
  last_ends : ∀ name ∈ names.getLast?, Text.EndsPlain name.toList

instance (names : List String) : Decidable (Writable names) :=
  decidable_of_iff (names ≠ [] ∧ (∀ name ∈ names, ' ' ∉ name.toList) ∧
      (∀ name ∈ names.head?, Text.BeginsPlain name.toList) ∧
      ∀ name ∈ names.getLast?, Text.EndsPlain name.toList)
    ⟨fun ⟨hne, hspace, hhead, hlast⟩ => ⟨hne, hspace, hhead, hlast⟩,
      fun h => ⟨h.ne_nil, h.no_space, h.head_begins, h.last_ends⟩⟩

/-- A block that lines can write. -/
structure Block.Writable (block : Block) : Prop where
  header_plain : Text.Plain block.header.toList
  alternatives_writable : ∀ names ∈ block.alternatives, Grammar.Writable names

instance (block : Block) : Decidable block.Writable :=
  decidable_of_iff (Text.Plain block.header.toList ∧
      ∀ names ∈ block.alternatives, Grammar.Writable names)
    ⟨fun ⟨hheader, halternatives⟩ => ⟨hheader, halternatives⟩,
      fun h => ⟨h.header_plain, h.alternatives_writable⟩⟩

/-- Blocks that lines can write and that are a grammar. -/
structure WellWritten (terminals : List Terminal) (blocks : List Block) : Prop extends
    Consistent terminals blocks where
  writable : ∀ block ∈ blocks, block.Writable

variable {line : List Char} {lines : List (List Char)} {names : List String} {blocks : List Block}
  {terminals : List Terminal} {grammar : Grammar}

/-! ### Alternatives -/

theorem plain_joined_iff (hne : names ≠ []) :
    Text.Plain (" ".intercalate names).toList ↔
      (∀ name ∈ names.head?, Text.BeginsPlain name.toList) ∧
        ∀ name ∈ names.getLast?, Text.EndsPlain name.toList := by
  have hwords : names.map String.toList ≠ [] := by simpa using hne
  rw [String.toList_intercalate]
  simpa using Text.plain_intercalate_iff hwords

/-- The names on a trimmed line can be written. -/
theorem Spells.writable (h : Spells names line) (hline : Text.Plain line) : Writable names := by
  obtain ⟨hne, hspace, rfl⟩ := h
  obtain ⟨hhead, hlast⟩ := (plain_joined_iff hne).mp hline
  exact ⟨hne, hspace, hhead, hlast⟩

theorem Writable.spells (h : Writable names) : Spells names (" ".intercalate names).toList :=
  ⟨h.ne_nil, h.no_space, rfl⟩

theorem Writable.plain (h : Writable names) : Text.Plain (" ".intercalate names).toList :=
  (plain_joined_iff h.ne_nil).mpr ⟨h.head_begins, h.last_ends⟩

/-! ### Blocks -/

theorem plain_of_trim_ne_nil (h : Text.trim line ≠ []) : Text.Plain (Text.trim line) :=
  (Text.trim_eq_nil_or_plain line).resolve_left h

/-- Whatever is written by some lines can be written. -/
theorem Writes.writable (h : Writes lines blocks) : ∀ block ∈ blocks, block.Writable := by
  induction h with
  | nil => simp
  | blank _ _ ih => exact ih
  | @block header rest _ block blocks hne hheader hrest _ _ ih =>
    refine List.forall_mem_cons.mpr ⟨⟨hheader ▸ plain_of_trim_ne_nil hne, ?_⟩, ih⟩
    obtain ⟨hplain, halternatives⟩ := forall₂_spells_iff.mp hrest
    intro names hnames
    rw [← halternatives] at hnames
    obtain ⟨line, hline, rfl⟩ := List.mem_map.mp hnames
    exact (spells_iff.mpr rfl).writable (plain_of_trim_ne_nil (hplain line hline))

/-- The lines of blocks write them. -/
theorem writes_render (h : ∀ block ∈ blocks, block.Writable) : Writes (render blocks) blocks := by
  induction blocks with
  | nil => exact .nil
  | cons block blocks ih =>
    obtain ⟨⟨hheader, halternatives⟩, hblocks⟩ := List.forall_mem_cons.mp h
    have hlines : render (block :: blocks) =
        block.header.toList :: block.alternatives.map (fun names => (" ".intercalate names).toList)
          ++ [] :: render blocks := by
      simp [render, Block.lines]
    rw [hlines]
    -- Nothing is taken off a plain line, and the empty line ends the block.
    refine .block ?_ hheader.trim_eq ?_ (by simp; rfl) (.blank rfl (ih hblocks))
    · rw [hheader.trim_eq]
      exact hheader.ne_nil
    · rw [List.forall₂_map_left_iff, List.forall₂_same]
      intro names hnames
      have hplain := (halternatives names hnames).plain
      rw [hplain.trim_eq]
      exact ⟨hplain.ne_nil, (halternatives names hnames).spells⟩

theorem blocksOf_render (h : ∀ block ∈ blocks, block.Writable) :
    blocksOf (render blocks) = blocks := (writes_iff.mp (writes_render h)).symm

/-! ### Grammars -/

/-- A grammar has the blocks that it stands for. -/
theorem Denotes.toBlocks_eq (h : Denotes terminals blocks grammar) : grammar.toBlocks = blocks := by
  simp [toBlocks, h.entries, Function.comp_def]

theorem Denotes.isTerminal_iff (h : Denotes terminals blocks grammar)
    {entry : String × List Production} (hentry : entry ∈ grammar.rules.entries)
    {production : Production} (hproduction : production ∈ entry.2) {symbol : Symbol}
    (hsymbol : symbol ∈ production) :
    symbol.isTerminal = true ↔ symbol.name ∈ terminals.map Terminal.name := by
  rw [h.entries] at hentry
  obtain ⟨block, -, rfl⟩ := List.mem_map.mp hentry
  obtain ⟨names, -, rfl⟩ := List.mem_map.mp hproduction
  obtain ⟨name, -, rfl⟩ := List.mem_map.mp hsymbol
  exact decide_eq_true_iff

/-- The blocks of a grammar that was read can be written, and it is what they stand for. -/
theorem wellWritten_of_read (h : Grammar.read terminals lines = .ok grammar) :
    WellWritten terminals grammar.toBlocks ∧ Denotes terminals grammar.toBlocks grammar := by
  obtain ⟨hconsistent, hdenotes⟩ := read_eq_ok_iff.mp h
  rw [hdenotes.toBlocks_eq]
  exact ⟨⟨hconsistent, (writes_blocksOf lines).writable⟩, hdenotes⟩

theorem read_render_eq_ok_iff (h : WellWritten terminals blocks) :
    Grammar.read terminals (render blocks) = .ok grammar ↔ Denotes terminals blocks grammar := by
  rw [read_eq_ok_iff, blocksOf_render h.writable]
  exact and_iff_right h.toConsistent

/-- **Round trip.** The rules that are read from any lines can be written, and their symbols are
terminals exactly if a terminal has their name. Whatever blocks can be written are given back when
their lines are read. So a grammar that was read is read again from the lines of its blocks. -/
theorem read_render (terminals : List Terminal) :
    (∀ lines grammar, Grammar.read terminals lines = .ok grammar →
      WellWritten terminals grammar.toBlocks ∧
        ∀ entry ∈ grammar.rules.entries, ∀ production ∈ entry.2, ∀ symbol ∈ production,
          symbol.isTerminal = true ↔ symbol.name ∈ terminals.map Terminal.name) ∧
    (∀ blocks, WellWritten terminals blocks →
      ∃ grammar, Grammar.read terminals (render blocks) = .ok grammar ∧
        grammar.toBlocks = blocks) ∧
    ∀ lines grammar, Grammar.read terminals lines = .ok grammar →
      Grammar.read terminals (render grammar.toBlocks) = .ok grammar := by
  refine ⟨fun lines grammar hread => ?_, fun blocks hblocks => ?_, fun lines grammar hread => ?_⟩
  · obtain ⟨hwritten, hdenotes⟩ := wellWritten_of_read hread
    exact ⟨hwritten, fun entry hentry production hproduction symbol hsymbol =>
      hdenotes.isTerminal_iff hentry hproduction hsymbol⟩
  · obtain ⟨grammar, -, hdenotes⟩ := hblocks.toConsistent.exists_denotes
    exact ⟨grammar, (read_render_eq_ok_iff hblocks).mpr hdenotes, hdenotes.toBlocks_eq⟩
  · obtain ⟨hwritten, hdenotes⟩ := wellWritten_of_read hread
    exact (read_render_eq_ok_iff hwritten).mpr hdenotes

/-- The terminals of pairs of numbers; the second one has the empty name. -/
def pairTerminals : List Terminal := [⟨"NUM", "[0-9]+"⟩, ⟨"", ""⟩]

/-- Blocks with a space in a header, an empty name in an alternative, and no alternative of the
second block. -/
def pairBlocks : List Block :=
  [⟨"the pair", [["NUM", "", "NUM"], ["none"]]⟩, ⟨"none", []⟩]

/-- The blocks of pairs and the grammar of sums. -/
theorem read_render_pairs :
    WellWritten pairTerminals pairBlocks ∧
      (∃ grammar, Grammar.read pairTerminals (render pairBlocks) = .ok grammar ∧
        grammar.toBlocks = pairBlocks) ∧
      Grammar.read sumTerminals sumLines = .ok sums ∧ WellWritten sumTerminals sums.toBlocks ∧
      Grammar.read sumTerminals (render sums.toBlocks) = .ok sums := by
  have hpairs : WellWritten pairTerminals pairBlocks := by
    refine ⟨⟨by decide, by decide, ?_⟩, by decide⟩
    simp [pairBlocks, pairTerminals, usedNames, Known]
  have hsums : Grammar.read sumTerminals sumLines = .ok sums := rfl
  exact ⟨hpairs, (read_render pairTerminals).2.1 pairBlocks hpairs, hsums,
    ((read_render sumTerminals).1 sumLines sums hsums).1,
    (read_render sumTerminals).2.2 sumLines sums hsums⟩

end TokenGrammar.Grammar
