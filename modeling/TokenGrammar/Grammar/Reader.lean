import TokenGrammar.Failure
import TokenGrammar.Grammar.Basic
import TokenGrammar.Text.Blank
import TokenGrammar.Text.FileText
import TokenGrammar.Token.Basic

/-!
# Reading a grammar

A grammar is written in blocks, which are separated by blank lines. The first line of a block is
its header, the name of a non-terminal; every other line is an alternative, its names separated by
single spaces. Blanks at the two ends of a line do not count. A name in an alternative stands for
a terminal if there is a terminal of that name, else for the non-terminal of that name. The header
of the first block is the start symbol.

Headers are compared while lines come in, everything else is checked at the end: so a repeated
header is the first fault, a fault of the file comes next, then a grammar without blocks, and last
the first unknown name.

## Main definitions

* `Grammar.Block` — a header and the names of its alternatives
* `Grammar.blocksOf` — the blocks of some lines
* `Grammar.ofBlocks` — the grammar of some blocks, or the fault in them
* `Grammar.read` — the grammar of some lines
* `Grammar.readIncoming` — the grammar of lines that may be cut off by a fault of the file
-/

namespace TokenGrammar.Grammar

/-- A block: the name of a non-terminal, and the names of its alternatives. -/
structure Block where
  /-- The name of the non-terminal. -/
  header : String
  /-- Its alternatives, each as a list of names. -/
  alternatives : List (List String)
  deriving DecidableEq, Repr

/-- The names of an alternative. -/
def namesOf (line : List Char) : List String := (Text.cutAtSpaces line).map String.ofList

/-- The block of a run of lines; no lines make no block. -/
def Block.ofLines? : List (List Char) → Option Block
  | [] => none
  | header :: rest => some ⟨String.ofList header, rest.map namesOf⟩

/-- The blocks of some lines: the longest runs of lines that are not blank. -/
def blocksOf (lines : List (List Char)) : List Block :=
  ((lines.map Text.trim).splitOnP List.isEmpty).filterMap Block.ofLines?

/-- The first member of a list that equals an earlier one. -/
def firstRepeat? (seen : List String) : List String → Option String
  | [] => none
  | name :: rest =>
    if name ∈ seen then some name else firstRepeat? (name :: seen) rest

/-- The symbol of a name. -/
def symbolOf (terminals : NameSet) (name : String) : Symbol := ⟨name, terminals.contains name⟩

/-- The entry of a block in the rule table. -/
def Block.entry (terminals : NameSet) (block : Block) : String × List Production :=
  (block.header, block.alternatives.map (List.map (symbolOf terminals)))

/-- The first name in the alternatives that is neither a header nor a terminal. -/
def firstUnknown? (terminals : NameSet) (blocks : List Block) : Option String :=
  (blocks.flatMap fun block => block.alternatives.flatten).find? fun name =>
    !((blocks.map Block.header).contains name || terminals.contains name)

theorem not_mem_of_firstRepeat?_eq_none {seen names : List String}
    (h : firstRepeat? seen names = none) : names.Nodup ∧ ∀ name ∈ names, name ∉ seen := by
  induction names generalizing seen with
  | nil => simp
  | cons name rest ih =>
    rw [firstRepeat?] at h
    split at h
    · simp at h
    · next hn =>
      obtain ⟨hnodup, hrest⟩ := ih h
      refine ⟨List.nodup_cons.2 ⟨fun hm => hrest name hm (by simp), hnodup⟩, ?_⟩
      intro other ho
      rcases List.mem_cons.1 ho with rfl | ho
      · exact hn
      · exact fun hs => hrest other ho (by simp [hs])

/-- The rule table of blocks whose headers differ. -/
def tableOf (terminals : NameSet) (blocks : List Block)
    (h : firstRepeat? [] (blocks.map Block.header) = none) : RuleTable where
  entries := blocks.map (Block.entry terminals)
  nodup := by
    have hmap : (blocks.map (Block.entry terminals)).map Prod.fst = blocks.map Block.header := by
      simp [Block.entry, Function.comp_def]
    rw [hmap]
    exact (not_mem_of_firstRepeat?_eq_none h).1

/-- The grammar of some blocks. A fault of the file that they come from is reported after repeated
headers and before everything else. -/
def ofBlocks (terminals : NameSet) (blocks : List Block) (fileFault : Option ConfigFault) :
    Except ConfigFault Grammar :=
  match h : firstRepeat? [] (blocks.map Block.header) with
  | some name => .error (.repeatedHeader name)
  | none =>
    match fileFault, blocks.head? with
    | some fault, _ => .error fault
    | none, none => .error .noBlocks
    | none, some first =>
      match firstUnknown? terminals blocks with
      | some name => .error (.unknownSymbol name)
      | none => .ok ⟨tableOf terminals blocks h, ⟨first.header, false⟩, terminals⟩

/-- The names of some terminals. -/
def namesOfTerminals (terminals : List Terminal) : NameSet :=
  NameSet.ofList (terminals.map Terminal.name)

/-- The grammar that some lines write. -/
def read (terminals : List Terminal) (lines : List (List Char)) : Except ConfigFault Grammar :=
  ofBlocks (namesOfTerminals terminals) (blocksOf lines) none

/-- The grammar that a text writes. -/
def readText (terminals : List Terminal) (text : String) : Except ConfigFault Grammar :=
  read terminals (Text.linesOfText text.toList)

/-- The grammar in the file at `path`, whose lines are given as far as they can be read. -/
def readIncoming (terminals : List Terminal) (path : String) (incoming : Text.Incoming) :
    Except ConfigFault Grammar :=
  ofBlocks (namesOfTerminals terminals) (blocksOf incoming.lines)
    (incoming.fault.map fun fault => .unreadableGrammar path (.undecodable fault))

/-- The non-terminals without alternatives, in order of declaration: nothing derives from them. -/
def barren (grammar : Grammar) : List String :=
  (grammar.rules.entries.filter fun entry => entry.2.isEmpty).map Prod.fst

end TokenGrammar.Grammar
