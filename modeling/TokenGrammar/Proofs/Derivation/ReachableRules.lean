import TokenGrammar.Proofs.Derivation.LeftRecursion
import TokenGrammar.Proofs.Grammar.Reading

/-!
# Rules that are reached

A derivation looks up the alternatives of its start symbol, and after that only those of
non-terminals that it finds in alternatives. So two grammars with the same start symbol derive the
same if they agree on the rules that the start symbol leads to, whatever else they hold.

In terms of blocks, a name leads on only if it is not the name of a terminal: otherwise it stands
for the terminal, even if a block has it as its header. So the order of the blocks after the first
one makes no difference, and neither do blocks that nothing leads to.

## Main definitions

* `Grammar.alternativesOf` — the alternatives that blocks give to a name
* `Grammar.Uses` — an alternative of one name has another one in it, which is not that of a terminal
* `Grammar.AgreeFromStart` — blocks that agree on all that the first header leads to
* `Grammar.Variation` — changes to blocks that nothing leads to

## Main results

* `Parser.attempt_eq_of_reaches`, `Parser.runWithin_eq_of_reaches` — attempts and derivations depend
  on the rules that their symbol leads to
* `runWithin_eq_of_agreeFromStart` — a derivation depends on what the first header leads to
* `Variation.consistent`, `Variation.agreeFromStart` — what variations leave as it is
* `only_reachable_rules_matter` — both, for grammars that are read from lines
-/

namespace TokenGrammar

namespace Parser

variable {parser parser' : Parser}

/-- An attempt depends only on the rules that its symbol leads to. -/
theorem attempt_eq_of_reaches {origin : String} (htokens : parser.tokens = parser'.tokens)
    (halternatives : ∀ name, parser.rules.Reaches origin name →
      parser.rules.alternatives name = parser'.rules.alternatives name)
    {limit : Nat} {symbol : Symbol} {index : Int} {goal : Bool}
    (hsymbol : symbol.isTerminal = false → parser.rules.Reaches origin symbol.name) :
    parser.attempt limit symbol index goal = parser'.attempt limit symbol index goal := by
  induction limit generalizing symbol index goal with
  | zero => rfl
  | succ limit ih =>
    cases hterminal : symbol.isTerminal with
    | true =>
      rw [attempt_terminal hterminal, attempt_terminal hterminal]
      simp only [matchTerminal, htokens]
    | false =>
      have hreaches := hsymbol hterminal
      have haccepts : parser.accepts goal = parser'.accepts goal := by
        funext next
        rw [accepts, accepts, htokens]
      rw [attempt_nonterminal hterminal, attempt_nonterminal hterminal, haccepts,
        ← halternatives _ hreaches]
      congr 1
      -- A member that is a non-terminal is led to by the alternative that it is in.
      refine deriveFirst_congr (fun _ _ _ _ _ _ => trivial) ?_ trivial
      rintro production hproduction ⟨name, isTerminal⟩ hmember place -
      refine ih fun hmemberTerminal => ?_
      change isTerminal = false at hmemberTerminal
      subst hmemberTerminal
      exact hreaches.tail ⟨production, hproduction, hmember⟩

/-- A derivation depends only on the rules that the start symbol leads to. -/
theorem runWithin_eq_of_reaches (htokens : parser.tokens = parser'.tokens)
    (hstart : parser.start = parser'.start)
    (halternatives : ∀ name, parser.rules.Reaches parser.start.name name →
      parser.rules.alternatives name = parser'.rules.alternatives name) (limit : Nat) :
    parser.runWithin limit = parser'.runWithin limit := by
  have hparse : parser.parseWithin limit = parser'.parseWithin limit := by
    rw [parseWithin, parseWithin, ← hstart]
    exact attempt_eq_of_reaches htokens halternatives fun _ => .refl
  rw [runWithin, runWithin, htokens, hstart, hparse]

end Parser

namespace Grammar

/-- The alternatives that blocks give to a name: none if no block has it as its header. -/
def alternativesOf (blocks : List Block) (name : String) : List (List String) :=
  ((blocks.find? fun block => block.header == name).map Block.alternatives).getD []

/-- An alternative of `name` has `other` in it, and that is not the name of a terminal. -/
def Uses (terminals : List Terminal) (blocks : List Block) (name other : String) : Prop :=
  other ∉ terminals.map Terminal.name ∧
    ∃ alternative ∈ alternativesOf blocks name, other ∈ alternative

/-- The first headers are the same, and so are the alternatives of every name that they lead to. -/
structure AgreeFromStart (terminals : List Terminal) (blocks blocks' : List Block) : Prop where
  header_eq : blocks.head?.map Block.header = blocks'.head?.map Block.header
  alternatives_eq : ∀ first ∈ blocks.head?, ∀ name,
    Relation.ReflTransGen (Uses terminals blocks) first.header name →
      alternativesOf blocks name = alternativesOf blocks' name

/-- Changes to blocks that a derivation does not notice. -/
inductive Variation (terminals : List Terminal) : List Block → List Block → Prop
  /-- The blocks after the first one come in another order. -/
  | permuted {first : Block} {rest rest' : List Block} (h : rest.Perm rest') :
      Variation terminals (first :: rest) (first :: rest')
  /-- A block is added at the end. Its header is new and the names in it are known. -/
  | extended {blocks : List Block} {block : Block}
      (hheader : block.header ∉ blocks.map Block.header)
      (hknown : ∀ names ∈ block.alternatives, ∀ name ∈ names,
        Known terminals (blocks ++ [block]) name) :
      Variation terminals blocks (blocks ++ [block])
  /-- A later block whose header is also the name of a terminal has other alternatives. The names
  in them are known. -/
  | replaced {before after : List Block} {block : Block} {alternatives : List (List String)}
      (hbefore : before ≠ []) (hterminal : block.header ∈ terminals.map Terminal.name)
      (hknown : ∀ names ∈ alternatives, ∀ name ∈ names,
        Known terminals (before ++ block :: after) name) :
      Variation terminals (before ++ block :: after)
        (before ++ ⟨block.header, alternatives⟩ :: after)

variable {terminals : List Terminal} {blocks blocks' : List Block} {grammar grammar' : Grammar}
  {name other : String}

/-! ### The alternatives of a name -/

theorem alternativesOf_eq_nil (h : name ∉ blocks.map Block.header) :
    alternativesOf blocks name = [] := by
  have hfind : blocks.find? (fun block => block.header == name) = none := by
    rw [List.find?_eq_none]
    intro block hblock heq
    exact h (eq_of_beq heq ▸ List.mem_map_of_mem hblock)
  rw [alternativesOf, hfind]
  rfl

theorem alternativesOf_header (hnodup : (blocks.map Block.header).Nodup) {block : Block}
    (hblock : block ∈ blocks) : alternativesOf blocks block.header = block.alternatives := by
  cases hfind : blocks.find? (fun other => other.header == block.header) with
  | none => simpa using List.find?_eq_none.mp hfind block hblock
  | some other =>
    have hheader : other.header = block.header := by simpa using List.find?_some hfind
    obtain rfl := List.inj_on_of_nodup_map hnodup (List.mem_of_find?_eq_some hfind) hblock hheader
    rw [alternativesOf, hfind]
    rfl

/-- The alternatives of a name depend on the block with this header only. -/
theorem alternativesOf_congr (hnodup : (blocks.map Block.header).Nodup)
    (hnodup' : (blocks'.map Block.header).Nodup)
    (h : ∀ block, block.header = name → (block ∈ blocks ↔ block ∈ blocks')) :
    alternativesOf blocks name = alternativesOf blocks' name := by
  by_cases hname : name ∈ blocks.map Block.header
  · obtain ⟨block, hblock, rfl⟩ := List.mem_map.mp hname
    rw [alternativesOf_header hnodup hblock,
      alternativesOf_header hnodup' ((h block rfl).mp hblock)]
  · have hname' : name ∉ blocks'.map Block.header := by
      intro hmem
      obtain ⟨block, hblock, rfl⟩ := List.mem_map.mp hmem
      exact hname (List.mem_map_of_mem ((h block rfl).mpr hblock))
    rw [alternativesOf_eq_nil hname, alternativesOf_eq_nil hname']

theorem exists_block_of_mem_alternativesOf {alternative : List String}
    (h : alternative ∈ alternativesOf blocks name) :
    ∃ block ∈ blocks, block.header = name ∧ alternative ∈ block.alternatives := by
  rw [alternativesOf] at h
  cases hfind : blocks.find? (fun block => block.header == name) with
  | none =>
    rw [hfind] at h
    cases h
  | some block =>
    rw [hfind] at h
    exact ⟨block, List.mem_of_find?_eq_some hfind, by simpa using List.find?_some hfind, h⟩

/-- The rules of a grammar have the alternatives that its blocks give. -/
theorem Denotes.alternatives_eq (h : Denotes terminals blocks grammar) (name : String) :
    grammar.rules.alternatives name = (alternativesOf blocks name).map (List.map fun name =>
      ⟨name, decide (name ∈ terminals.map Terminal.name)⟩) := by
  have hnodup : (blocks.map Block.header).Nodup := by
    have hnames := grammar.rules.nodup
    rwa [h.entries, List.map_map] at hnames
  by_cases hname : name ∈ blocks.map Block.header
  · obtain ⟨block, hblock, rfl⟩ := List.mem_map.mp hname
    rw [alternativesOf_header hnodup hblock]
    refine RuleTable.alternatives_eq_of_mem ?_
    rw [h.entries]
    exact List.mem_map.mpr ⟨block, hblock, rfl⟩
  · rw [alternativesOf_eq_nil hname]
    refine RuleTable.alternatives_eq_nil ?_
    rwa [RuleTable.names, h.entries, List.map_map]

/-! ### What the first header leads to -/

/-- A non-terminal that a rule of the grammar refers to is used by the blocks. -/
theorem Denotes.uses_of_refers (h : Denotes terminals blocks grammar)
    (hrefers : grammar.rules.Refers name other) : Uses terminals blocks name other := by
  obtain ⟨production, hproduction, hmem⟩ := hrefers
  rw [h.alternatives_eq] at hproduction
  obtain ⟨alternative, halternative, rfl⟩ := List.mem_map.mp hproduction
  obtain ⟨used, hused, hsymbol⟩ := List.mem_map.mp hmem
  obtain ⟨rfl, hterminal⟩ := Symbol.mk.inj hsymbol
  exact ⟨of_decide_eq_false hterminal, alternative, halternative, hused⟩

/-- Grammars derive the same if their blocks agree on all that the first header leads to. -/
theorem runWithin_eq_of_agreeFromStart (h : Denotes terminals blocks grammar)
    (h' : Denotes terminals blocks' grammar') (hagree : AgreeFromStart terminals blocks blocks')
    (tokens : List Token) (limit : Nat) :
    (grammar.parser tokens).runWithin limit = (grammar'.parser tokens).runWithin limit := by
  obtain ⟨first, hfirst, hstart⟩ := h.start
  obtain ⟨first', hfirst', hstart'⟩ := h'.start
  have hheader : first.header = first'.header := by simpa [hfirst, hfirst'] using hagree.header_eq
  have hsame : (grammar.parser tokens).start = (grammar'.parser tokens).start := by
    change grammar.start = grammar'.start
    rw [hstart, hstart', hheader]
  refine @Parser.runWithin_eq_of_reaches (grammar.parser tokens) (grammar'.parser tokens) rfl hsame
    (fun name hreaches => ?_) limit
  change grammar.rules.Reaches grammar.start.name name at hreaches
  change grammar.rules.alternatives name = grammar'.rules.alternatives name
  rw [hstart] at hreaches
  have hpath := Relation.ReflTransGen.mono (fun _ _ => h.uses_of_refers) _ _ hreaches
  rw [h.alternatives_eq, h'.alternatives_eq, hagree.alternatives_eq first hfirst name hpath]

/-- What the first header of consistent blocks leads to is declared, and is not the name of a
terminal unless it is the first header itself. -/
theorem Consistent.of_reaches (h : Consistent terminals blocks) {first : Block}
    (hfirst : first ∈ blocks.head?)
    (hreaches : Relation.ReflTransGen (Uses terminals blocks) first.header name) :
    name ∈ blocks.map Block.header ∧
      (name ∉ terminals.map Terminal.name ∨ name = first.header) := by
  cases hreaches with
  | refl => exact ⟨List.mem_map_of_mem (List.mem_of_mem_head? hfirst), .inr rfl⟩
  | tail _ huses =>
    obtain ⟨hterminal, alternative, halternative, hmem⟩ := huses
    obtain ⟨block, hblock, -, hused⟩ := exists_block_of_mem_alternativesOf halternative
    have hknown := h.known name
      (List.mem_flatMap.mpr ⟨block, hblock, List.mem_flatten.mpr ⟨alternative, hused, hmem⟩⟩)
    exact ⟨hknown.resolve_right hterminal, .inl hterminal⟩

/-! ### Variations -/

/-- Blocks that keep all headers are consistent if the names in those of them that are new are
known. -/
theorem Consistent.of_headers_subset (h : Consistent terminals blocks) (hne : blocks' ≠ [])
    (hnodup : (blocks'.map Block.header).Nodup)
    (hheaders : ∀ header ∈ blocks.map Block.header, header ∈ blocks'.map Block.header)
    (hblocks : ∀ block ∈ blocks', block ∈ blocks ∨
      ∀ names ∈ block.alternatives, ∀ name ∈ names, Known terminals blocks' name) :
    Consistent terminals blocks' := by
  refine ⟨hne, hnodup, fun name hname => ?_⟩
  obtain ⟨block, hblock, hflatten⟩ := List.mem_flatMap.mp hname
  rcases hblocks block hblock with hold | hnew
  · have hknown := h.known name (List.mem_flatMap.mpr ⟨block, hold, hflatten⟩)
    exact hknown.imp_left (hheaders name)
  · obtain ⟨names, hnames, hmem⟩ := List.mem_flatten.mp hflatten
    exact hnew names hnames name hmem

/-- A variation of consistent blocks is consistent. -/
theorem Variation.consistent (hvariation : Variation terminals blocks blocks')
    (h : Consistent terminals blocks) : Consistent terminals blocks' := by
  cases hvariation with
  | @permuted first rest rest' hperm =>
    have hperm' := hperm.cons first
    have hheaders := hperm'.map Block.header
    exact h.of_headers_subset (List.cons_ne_nil _ _) (hheaders.nodup_iff.mp h.headers_nodup)
      (fun header => hheaders.mem_iff.mp) (fun block hblock => .inl (hperm'.mem_iff.mpr hblock))
  | @extended _ block hheader hknown =>
    refine h.of_headers_subset (by simp) ?_ (fun header hmem => by simp [hmem]) ?_
    · rw [List.map_append, List.nodup_append]
      refine ⟨h.headers_nodup, by simp, ?_⟩
      rintro header hmem _ hlast rfl
      exact hheader (List.mem_singleton.mp hlast ▸ hmem)
    · intro other hother
      rcases List.mem_append.mp hother with hold | hnew
      · exact .inl hold
      · exact .inr (List.mem_singleton.mp hnew ▸ hknown)
  | @replaced before after block alternatives hbefore hterminal hknown =>
    have hheaders : (before ++ ⟨block.header, alternatives⟩ :: after).map Block.header =
        (before ++ block :: after).map Block.header := by simp
    refine h.of_headers_subset (by simp) (hheaders ▸ h.headers_nodup)
      (fun header hmem => hheaders ▸ hmem) ?_
    intro other hother
    rcases List.mem_append.mp hother with hold | hrest
    · exact .inl (List.mem_append.mpr (.inl hold))
    · rcases List.mem_cons.mp hrest with rfl | hold
      · refine .inr fun names hnames name hname => ?_
        rw [Known, hheaders]
        exact hknown names hnames name hname
      · exact .inl (by simp [hold])

/-- A variation of consistent blocks agrees with them on all that the first header leads to. -/
theorem Variation.agreeFromStart (hvariation : Variation terminals blocks blocks')
    (h : Consistent terminals blocks) : AgreeFromStart terminals blocks blocks' := by
  have h' := hvariation.consistent h
  have hcongr := fun {name} => @alternativesOf_congr _ _ name h.headers_nodup h'.headers_nodup
  cases hvariation with
  | @permuted first rest rest' hperm =>
    exact ⟨rfl, fun _ _ _ _ => hcongr fun block _ => (hperm.cons first).mem_iff⟩
  | @extended _ block hheader _ =>
    obtain ⟨first, rest, rfl⟩ := List.exists_cons_of_ne_nil h.ne_nil
    refine ⟨rfl, fun start hstart name hreaches => hcongr ?_⟩
    rintro other rfl
    -- The new header is not that of an old block, so nothing leads to it.
    obtain ⟨hdeclared, -⟩ := h.of_reaches hstart hreaches
    have hne : other ≠ block := by
      rintro rfl
      exact hheader hdeclared
    simp [hne]
  | @replaced before after block alternatives hbefore hterminal _ =>
    obtain ⟨first, rest, rfl⟩ := List.exists_cons_of_ne_nil hbefore
    refine ⟨rfl, fun start hstart name hreaches => hcongr ?_⟩
    rintro other rfl
    -- The first header differs from this one, and nothing else leads to the name of a terminal.
    have hne : other.header ≠ block.header := by
      intro heq
      obtain rfl := Option.some.inj hstart
      rcases (h.of_reaches rfl hreaches).2 with hother | hother
      · exact hother (heq ▸ hterminal)
      · have hnodup := h.headers_nodup
        rw [List.cons_append, List.map_cons, List.nodup_cons] at hnodup
        exact hnodup.1 (hother ▸ heq ▸ by simp)
    have hblock : other ≠ block := fun heq => hne (heq ▸ rfl)
    have hreplaced : other ≠ ⟨block.header, alternatives⟩ := fun heq => hne (heq ▸ rfl)
    simp [hblock, hreplaced]

/-- **Only reachable rules matter.** If two grammars are read under the same terminals, begin with
the same header and agree on the alternatives of everything that this header leads to by way of
names that are not those of terminals, then they derive all tokens in the same way under every
limit. So a grammar may be varied: its later blocks put into another order, a block with a new
header added, or the alternatives replaced in a later block whose header is the name of a terminal.
If the lines write the variation, they are read, and derive all tokens in the same way. -/
theorem only_reachable_rules_matter (terminals : List Terminal) :
    (∀ lines lines' blocks blocks' grammar grammar', Writes lines blocks → Writes lines' blocks' →
      Grammar.read terminals lines = .ok grammar → Grammar.read terminals lines' = .ok grammar' →
      AgreeFromStart terminals blocks blocks' → ∀ tokens limit,
        (grammar.parser tokens).runWithin limit = (grammar'.parser tokens).runWithin limit) ∧
    ∀ lines lines' blocks blocks' grammar, Writes lines blocks → Writes lines' blocks' →
      Grammar.read terminals lines = .ok grammar → Variation terminals blocks blocks' →
      ∃ grammar', Grammar.read terminals lines' = .ok grammar' ∧ ∀ tokens limit,
        (grammar.parser tokens).runWithin limit = (grammar'.parser tokens).runWithin limit := by
  constructor
  · intro lines lines' blocks blocks' grammar grammar' hlines hlines' hread hread' hagree
    obtain ⟨-, hdenotes⟩ := read_eq_ok_iff.mp hread
    obtain ⟨-, hdenotes'⟩ := read_eq_ok_iff.mp hread'
    rw [← writes_iff.mp hlines] at hdenotes
    rw [← writes_iff.mp hlines'] at hdenotes'
    exact runWithin_eq_of_agreeFromStart hdenotes hdenotes' hagree
  · intro lines lines' blocks blocks' grammar hlines hlines' hread hvariation
    obtain ⟨hconsistent, hdenotes⟩ := read_eq_ok_iff.mp hread
    rw [← writes_iff.mp hlines] at hconsistent hdenotes
    obtain ⟨grammar', -, hdenotes'⟩ := (hvariation.consistent hconsistent).exists_denotes
    refine ⟨grammar', ?_, runWithin_eq_of_agreeFromStart hdenotes hdenotes'
      (hvariation.agreeFromStart hconsistent)⟩
    rw [read_eq_ok_iff, ← writes_iff.mp hlines']
    exact ⟨hvariation.consistent hconsistent, hdenotes'⟩

/-- The blocks of sums. -/
def sumBlocks : List Block :=
  [⟨"Expr", [["Term", "PLUS", "Expr"], ["Term"]]⟩,
    ⟨"Term", [["NUM"], ["LPAREN", "Expr", "RPAREN"]]⟩]

/-- A block whose header is the name of a terminal. -/
def numBlock : Block := ⟨"NUM", [["Term"]]⟩

/-- The lines of sums with this block at the end. -/
def extendedSumLines : List (List Char) := sumLines ++ ["", "NUM", "Term"].map String.toList

/-- The same lines with the later blocks in another order. -/
def permutedSumLines : List (List Char) :=
  ["Expr", "Term PLUS Expr", "Term", "", "NUM", "Term", "", "Term", "NUM",
    "LPAREN Expr RPAREN"].map String.toList

/-- The same lines with other alternatives in the last block. -/
def replacedSumLines : List (List Char) :=
  sumLines ++ ["", "NUM", "Expr Expr", "NUM"].map String.toList

/-- Sums are derived in the same way whether the block is there or not, wherever it stands, and
whatever its alternatives are. -/
theorem only_reachable_rules_matter_sums :
    Writes sumLines sumBlocks ∧ Grammar.read sumTerminals sumLines = .ok sums ∧
    ∃ extended permuted replaced : Grammar,
      Grammar.read sumTerminals extendedSumLines = .ok extended ∧
      Grammar.read sumTerminals permutedSumLines = .ok permuted ∧
      Grammar.read sumTerminals replacedSumLines = .ok replaced ∧
      AgreeFromStart sumTerminals sumBlocks (sumBlocks ++ [numBlock]) ∧ ∀ tokens limit,
        (sums.parser tokens).runWithin limit = (extended.parser tokens).runWithin limit ∧
        (extended.parser tokens).runWithin limit = (permuted.parser tokens).runWithin limit ∧
        (extended.parser tokens).runWithin limit = (replaced.parser tokens).runWithin limit := by
  have hread : Grammar.read sumTerminals sumLines = .ok sums := rfl
  have hwrites : Writes sumLines sumBlocks := writes_iff.mpr rfl
  have hextendedWrites : Writes extendedSumLines (sumBlocks ++ [numBlock]) := writes_iff.mpr rfl
  have hextends : Variation sumTerminals sumBlocks (sumBlocks ++ [numBlock]) :=
    .extended (by decide) (by simp [numBlock, sumBlocks, Known])
  obtain ⟨hagreeing, hvaried⟩ := only_reachable_rules_matter sumTerminals
  obtain ⟨extended, hextended, -⟩ := hvaried _ _ _ _ sums hwrites hextendedWrites hread hextends
  have hagree := hextends.agreeFromStart (writes_iff.mp hwrites ▸ (read_eq_ok_iff.mp hread).1)
  obtain ⟨permuted, hpermuted, hpermutedSame⟩ := hvaried extendedSumLines permutedSumLines
    _ (_ :: [numBlock, _]) extended hextendedWrites (writes_iff.mpr rfl) hextended
    (.permuted (.swap ..))
  obtain ⟨replaced, hreplaced, hreplacedSame⟩ := hvaried extendedSumLines replacedSumLines
    _ (sumBlocks ++ [⟨"NUM", [["Expr", "Expr"], ["NUM"]]⟩]) extended hextendedWrites
    (writes_iff.mpr rfl) hextended
    (.replaced (by decide) (by decide) (by simp [numBlock, sumBlocks, Known]))
  exact ⟨hwrites, hread, extended, permuted, replaced, hextended, hpermuted, hreplaced, hagree,
    fun tokens limit => ⟨hagreeing _ _ _ _ sums extended hwrites hextendedWrites hread hextended
      hagree tokens limit, hpermutedSame tokens limit, hreplacedSame tokens limit⟩⟩

end Grammar

end TokenGrammar
