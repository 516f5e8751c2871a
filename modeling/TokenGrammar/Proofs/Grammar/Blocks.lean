import TokenGrammar.Grammar.Reader

/-!
# From blocks to a grammar

Blocks are a grammar if there is one at least, their headers differ, and the names in their
alternatives are known. Otherwise one fault is reported, whatever else is wrong: the first header
that repeats one before it, else that there are no blocks, else the first name that is not known.

## Main definitions

* `Grammar.Known` — a header or the name of a terminal
* `Grammar.Consistent` — blocks that are a grammar
* `Grammar.Denotes` — the grammar that blocks stand for
* `Grammar.Reports` — the fault that is reported for blocks

## Main results

* `firstRepeat?_eq_some_iff` — the first header that repeats one before it
* `Consistent.exists_denotes` — consistent blocks give the grammar that they stand for
* `Reports.ofBlocks_eq`, `consistent_or_reports` — other blocks give the fault that is reported
-/

namespace TokenGrammar.Grammar

/-- A name is known as that of a block or of a terminal. -/
def Known (terminals : List Terminal) (blocks : List Block) (name : String) : Prop :=
  name ∈ blocks.map Block.header ∨ name ∈ terminals.map Terminal.name

/-- The names in the alternatives of some blocks, in order. -/
def usedNames (blocks : List Block) : List String :=
  blocks.flatMap fun block => block.alternatives.flatten

/-- Blocks that are a grammar. -/
structure Consistent (terminals : List Terminal) (blocks : List Block) : Prop where
  ne_nil : blocks ≠ []
  headers_nodup : (blocks.map Block.header).Nodup
  known : ∀ name ∈ usedNames blocks, Known terminals blocks name

/-- The grammar that blocks stand for. -/
structure Denotes (terminals : List Terminal) (blocks : List Block) (grammar : Grammar) : Prop where
  /-- The rules are the blocks. Names of terminals stand for terminals, all others do not. -/
  entries : grammar.rules.entries = blocks.map fun block =>
    (block.header, block.alternatives.map (List.map fun name =>
      ⟨name, decide (name ∈ terminals.map Terminal.name)⟩))
  /-- The first block is that of the start symbol, which is a non-terminal in any case. -/
  start : ∃ first, blocks.head? = some first ∧ grammar.start = ⟨first.header, false⟩
  terminalNames : grammar.terminalNames = namesOfTerminals terminals

/-- The fault that is reported for blocks. -/
inductive Reports (terminals : List Terminal) (blocks : List Block) : ConfigFault → Prop
  /-- The first header that repeats one before it. -/
  | repeatedHeader {before after : List String} {name : String}
      (hheaders : blocks.map Block.header = before ++ name :: after) (hbefore : before.Nodup)
      (hname : name ∈ before) : Reports terminals blocks (.repeatedHeader name)
  | noBlocks (hblocks : blocks = []) : Reports terminals blocks .noBlocks
  /-- The first name that is not known. -/
  | unknownSymbol {before after : List String} {name : String}
      (hheaders : (blocks.map Block.header).Nodup)
      (hnames : usedNames blocks = before ++ name :: after)
      (hbefore : ∀ other ∈ before, Known terminals blocks other)
      (hname : ¬ Known terminals blocks name) : Reports terminals blocks (.unknownSymbol name)

/-! ### Repeated headers -/

variable {seen names : List String} {name : String}

theorem firstRepeat?_eq_none_iff :
    firstRepeat? seen names = none ↔ names.Nodup ∧ ∀ name ∈ names, name ∉ seen := by
  refine ⟨not_mem_of_firstRepeat?_eq_none, ?_⟩
  induction names generalizing seen with
  | nil => simp [firstRepeat?]
  | cons first rest ih =>
    rintro ⟨hnodup, hseen⟩
    obtain ⟨hfirst, hrest⟩ := List.nodup_cons.mp hnodup
    rw [firstRepeat?, if_neg (hseen first (by simp))]
    refine ih ⟨hrest, fun other hother hmem => ?_⟩
    rcases List.mem_cons.mp hmem with rfl | hmem
    · exact hfirst hother
    · exact hseen other (by simp [hother]) hmem

/-- The first repetition comes after names that do not repeat anything. -/
theorem firstRepeat?_eq_some_iff :
    firstRepeat? seen names = some name ↔
      ∃ before after, names = before ++ name :: after ∧
        (before.Nodup ∧ ∀ other ∈ before, other ∉ seen) ∧ (name ∈ before ∨ name ∈ seen) := by
  induction names generalizing seen with
  | nil => simp [firstRepeat?]
  | cons first rest ih =>
    rw [firstRepeat?]
    by_cases hfirst : first ∈ seen
    · rw [if_pos hfirst, Option.some.injEq]
      constructor
      · rintro rfl
        exact ⟨[], rest, rfl, by simp, .inr hfirst⟩
      · rintro ⟨_ | ⟨other, before⟩, after, hnames, ⟨-, hbefore⟩, -⟩
        · exact (List.cons.inj hnames).1
        · obtain ⟨rfl, -⟩ := List.cons.inj hnames
          exact absurd hfirst (hbefore first (by simp))
    · rw [if_neg hfirst, ih]
      constructor
      · rintro ⟨before, after, rfl, ⟨hnodup, hbefore⟩, hname⟩
        refine ⟨first :: before, after, rfl, ⟨?_, ?_⟩, ?_⟩
        · exact List.nodup_cons.mpr ⟨fun hmem => hbefore first hmem (by simp), hnodup⟩
        · rintro other hother hmem
          rcases List.mem_cons.mp hother with rfl | hother
          · exact hfirst hmem
          · exact hbefore other hother (by simp [hmem])
        · simpa [or_assoc, or_comm, or_left_comm] using hname
      · rintro ⟨_ | ⟨other, before⟩, after, hnames, ⟨hnodup, hbefore⟩, hname⟩
        · obtain ⟨rfl, -⟩ := List.cons.inj hnames
          exact absurd (hname.resolve_left (by simp)) hfirst
        · obtain ⟨rfl, rfl⟩ := List.cons.inj hnames
          obtain ⟨hfresh, hnodup'⟩ := List.nodup_cons.mp hnodup
          refine ⟨before, after, rfl, ⟨hnodup', fun other hother hmem => ?_⟩, ?_⟩
          · rcases List.mem_cons.mp hmem with rfl | hmem
            · exact hfresh hother
            · exact hbefore other (by simp [hother]) hmem
          · simpa [or_assoc, or_comm, or_left_comm] using hname

theorem firstRepeat?_nil_eq_none_iff : firstRepeat? [] names = none ↔ names.Nodup := by
  simp [firstRepeat?_eq_none_iff]

theorem firstRepeat?_nil_eq_some_iff :
    firstRepeat? [] names = some name ↔
      ∃ before after, names = before ++ name :: after ∧ before.Nodup ∧ name ∈ before := by
  simp [firstRepeat?_eq_some_iff]

/-! ### The grammar or the fault -/

section OfBlocks

variable {terminals : NameSet} {blocks : List Block}

theorem ofBlocks_of_repeated (h : firstRepeat? [] (blocks.map Block.header) = some name) :
    ofBlocks terminals blocks none = .error (.repeatedHeader name) := by
  rw [ofBlocks]
  split
  · next name' h' => rw [Option.some.inj (h.symm.trans h')]
  · next h' => cases h.symm.trans h'

theorem ofBlocks_of_unknown (h : firstRepeat? [] (blocks.map Block.header) = none)
    (hne : blocks ≠ []) (hunknown : firstUnknown? terminals blocks = some name) :
    ofBlocks terminals blocks none = .error (.unknownSymbol name) := by
  obtain ⟨first, rest, rfl⟩ := List.exists_cons_of_ne_nil hne
  rw [ofBlocks]
  split
  · next h' => cases h.symm.trans h'
  · simp only [List.head?_cons, hunknown]

theorem ofBlocks_of_known {first : Block} {rest : List Block}
    (h : firstRepeat? [] ((first :: rest).map Block.header) = none)
    (hunknown : firstUnknown? terminals (first :: rest) = none) :
    ofBlocks terminals (first :: rest) none =
      .ok ⟨tableOf terminals (first :: rest) h, ⟨first.header, false⟩, terminals⟩ := by
  rw [ofBlocks]
  split
  · next h' => cases h.symm.trans h'
  · simp only [List.head?_cons, hunknown]

end OfBlocks

section Reports

variable {terminals : List Terminal} {blocks : List Block}

theorem isKnown_iff :
    ((blocks.map Block.header).contains name || (namesOfTerminals terminals).contains name) = true ↔
      Known terminals blocks name := by
  rw [Bool.or_eq_true, List.contains_iff_mem, List.contains_iff_mem, namesOfTerminals,
    NameSet.mem_ofList, Known]

theorem firstUnknown?_eq_none_iff :
    firstUnknown? (namesOfTerminals terminals) blocks = none ↔
      ∀ name ∈ usedNames blocks, Known terminals blocks name := by
  simp only [firstUnknown?, List.find?_eq_none, Bool.not_eq_true', Bool.not_eq_false, isKnown_iff,
    usedNames]

theorem firstUnknown?_eq_some_iff :
    firstUnknown? (namesOfTerminals terminals) blocks = some name ↔
      ∃ before after, usedNames blocks = before ++ name :: after ∧
        (∀ other ∈ before, Known terminals blocks other) ∧ ¬ Known terminals blocks name := by
  have hunknown : ∀ {other}, (!((blocks.map Block.header).contains other ||
      (namesOfTerminals terminals).contains other)) = true ↔ ¬ Known terminals blocks other := by
    intro other
    rw [Bool.not_eq_true', ← Bool.not_eq_true, isKnown_iff]
  simp only [firstUnknown?, List.find?_eq_some_iff_append, Bool.not_not, isKnown_iff, hunknown,
    usedNames]
  constructor
  · rintro ⟨hname, before, after, hnames, hbefore⟩
    exact ⟨before, after, hnames, hbefore, hname⟩
  · rintro ⟨before, after, hnames, hbefore, hname⟩
    exact ⟨hname, before, after, hnames, hbefore⟩

/-- A name stands for a terminal exactly if there is a terminal of that name. -/
theorem symbolOf_namesOfTerminals (terminals : List Terminal) :
    symbolOf (namesOfTerminals terminals) =
      fun name => ⟨name, decide (name ∈ terminals.map Terminal.name)⟩ := by
  funext name
  rw [symbolOf, Symbol.mk.injEq, Bool.eq_iff_iff, decide_eq_true_iff, List.contains_iff_mem]
  exact ⟨rfl, NameSet.mem_ofList⟩

/-- Consistent blocks give the grammar that they stand for. -/
theorem Consistent.exists_denotes (h : Consistent terminals blocks) :
    ∃ grammar, ofBlocks (namesOfTerminals terminals) blocks none = .ok grammar ∧
      Denotes terminals blocks grammar := by
  obtain ⟨first, rest, rfl⟩ := List.exists_cons_of_ne_nil h.ne_nil
  have hheaders := firstRepeat?_nil_eq_none_iff.mpr h.headers_nodup
  refine ⟨_, ofBlocks_of_known hheaders (firstUnknown?_eq_none_iff.mpr h.known), ?_, ?_, rfl⟩
  · refine List.map_congr_left fun block _ => ?_
    rw [Block.entry, symbolOf_namesOfTerminals]
  · exact ⟨first, rfl, rfl⟩

/-- The fault that is reported is the one that is found. -/
theorem Reports.ofBlocks_eq {fault : ConfigFault} (h : Reports terminals blocks fault) :
    ofBlocks (namesOfTerminals terminals) blocks none = .error fault := by
  cases h with
  | repeatedHeader hheaders hbefore hname =>
    exact ofBlocks_of_repeated (firstRepeat?_nil_eq_some_iff.mpr ⟨_, _, hheaders, hbefore, hname⟩)
  | noBlocks hblocks =>
    subst hblocks
    rfl
  | unknownSymbol hheaders hnames hbefore hname =>
    refine ofBlocks_of_unknown (firstRepeat?_nil_eq_none_iff.mpr hheaders) ?_
      (firstUnknown?_eq_some_iff.mpr ⟨_, _, hnames, hbefore, hname⟩)
    rintro rfl
    simp [usedNames] at hnames

/-- Blocks that are not consistent are reported. -/
theorem consistent_or_reports (terminals : List Terminal) (blocks : List Block) :
    Consistent terminals blocks ∨ ∃ fault, Reports terminals blocks fault := by
  cases hrepeat : firstRepeat? [] (blocks.map Block.header) with
  | some name =>
    obtain ⟨before, after, hheaders, hbefore, hname⟩ := firstRepeat?_nil_eq_some_iff.mp hrepeat
    exact .inr ⟨_, .repeatedHeader hheaders hbefore hname⟩
  | none =>
    have hheaders := firstRepeat?_nil_eq_none_iff.mp hrepeat
    by_cases hne : blocks = []
    · exact .inr ⟨_, .noBlocks hne⟩
    · cases hunknown : firstUnknown? (namesOfTerminals terminals) blocks with
      | some name =>
        obtain ⟨before, after, hnames, hbefore, hname⟩ := firstUnknown?_eq_some_iff.mp hunknown
        exact .inr ⟨_, .unknownSymbol hheaders hnames hbefore hname⟩
      | none => exact .inl ⟨hne, hheaders, firstUnknown?_eq_none_iff.mp hunknown⟩

end Reports

end TokenGrammar.Grammar
