/-!
# Grammars

A grammar gives each of its non-terminals an ordered list of alternatives, which are sequences of
symbols. Whether a symbol is a terminal is part of the symbol; two symbols count as the same if
their names agree.

## Main definitions

* `Symbol`, `Production` — a symbol, and one alternative
* `RuleTable` — the alternatives of each non-terminal, in order of declaration
* `RuleTable.insert`, `RuleTable.ofList` — an entry for a name that is there replaces the old one
* `NameSet` — a finite set of names, as the list of its members in order
* `Grammar` — a rule table with a start symbol and the names of the terminals

## Main results

* `alternatives_insert_self`, `alternatives_insert_of_ne` — what an insertion changes
* `mem_names_of_mem_alternatives`, `alternatives_eq_nil` — only declared names have alternatives
* `NameSet.mem_ofList` — the members of a set built from a list
-/

namespace TokenGrammar

/-- A symbol of a grammar. -/
structure Symbol where
  /-- The name as the grammar writes it. -/
  name : String
  /-- Whether it stands for a class of tokens. -/
  isTerminal : Bool := false
  deriving DecidableEq, Repr

namespace Symbol

/-- Symbols are compared by name. -/
def same (a b : Symbol) : Bool := a.name == b.name

/-- A symbol in words. -/
def describe (symbol : Symbol) : String :=
  "GrammarSymbol(" ++ symbol.name ++ ", terminal=" ++ (if symbol.isTerminal then "True" else "False")
    ++ ")"

end Symbol

/-- One alternative: the symbols that stand for a non-terminal, from left to right. -/
abbrev Production := List Symbol

/-- The alternatives of each non-terminal. No name has two entries. -/
structure RuleTable where
  /-- The entries in order of declaration. -/
  entries : List (String × List Production)
  /-- No name has two entries. -/
  nodup : (entries.map Prod.fst).Nodup
  deriving DecidableEq

namespace RuleTable

theorem eq_of_entries_eq {table table' : RuleTable} (h : table.entries = table'.entries) :
    table = table' := by
  obtain ⟨entries, hnodup⟩ := table
  subst h
  rfl

/-- The table without entries. -/
def empty : RuleTable := ⟨[], List.nodup_nil⟩

instance : Inhabited RuleTable := ⟨empty⟩

/-- The non-terminals in order of declaration. -/
def names (table : RuleTable) : List String := table.entries.map Prod.fst

/-- The alternatives of a name, none if it has no entry. -/
def alternatives (table : RuleTable) (name : String) : List Production :=
  (table.entries.lookup name).getD []

/-- Whether a name has an entry. -/
def declares (table : RuleTable) (name : String) : Bool := table.names.contains name

/-- The entries with those of `name` given new alternatives. -/
def replaceIn (name : String) (productions : List Production)
    (entries : List (String × List Production)) : List (String × List Production) :=
  entries.map fun entry => if entry.1 = name then (name, productions) else entry

theorem map_fst_replaceIn (name : String) (productions : List Production)
    (entries : List (String × List Production)) :
    (replaceIn name productions entries).map Prod.fst = entries.map Prod.fst := by
  simp only [replaceIn, List.map_map]
  refine List.map_congr_left fun entry _ => ?_
  simp only [Function.comp_apply]
  split <;> simp_all

/-- Gives a name its alternatives: at the end if the name is new, else in place of its old ones. -/
def insert (table : RuleTable) (name : String) (productions : List Production) : RuleTable :=
  if h : name ∈ table.names then
    ⟨replaceIn name productions table.entries, by
      rw [map_fst_replaceIn]; exact table.nodup⟩
  else
    ⟨table.entries ++ [(name, productions)], by
      rw [List.map_append, List.nodup_append]
      refine ⟨table.nodup, by simp, ?_⟩
      intro a ha b hb hab
      simp only [List.map_cons, List.map_nil, List.mem_singleton] at hb
      exact h (hb ▸ hab ▸ ha)⟩

/-- The table with the given entries, inserted one after the other. -/
def ofList (entries : List (String × List Production)) : RuleTable :=
  entries.foldl (fun table entry => table.insert entry.1 entry.2) empty

theorem lookup_replaceIn_of_ne {name other : String} (h : other ≠ name)
    (productions : List Production) (entries : List (String × List Production)) :
    (replaceIn name productions entries).lookup other = entries.lookup other := by
  induction entries with
  | nil => rfl
  | cons entry entries ih =>
    obtain ⟨key, value⟩ := entry
    simp only [replaceIn, List.map_cons] at ih ⊢
    by_cases hk : key = name
    · subst hk
      have hb : (other == key) = false := by simpa using h
      simp only [if_true, List.lookup_cons, hb, ih]
    · simp only [hk, if_false, List.lookup_cons, ih]

theorem lookup_replaceIn_self {name : String} (productions : List Production)
    {entries : List (String × List Production)} (h : name ∈ entries.map Prod.fst) :
    (replaceIn name productions entries).lookup name = some productions := by
  induction entries with
  | nil => simp at h
  | cons entry entries ih =>
    obtain ⟨key, value⟩ := entry
    simp only [replaceIn, List.map_cons] at ih ⊢
    by_cases hk : key = name
    · simp [hk]
    · have hb : (name == key) = false := by simpa using Ne.symm hk
      simp only [hk, if_false, List.lookup_cons, hb]
      refine ih ?_
      simpa [Ne.symm hk] using h

/-- A new name is inserted at the end. -/
theorem entries_insert_of_not_mem {table : RuleTable} {name : String} (h : name ∉ table.names)
    (productions : List Production) :
    (table.insert name productions).entries = table.entries ++ [(name, productions)] := by
  rw [insert, dif_neg h]

/-- New alternatives of the last name replace its old ones. -/
theorem entries_insert_last {table : RuleTable} {name : String}
    {earlier : List (String × List Production)} {old : List Production}
    (h : table.entries = earlier ++ [(name, old)]) (productions : List Production) :
    (table.insert name productions).entries = earlier ++ [(name, productions)] := by
  have hmem : name ∈ table.names := by simp [names, h]
  have hne : ∀ entry ∈ earlier, entry.1 ≠ name := by
    intro entry hentry
    have hnodup := table.nodup
    rw [h, List.map_append, List.nodup_append] at hnodup
    exact hnodup.2.2 entry.1 (List.mem_map_of_mem hentry) name (by simp)
  rw [insert, dif_pos hmem]
  simp only [h, replaceIn, List.map_append, List.map_cons, List.map_nil, if_true]
  congr 1
  exact (List.map_congr_left fun entry hentry => if_neg (hne entry hentry)).trans earlier.map_id

/-- An entry for a name gives it exactly the new alternatives. -/
theorem alternatives_insert_self (table : RuleTable) (name : String)
    (productions : List Production) :
    (table.insert name productions).alternatives name = productions := by
  rw [alternatives, insert]
  split
  · next h => simp [lookup_replaceIn_self productions h]
  · next h =>
    have hn : table.entries.lookup name = none := by
      rw [List.lookup_eq_none_iff]
      intro entry he
      have hne : name ≠ entry.1 := fun hk => h (hk ▸ List.mem_map_of_mem he)
      simpa using hne
    simp [List.lookup_append, hn]

/-- An entry for a name leaves the alternatives of the others as they are. -/
theorem alternatives_insert_of_ne (table : RuleTable) {name other : String} (h : other ≠ name)
    (productions : List Production) :
    (table.insert name productions).alternatives other = table.alternatives other := by
  rw [alternatives, alternatives, insert]
  split
  · simp [lookup_replaceIn_of_ne h]
  · have hb : (other == name) = false := by simpa using h
    simp [List.lookup_append, List.lookup_cons, hb]

theorem exists_entry_of_mem_alternatives {table : RuleTable} {name : String}
    {production : Production} (h : production ∈ table.alternatives name) :
    ∃ entry ∈ table.entries, entry.1 = name ∧ production ∈ entry.2 := by
  rw [alternatives] at h
  cases hlookup : table.entries.lookup name with
  | none => simp [hlookup] at h
  | some productions =>
    rw [hlookup, Option.getD_some] at h
    obtain ⟨before, after, hentries, -⟩ := List.lookup_eq_some_iff.mp hlookup
    exact ⟨(name, productions), by simp [hentries], rfl, h⟩

/-- The alternatives of a name are those in its entry. -/
theorem alternatives_eq_of_mem {table : RuleTable} {name : String} {productions : List Production}
    (h : (name, productions) ∈ table.entries) : table.alternatives name = productions := by
  obtain ⟨before, after, hentries⟩ := List.append_of_mem h
  -- No entry in front has the same name, so this one is found.
  have hlookup : table.entries.lookup name = some productions := by
    refine List.lookup_eq_some_iff.mpr ⟨before, after, hentries, fun entry hbefore => ?_⟩
    have hnodup := table.nodup
    rw [hentries, List.map_append, List.nodup_append] at hnodup
    have hne : entry.1 ≠ name :=
      hnodup.2.2 entry.1 (List.mem_map_of_mem hbefore) name (by simp)
    simpa using hne.symm
  rw [alternatives, hlookup, Option.getD_some]

theorem mem_alternatives_iff {table : RuleTable} {name : String} {production : Production} :
    production ∈ table.alternatives name ↔
      ∃ productions, (name, productions) ∈ table.entries ∧ production ∈ productions := by
  constructor
  · intro h
    obtain ⟨⟨_, productions⟩, hentry, rfl, hproduction⟩ := exists_entry_of_mem_alternatives h
    exact ⟨productions, hentry, hproduction⟩
  · rintro ⟨productions, hentry, hproduction⟩
    rwa [alternatives_eq_of_mem hentry]

theorem mem_names_of_mem_alternatives {table : RuleTable} {name : String}
    {production : Production} (h : production ∈ table.alternatives name) : name ∈ table.names := by
  obtain ⟨entry, hentry, rfl, -⟩ := exists_entry_of_mem_alternatives h
  exact List.mem_map_of_mem hentry

/-- A name without an entry has no alternatives. -/
theorem alternatives_eq_nil {table : RuleTable} {name : String} (h : name ∉ table.names) :
    table.alternatives name = [] :=
  List.eq_nil_iff_forall_not_mem.mpr fun _ hproduction =>
    h (mem_names_of_mem_alternatives hproduction)

end RuleTable

/-! ### Sets of names -/

/-- A finite set of names: its members once each, in increasing order of their characters. -/
abbrev NameSet := List String

namespace NameSet

/-- Adds a member. -/
def add (name : String) : NameSet → NameSet
  | [] => [name]
  | first :: rest =>
    if name < first then name :: first :: rest
    else if name = first then first :: rest
    else first :: add name rest

/-- The set of the names in a list. -/
def ofList (names : List String) : NameSet := names.foldr add []

theorem mem_add {name other : String} {set : NameSet} :
    other ∈ add name set ↔ other = name ∨ other ∈ set := by
  induction set with
  | nil => simp [add]
  | cons first rest ih =>
    rw [add]
    split
    · simp
    · split
      · next h => subst h; simp
      · simp only [List.mem_cons, ih]
        constructor <;> rintro (h | h | h) <;> simp [h]

theorem mem_ofList {names : List String} {name : String} : name ∈ ofList names ↔ name ∈ names := by
  induction names with
  | nil => simp [ofList]
  | cons first rest ih => simp only [ofList, List.foldr_cons, mem_add, List.mem_cons] at ih ⊢; rw [ih]

end NameSet

/-- A loaded grammar. -/
structure Grammar where
  /-- The alternatives of each non-terminal. -/
  rules : RuleTable
  /-- The symbol that stands for a whole sentence. -/
  start : Symbol
  /-- The names of all known terminals. -/
  terminalNames : NameSet
  deriving DecidableEq

namespace Grammar

/-- The non-terminals in order of declaration. -/
def nonterminals (grammar : Grammar) : List String := grammar.rules.names

/-- A grammar in words. -/
def describe (grammar : Grammar) : String :=
  "Grammar(start=" ++ grammar.start.name ++ ", nonterminals=" ++
    toString grammar.nonterminals.length ++ ", terminals=" ++
    toString grammar.terminalNames.length ++ ")"

end Grammar

end TokenGrammar
