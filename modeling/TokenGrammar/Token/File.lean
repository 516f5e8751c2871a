import TokenGrammar.Failure
import TokenGrammar.Token.Basic

/-!
# Token and terminal files

The entries of a JSON file that list tokens or terminals. A token is an object with at least a
name and a value, or a pair of the two; a terminal is a name, or an object with at least a name;
one object may also map all names to their patterns. Names and values of tokens and patterns of
terminals may be any value, which is taken as a text. The first entry of another shape is the
fault.

## Main definitions

* `Token.ofItem?`, `Token.ofJson` — one token, and all tokens of a file
* `Terminal.ofItem?`, `Terminal.ofJson` — one terminal, and all terminals of a file
-/

namespace TokenGrammar

/-- The integer that a member holds; zero if there is no such member, nothing if it holds anything
but an integer. -/
def Json.Members.position? (key : String) (members : Json.Members) : Option Int :=
  match members.lookup? key with
  | none => some 0
  | some (.int n) => some n
  | some _ => none

/-- Turns all entries of a list, the first one that has the wrong shape being the fault. -/
def ofEntries {α : Type} (ofItem? : Json → Option α) (fault : Json → ConfigFault) :
    List Json → Except ConfigFault (List α)
  | [] => .ok []
  | entry :: entries =>
    match ofItem? entry with
    | none => .error (fault entry)
    | some a => (ofEntries ofItem? fault entries).map (a :: ·)

/-- Entries are turned one by one: the list succeeds exactly if each of its entries does. -/
theorem ofEntries_eq_ok_iff {α : Type} {ofItem? : Json → Option α} {fault : Json → ConfigFault}
    {entries : List Json} {as : List α} :
    ofEntries ofItem? fault entries = .ok as ↔ entries.map ofItem? = as.map some := by
  induction entries generalizing as with
  | nil => cases as <;> simp [ofEntries]
  | cons entry entries ih =>
    rw [ofEntries]
    cases h : ofItem? entry with
    | none => cases as <;> simp [h]
    | some a =>
      cases as with
      | nil => cases hr : ofEntries ofItem? fault entries <;> simp [Except.map]
      | cons b bs =>
        simp only [List.map_cons, h, List.cons.injEq, Option.some.injEq, ← ih]
        cases hr : ofEntries ofItem? fault entries <;> simp [Except.map]

namespace Token

/-- The token of an entry. -/
def ofItem? : Json → Option Token
  | .obj members =>
    match Json.Members.lookup? "name" members, Json.Members.lookup? "value" members with
    | some name, some value =>
      match Json.Members.position? "line" members, Json.Members.position? "col" members with
      | some line, some col => some ⟨name.text, value.text, line, col⟩
      | _, _ => none
    | _, _ => none
  | .arr [name, value] => some ⟨name.text, value.text, 0, 0⟩
  | _ => none

/-- The tokens of a file. -/
def ofJson : Json → Except ConfigFault (List Token)
  | .arr entries => ofEntries ofItem? .invalidToken entries
  | _ => .error .tokensExpected

end Token

namespace Terminal

/-- The terminal of an entry in a list. -/
def ofItem? : Json → Option Terminal
  | .str name => some ⟨name, ""⟩
  | .obj members =>
    match Json.Members.lookup? "name" members with
    | some (.str name) =>
      some ⟨name, ((Json.Members.lookup? "pattern" members).map Json.text).getD ""⟩
    | _ => none
  | _ => none

/-- The terminals of a file. -/
def ofJson : Json → Except ConfigFault (List Terminal)
  | .obj members => .ok (members.map fun member => ⟨member.1, member.2.text⟩)
  | .arr entries => ofEntries ofItem? .invalidTerminal entries
  | _ => .error .terminalsExpected

end Terminal

end TokenGrammar
