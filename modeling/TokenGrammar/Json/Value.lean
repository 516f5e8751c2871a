import TokenGrammar.Decimal.Binary64

/-!
# JSON values

A value as a JSON text denotes it: integers are unbounded and apart from the other numbers, and
the members of an object keep the order in which their keys first appear.

## Main definitions

* `Json` — the values
* `Json.Members` — the members of an object, in order
* `Json.Members.insert` — sets a member: a key that is there keeps its place
* `Json.Members.lookup?` — the value of a key

## Main results

* `lookup?_insert_self`, `lookup?_insert_of_ne` — what a key denotes after an insertion
-/

namespace TokenGrammar

/-- A JSON value. -/
inductive Json
  | null
  | bool (b : Bool)
  | int (n : Int)
  | float (x : Binary64)
  | str (s : String)
  | arr (items : List Json)
  | obj (members : List (String × Json))

namespace Json

instance : Inhabited Json := ⟨.null⟩

/-- The members of an object, in order. -/
abbrev Members := List (String × Json)

namespace Members

/-- Sets the member `key`: the last value counts, at the place where the key was first. -/
def insert (key : String) (value : Json) : Members → Members
  | [] => [(key, value)]
  | (k, v) :: rest => if k = key then (key, value) :: rest else (k, v) :: insert key value rest

/-- The value of a key. -/
def lookup? (key : String) : Members → Option Json
  | [] => none
  | (k, v) :: rest => if k = key then some v else lookup? key rest

theorem lookup?_insert_self (key : String) (value : Json) (members : Members) :
    lookup? key (insert key value members) = some value := by
  induction members with
  | nil => simp [insert, lookup?]
  | cons m rest ih =>
    by_cases h : m.1 = key
    · simp [insert, lookup?, h]
    · simp [insert, lookup?, h, ih]

theorem lookup?_insert_of_ne {key other : String} (h : key ≠ other) (value : Json)
    (members : Members) : lookup? other (insert key value members) = lookup? other members := by
  induction members with
  | nil => simp [insert, lookup?, h]
  | cons m rest ih =>
    by_cases hm : m.1 = key
    · simp [insert, lookup?, hm, h]
    · simp [insert, lookup?, hm, ih]

/-- A fresh key goes to the end. -/
theorem insert_of_not_mem {key : String} {members : Members}
    (h : key ∉ members.map Prod.fst) (value : Json) :
    insert key value members = members ++ [(key, value)] := by
  induction members with
  | nil => rfl
  | cons m rest ih =>
    simp only [List.map_cons, List.mem_cons, not_or] at h
    simp [insert, Ne.symm h.1, ih h.2]

end Members

end Json

end TokenGrammar
