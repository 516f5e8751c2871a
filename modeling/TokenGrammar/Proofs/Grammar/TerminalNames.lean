import Mathlib.Data.List.Sort
import TokenGrammar.Grammar.Reader

/-!
# The names of the terminals

A set of names is the list of its members in increasing order, so two sets with the same members are
equal. All that reading a grammar looks at in the terminals is the set of their names; patterns, and
the order and the repetition of names, are of no account.

## Main results

* `NameSet.pairwise_lt_ofList` — a set lists its members in increasing order
* `NameSet.ofList_eq_iff` — sets are equal if they have the same members
* `Grammar.read_eq_of_names` — reading depends on the names only
-/

namespace TokenGrammar

namespace NameSet

variable {name : String} {set : NameSet} {names names' : List String}

theorem pairwise_lt_add (h : set.Pairwise (· < ·)) : (add name set).Pairwise (· < ·) := by
  induction set with
  | nil => exact List.pairwise_singleton ..
  | cons first rest ih =>
    obtain ⟨hfirst, hrest⟩ := List.pairwise_cons.mp h
    rw [add]
    split
    · next hlt =>
      -- What is greater than the first member is greater than the new one.
      refine List.pairwise_cons.mpr ⟨fun other hother => ?_, h⟩
      rcases List.mem_cons.mp hother with rfl | hother
      · exact hlt
      · exact String.lt_trans hlt (hfirst other hother)
    · split
      · exact h
      · next hnot hne =>
        have hlt : first < name :=
          (Std.Trichotomous.rel_or_eq_or_rel_swap.resolve_left hnot).resolve_left hne
        refine List.pairwise_cons.mpr ⟨fun other hother => ?_, ih hrest⟩
        rcases mem_add.mp hother with rfl | hother
        · exact hlt
        · exact hfirst other hother

theorem pairwise_lt_ofList (names : List String) : (ofList names).Pairwise (· < ·) := by
  induction names with
  | nil => exact List.Pairwise.nil
  | cons name names ih => exact pairwise_lt_add ih

/-- A set is given by its members. -/
theorem ofList_eq_iff :
    ofList names = ofList names' ↔ ∀ name, name ∈ names ↔ name ∈ names' := by
  have hmem : (∀ name, name ∈ ofList names ↔ name ∈ ofList names') ↔
      ∀ name, name ∈ names ↔ name ∈ names' := by
    simp only [mem_ofList]
  rw [← hmem]
  constructor
  · intro h name
    rw [h]
  · exact (pairwise_lt_ofList names).eq_of_mem_iff (pairwise_lt_ofList names')

end NameSet

namespace Grammar

variable {terminals terminals' : List Terminal}

/-- Reading looks at nothing of the terminals but the set of their names. -/
theorem read_eq_of_names
    (h : ∀ name, name ∈ terminals.map Terminal.name ↔ name ∈ terminals'.map Terminal.name)
    (lines : List (List Char)) : Grammar.read terminals lines = Grammar.read terminals' lines := by
  rw [Grammar.read, Grammar.read, namesOfTerminals, namesOfTerminals, NameSet.ofList_eq_iff.mpr h]

end Grammar

end TokenGrammar
