/-!
# Indices

An index tells a place in a list: from the front if it is not negative, and from the end if it is.
An index that tells no place is at fault in one of two ways, as it is a machine word or not.

## Main definitions

* `IndexFault` — why an index tells no place
* `placeOf` — the place that an index tells

## Main results

* `placeOf_natCast`, `placeOf_neg_natCast` — every place is told from the front and from the end
* `placeOf_lt` — an index tells places in the list only
-/

namespace TokenGrammar

/-- Why an index tells no place in a list. -/
inductive IndexFault
  /-- The place would be before the first or after the last one. -/
  | outOfRange
  /-- The index is not even a machine word. -/
  | tooLarge
  deriving DecidableEq, Repr

/-- The wording of a fault. -/
def IndexFault.message : IndexFault → String
  | outOfRange => "list index out of range"
  | tooLarge => "cannot fit 'int' into an index-sized integer"

/-- Whether an integer is a signed machine word of 64 bits. -/
def isWord (index : Int) : Bool :=
  decide (-0x8000000000000000 ≤ index) && decide (index < 0x8000000000000000)

/-- The place that an index tells in a list of some length. -/
def placeOf (length : Nat) (index : Int) : Except IndexFault Nat :=
  let place := if index < 0 then index + length else index
  if 0 ≤ place ∧ place < length then .ok place.toNat
  else if isWord index then .error .outOfRange
  else .error .tooLarge

theorem placeOf_natCast {length place : Nat} (h : place < length) :
    placeOf length (place : Int) = .ok place := by
  have hneg : ¬ ((place : Int) < 0) := by omega
  simp [placeOf, hneg, h]

theorem placeOf_neg_natCast {length place : Nat} (hpos : 0 < place) (h : place ≤ length) :
    placeOf length (-(place : Int)) = .ok (length - place) := by
  have hneg : -(place : Int) < 0 := by omega
  have hplace : 0 ≤ -(place : Int) + length ∧ -(place : Int) + length < length := by omega
  have htoNat : (-(place : Int) + length).toNat = length - place := by omega
  simp only [placeOf, if_pos hneg, if_pos hplace, htoNat]

theorem placeOf_lt {length place : Nat} {index : Int} (h : placeOf length index = .ok place) :
    place < length := by
  unfold placeOf at h
  generalize (if index < 0 then index + (length : Int) else index) = told at h
  by_cases hplace : 0 ≤ told ∧ told < length
  · simp only [if_pos hplace, Except.ok.injEq] at h
    omega
  · simp only [if_neg hplace] at h
    split at h <;> cases h

end TokenGrammar
