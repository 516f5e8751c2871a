/-!
# Code units

Characters as numbers of sixteen bits: one above U+FFFF is a pair of surrogates, a high one and a
low one.

## Main definitions

* `Text.codeUnits` — the one or two code units of a character
* `Text.ofCodeUnits` — the text of a sequence of code units, pairs joined

## Main results

* `ofCodeUnits_flatMap` — joining undoes splitting
-/

namespace TokenGrammar.Text

/-- The code units of a character. -/
def codeUnits (c : Char) : List Nat :=
  let n := c.toNat
  if n < 0x10000 then [n]
  else [0xd800 + (n - 0x10000) / 0x400, 0xdc00 + (n - 0x10000) % 0x400]

/-- The first half of a pair. -/
def isHighSurrogate (u : Nat) : Bool := 0xd800 ≤ u && u < 0xdc00

/-- The second half of a pair. -/
def isLowSurrogate (u : Nat) : Bool := 0xdc00 ≤ u && u < 0xe000

/-- The character of a number; half a pair on its own is shown as the replacement character. -/
def ofCodeUnit (u : Nat) : Char :=
  if isHighSurrogate u || isLowSurrogate u then '\ufffd' else Char.ofNat u

/-- The text of a sequence of code units: a high half and the low half after it are one
character. Numbers above U+FFFF stand for themselves. -/
def ofCodeUnits : List Nat → List Char
  | [] => []
  | [u] => [ofCodeUnit u]
  | u :: v :: rest =>
    if isHighSurrogate u && isLowSurrogate v then
      Char.ofNat (0x10000 + (u - 0xd800) * 0x400 + (v - 0xdc00)) :: ofCodeUnits rest
    else ofCodeUnit u :: ofCodeUnits (v :: rest)

/-! ### Laws -/

/-- A character is a number outside the range of the surrogates. -/
theorem toNat_not_surrogate (c : Char) : c.toNat < 0xd800 ∨ 0xdfff < c.toNat ∧ c.toNat < 0x110000 :=
  c.valid

theorem ofCodeUnit_toNat (c : Char) : ofCodeUnit c.toNat = c := by
  have h := toNat_not_surrogate c
  rw [ofCodeUnit, if_neg, Char.ofNat_toNat]
  simp only [isHighSurrogate, isLowSurrogate, Bool.or_eq_true, Bool.and_eq_true,
    decide_eq_true_eq]
  omega

/-- A number that is not the first half of a pair stands for a character of its own. -/
theorem ofCodeUnits_cons {u : Nat} (h : isHighSurrogate u = false) (rest : List Nat) :
    ofCodeUnits (u :: rest) = ofCodeUnit u :: ofCodeUnits rest := by
  cases rest with
  | nil => rfl
  | cons v rest => simp [ofCodeUnits, h]

/-- The code units of a character are read back as that character, whatever follows. -/
theorem ofCodeUnits_codeUnits_append (c : Char) (rest : List Nat) :
    ofCodeUnits (codeUnits c ++ rest) = c :: ofCodeUnits rest := by
  have h := toNat_not_surrogate c
  by_cases hc : c.toNat < 0x10000
  · have hu : isHighSurrogate c.toNat = false := by
      simp only [isHighSurrogate, Bool.and_eq_false_iff, decide_eq_false_iff_not]; omega
    simp [codeUnits, hc, ofCodeUnits_cons hu, ofCodeUnit_toNat]
  · have hu : isHighSurrogate (0xd800 + (c.toNat - 0x10000) / 0x400) = true := by
      simp only [isHighSurrogate, Bool.and_eq_true, decide_eq_true_eq]; omega
    have hv : isLowSurrogate (0xdc00 + (c.toNat - 0x10000) % 0x400) = true := by
      simp only [isLowSurrogate, Bool.and_eq_true, decide_eq_true_eq]; omega
    have hn : 0x10000 + (0xd800 + (c.toNat - 0x10000) / 0x400 - 0xd800) * 0x400 +
        (0xdc00 + (c.toNat - 0x10000) % 0x400 - 0xdc00) = c.toNat := by omega
    simp only [codeUnits, hc, if_false, List.cons_append, List.nil_append, ofCodeUnits, hu, hv,
      Bool.and_self, if_true, hn, Char.ofNat_toNat]

/-- Joining undoes splitting. -/
theorem ofCodeUnits_flatMap (text : List Char) : ofCodeUnits (text.flatMap codeUnits) = text := by
  induction text with
  | nil => rfl
  | cons c text ih => rw [List.flatMap_cons, ofCodeUnits_codeUnits_append, ih]

end TokenGrammar.Text
