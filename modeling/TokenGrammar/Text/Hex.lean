/-!
# Hexadecimal digits

Lower-case hexadecimal numerals of a fixed width, and the value of a digit in either case.

## Main definitions

* `Text.hexDigit` — the digit of a number below sixteen
* `Text.hexNumeral` — the last digits of a number, as many as the width says
* `Text.hexValue?` — the number a digit stands for
-/

namespace TokenGrammar.Text

/-- The lower-case hexadecimal digit of `n`, for `n` below sixteen. -/
def hexDigit (n : Nat) : Char :=
  if n < 10 then Char.ofNat (48 + n) else Char.ofNat (87 + n)

/-- The last `width` hexadecimal digits of `n`, padded with zeros in front. -/
def hexNumeral : (width : Nat) → (n : Nat) → List Char
  | 0, _ => []
  | width + 1, n => hexNumeral width (n / 16) ++ [hexDigit (n % 16)]

@[simp] theorem length_hexNumeral (width n : Nat) : (hexNumeral width n).length = width := by
  induction width generalizing n with
  | zero => rfl
  | succ width ih => simp [hexNumeral, ih]

/-- The value of a hexadecimal digit of either case. -/
def hexValue? (c : Char) : Option Nat :=
  if '0' ≤ c ∧ c ≤ '9' then some (c.toNat - 48)
  else if 'a' ≤ c ∧ c ≤ 'f' then some (c.toNat - 87)
  else if 'A' ≤ c ∧ c ≤ 'F' then some (c.toNat - 55)
  else none

/-- Reading a written digit gives the number back. -/
theorem hexValue?_hexDigit : ∀ n < 16, hexValue? (hexDigit n) = some n := by decide

end TokenGrammar.Text
