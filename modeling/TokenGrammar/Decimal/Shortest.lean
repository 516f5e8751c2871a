import TokenGrammar.Decimal.Binary64

/-!
# The shortest decimal of a binary number

A finite value is written with the fewest digits that read back as the same value; of those the
nearest to it is taken, and halfway between two the one with the even last digit. Magnitudes from
`10 ^ -4` up to `10 ^ 16` are written in positional notation, the others with an exponent.

## Main definitions

* `Decimal.Interval` — the numbers that round to a given value
* `Decimal.shortest` — digits and place of the point
* `Binary64.text` — the written form
-/

namespace TokenGrammar

namespace Decimal

/-- The numbers that round to a value: between two multiples of `unit / 4`, where the ends belong
to the interval if `closed`. The unit is a power of two, given as a quotient. -/
structure Interval where
  /-- The value itself, in quarters of the unit. -/
  centre : Nat
  /-- The lower end, in quarters of the unit. -/
  low : Nat
  /-- The upper end, in quarters of the unit. -/
  high : Nat
  /-- Whether the ends belong to the interval. -/
  closed : Bool

/-- The interval of `significand · 2 ^ exponent`. Half a unit belongs to it on both sides, except
that below a power of two the next value is only half a unit away. -/
def Interval.of (significand : Nat) (exponent : Int) : Interval where
  centre := 4 * significand
  low :=
    if significand = Binary64.leastNormal ∧ Binary64.minExponent < exponent then 4 * significand - 1
    else 4 * significand - 2
  high := 4 * significand + 2
  closed := significand % 2 = 0

/-- A decimal `0.d₁d₂… · 10 ^ point`, its digits read as one number. -/
structure Digits where
  /-- The digits, without leading zeros. -/
  digits : Nat
  /-- The place of the decimal point: how many digits stand before it. -/
  point : Int
  deriving DecidableEq, Repr

/-- The place of the point of a positive quotient: the least `p` with `num / den < 10 ^ p`. -/
def pointOf (num den : Nat) : Int :=
  let estimate : Int := (digitCount num : Int) - digitCount den
  let scaled := scale 10 num den (-estimate)
  if scaled.1 < scaled.2 then estimate else estimate + 1

/-- The best multiple of `10 ^ step` inside the interval, if there is one: of the two neighbours of
the value on that grid the one inside, or the nearer one, or the even one. Here `num / den` is a
quarter of the unit. -/
def onGrid (interval : Interval) (num den : Nat) (step : Int) : Option Nat :=
  let quarter := scale 10 num den (-step)
  let below := interval.centre * quarter.1 / quarter.2
  let above := below + 1
  let inside (n : Nat) : Bool :=
    let low := interval.low * quarter.1
    let high := interval.high * quarter.1
    let here := n * quarter.2
    if interval.closed then low ≤ here && here ≤ high else low < here && here < high
  if inside below && inside above then
    -- Compare the value with the middle of the two, both doubled.
    let value := 2 * interval.centre * quarter.1
    let middle := (below + above) * quarter.2
    if value < middle ∨ (value = middle ∧ below % 2 = 0) then some below else some above
  else if inside below then some below
  else if inside above then some above
  else none

/-- The first grid, from coarse to fine, that has a point inside the interval. -/
def firstGrid (interval : Interval) (num den : Nat) (point : Int) : List Nat → Option (Nat × Nat)
  | [] => none
  | count :: counts =>
    match onGrid interval num den (point - count) with
    | some n => some (n, count)
    | none => firstGrid interval num den point counts

/-- The shortest decimal of `significand · 2 ^ exponent`, for a positive significand. Seventeen
digits always suffice. -/
def shortest (significand : Nat) (exponent : Int) : Digits :=
  let interval := Interval.of significand exponent
  let quarter := scale 2 1 4 exponent
  let point := pointOf (interval.centre * quarter.1) quarter.2
  match firstGrid interval quarter.1 quarter.2 point ((List.range 17).map (· + 1)) with
  -- Rounding up may have added a digit.
  | some (n, count) => ⟨n, point + (digitCount n - count : Int)⟩
  | none => ⟨0, 0⟩

end Decimal

namespace Binary64

/-- A digit string without the zeros at its end. -/
def dropFinalZeros (digits : List Char) : List Char :=
  (digits.reverse.dropWhile (· == '0')).reverse

/-- Positional notation: zeros fill the places up to the point, and at least one digit follows
it. -/
def positional (digits : List Char) (point : Int) : List Char :=
  match point with
  | .negSucc k => '0' :: '.' :: List.replicate (k + 1) '0' ++ digits
  | .ofNat 0 => '0' :: '.' :: digits
  | .ofNat k =>
    let before := digits.take k
    let after := digits.drop k
    before ++ List.replicate (k - before.length) '0' ++
      '.' :: (if after.isEmpty then ['0'] else after)

/-- Notation with an exponent: one digit before the point, no point if no digit follows, the sign
of the exponent always and at least two digits of it. -/
def exponential (digits : List Char) (point : Int) : List Char :=
  let exponent := point - 1
  let mantissa :=
    match digits with
    | [] => []
    | [d] => [d]
    | d :: rest => d :: '.' :: rest
  let number := Nat.toDigits 10 exponent.natAbs
  mantissa ++ 'e' :: (if exponent < 0 then '-' else '+') ::
    (if number.length < 2 then '0' :: number else number)

/-- The written form of a value. -/
def text : Binary64 → String
  | .nan => "nan"
  | .infinite negative => if negative then "-inf" else "inf"
  | .finite negative significand exponent =>
    let body :=
      if significand = 0 then ['0', '.', '0']
      else
        let decimal := Decimal.shortest significand exponent
        let digits := dropFinalZeros (Nat.toDigits 10 decimal.digits)
        if -4 < decimal.point ∧ decimal.point ≤ 16 then positional digits decimal.point
        else exponential digits decimal.point
    String.ofList (if negative then '-' :: body else body)

end Binary64

end TokenGrammar
