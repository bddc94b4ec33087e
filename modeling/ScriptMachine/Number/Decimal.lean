import ScriptMachine.Number.Basic

/-!
# Decimal digits

Exact decimal forms of positive fractions.

* `significant` rounds to a number of significant digits, `places` to a number of places; a half
  goes to the even neighbour.
* `shortest` finds the fewest digits that read back as the same double, and of those the nearest.
-/

namespace ScriptMachine.Decimal

/-- The decimal digits of a natural, most significant first. -/
def digits (n : Nat) : List Char := Nat.toDigits 10 n

/-- A decimal number `coefficient * 10 ^ scale`. -/
structure Scaled where
  coefficient : Nat
  scale : Int
deriving DecidableEq, Repr

/-- The exponent of the leading digit. -/
def Scaled.exponent (d : Scaled) : Int := d.scale + (digits d.coefficient).length - 1

/-- Drops the zeros at the end of the coefficient. -/
def Scaled.normalize (d : Scaled) : Scaled :=
  let zeros := ((digits d.coefficient).reverse.takeWhile (· == '0')).length
  ⟨d.coefficient / Nat.pow 10 zeros, d.scale + zeros⟩

/-- The least `k ≤ fuel` with `den ≤ num * 10 ^ k`. -/
def leadingZeros (num den : Nat) : Nat → Nat
  | 0 => 0
  | fuel + 1 => if den ≤ num then 0 else leadingZeros (num * 10) den fuel + 1

/-- The exponent of the leading digit of `num / den`. A positive double is above `10 ^ (-324)`. -/
def leadingExponent (num den : Nat) : Int :=
  if den ≤ num then (digits (num / den)).length - 1 else -(leadingZeros num den 400 : Int)

/-- `num / den` over the grid of the multiples of `10 ^ scale`. -/
def onGrid (num den : Nat) (scale : Int) : Nat × Nat :=
  if scale < 0 then (num * Nat.pow 10 (-scale).toNat, den)
  else (num, den * Nat.pow 10 scale.toNat)

/-- `num / den` rounded to `count` significant digits. -/
def significant (num den count : Nat) : Scaled :=
  let scale := leadingExponent num den - count + 1
  let (n, d) := onGrid num den scale
  let q := Number.roundDiv n d
  if Nat.pow 10 count ≤ q then ⟨q / 10, scale + 1⟩ else ⟨q, scale⟩

/-- `num / den` rounded to `count` places behind the point. -/
def places (num den count : Nat) : Scaled :=
  ⟨Number.roundDiv (num * Nat.pow 10 count) den, -count⟩

/-- The positive reals that round to one double: `low / den` to `high / den`, with the ends if
`closed`. -/
structure Interval where
  low : Nat
  high : Nat
  den : Nat
  closed : Bool

/-- The interval around a positive finite double. Below a power of two the gap is half as wide. -/
def Interval.around (n : Number) : Interval :=
  let (num, den) := n.fraction
  let unit := num / n.significand
  let narrow := n.significand == Number.exponentWeight && 2 * Number.exponentWeight ≤ n.magnitude
  { low := 4 * num - (if narrow then unit else 2 * unit)
    high := 4 * num + 2 * unit
    den := 4 * den
    closed := n.significand % 2 == 0 }

/-- A decimal lies in the interval. -/
def Interval.contains (i : Interval) (d : Scaled) : Bool :=
  let (num, den) := if d.scale < 0 then (d.coefficient, Nat.pow 10 (-d.scale).toNat)
    else (d.coefficient * Nat.pow 10 d.scale.toNat, 1)
  if i.closed then i.low * den ≤ num * i.den && num * i.den ≤ i.high * den
  else i.low * den < num * i.den && num * i.den < i.high * den

/-- The neighbours of `num / den` with `count` digits that lie in the interval; of two the nearer,
and the upper one when they are equally near. -/
def candidate (i : Interval) (num den count : Nat) : Option Scaled :=
  let scale := leadingExponent num den - count + 1
  let (n, d) := onGrid num den scale
  let lower : Scaled := ⟨n / d, scale⟩
  let upper : Scaled := ⟨n / d + 1, scale⟩
  match i.contains lower, i.contains upper with
  | true, true => some (if 2 * (n % d) < d then lower else upper)
  | true, false => some lower
  | false, true => some upper
  | false, false => none

def shortestFrom (i : Interval) (num den : Nat) (count : Nat) : Nat → Scaled
  | 0 => ⟨num / den, 0⟩
  | fuel + 1 =>
    match candidate i num den count with
    | some d => d.normalize
    | none => shortestFrom i num den (count + 1) fuel

/-- The fewest digits that read back as the positive finite double `n`. Seventeen always do. -/
def shortest (n : Number) : Scaled :=
  let (num, den) := n.fraction
  shortestFrom (.around n) num den 1 17

/-! ## Layout -/

/-- Digits with a point, with as many places as the scale asks for and no exponent. -/
def Scaled.positional (d : Scaled) : List Char :=
  if 0 ≤ d.scale then digits (d.coefficient * Nat.pow 10 d.scale.toNat)
  else
    let count := (-d.scale).toNat
    let ds := digits d.coefficient
    let padded := List.replicate (count + 1 - ds.length) '0' ++ ds
    padded.take (padded.length - count) ++ '.' :: padded.drop (padded.length - count)

/-- One digit, a point and the others; no point after a lone digit. -/
def Scaled.mantissa (d : Scaled) : List Char :=
  match digits d.coefficient with
  | [] => []
  | [c] => [c]
  | c :: rest => c :: '.' :: rest

end ScriptMachine.Decimal
