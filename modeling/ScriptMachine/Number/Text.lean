import ScriptMachine.Number.Decimal

/-!
# Number text

Three ways to write a number.

* `format` is what scripts see: an integral number below `10 ^ 15` in full, any other with up to
  fourteen significant digits and an exponent outside `10 ^ (-4)` to `10 ^ 14`.
* `plain` has the fewest digits that read back and never an exponent.
* `literal` has the same digits, a place behind the point at least, and an exponent for the very
  large and the very small.
-/

namespace ScriptMachine.Number

/-- Drops zeros at the end of a text with a point, and then the point. -/
def trimFraction (cs : List Char) : List Char :=
  if '.' ∈ cs then ((cs.reverse.dropWhile (· == '0')).dropWhile (· == '.')).reverse else cs

/-- An exponent of at least two digits, with its sign. -/
def paddedExponent (e : Int) : List Char :=
  let ds := Decimal.digits e.natAbs
  (if e < 0 then '-' else '+') :: (List.replicate (2 - ds.length) '0' ++ ds)

/-- The text of a positive finite number, to fourteen significant digits. -/
def formatPositive (n : Number) : List Char :=
  let (num, den) := n.fraction
  let rounded := Decimal.significant num den 14
  let e := rounded.exponent
  if e < -4 || 14 ≤ e then trimFraction rounded.mantissa ++ 'e' :: paddedExponent e
  else trimFraction (Decimal.places num den (13 - e).toNat).positional

/-- The text of a number without its sign. -/
def formatMagnitude (n : Number) : List Char :=
  if n.isNaN then "nan".toList
  else if n.isInfinite then "inf".toList
  else if n.isIntegral && n.wholePart < 1000000000000000 then Decimal.digits n.wholePart
  else formatPositive n

/-- The text of a number as scripts see it. -/
def format (n : Number) : String :=
  String.ofList (if n.isNegative then '-' :: n.formatMagnitude else n.formatMagnitude)

/-- The sign in front of the text of a number that is one. -/
def signed (n : Number) (text : List Char) : String :=
  String.ofList (if n.isNegative && !n.isNaN then '-' :: text else text)

/-- The fewest digits that read back, without an exponent. -/
def plain (n : Number) : String :=
  n.signed <|
    if n.isNaN then "NaN".toList
    else if n.isInfinite then "inf".toList
    else if n.isZero then ['0']
    else (Decimal.shortest n).positional

/-- The fewest digits that read back, as a listing shows a constant. -/
def literal (n : Number) : String :=
  n.signed <|
    if n.isNaN then "NaN".toList
    else if n.isInfinite then "inf".toList
    else if n.isZero then "0.0".toList
    else
      let d := Decimal.shortest n
      if d.exponent < -4 || 16 ≤ d.exponent then
        d.mantissa ++ 'e' :: (toString d.exponent).toList
      else if d.scale < 0 then d.positional
      else d.positional ++ ".0".toList

end ScriptMachine.Number
