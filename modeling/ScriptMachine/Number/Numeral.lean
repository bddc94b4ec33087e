import ScriptMachine.Number.Basic
import ScriptMachine.Text.Classes
import ScriptMachine.Text.Quoted

/-!
# Numerals

Reading numbers from text.

* A numeral may stand between blanks and carry a sign.
* A decimal numeral has digits, a point and an exponent of ten, and is rounded correctly. Its body
  may carry a sign of its own.
* A hexadecimal numeral has a binary exponent. Its digits are gathered in a double, and the power
  of two is a double too, so long numerals round at every step.
-/

namespace ScriptMachine.Numeral

def isDigit (c : Char) : Bool := '0' ≤ c && c ≤ '9'

/-- The natural a run of decimal digits stands for. -/
def naturalOf (ds : List Char) : Nat := ds.foldl (fun n c => 10 * n + (c.toNat - 48)) 0

/-- Splits off an optional sign; `true` for a minus. -/
def sign : List Char → Bool × List Char
  | '-' :: rest => (true, rest)
  | '+' :: rest => (false, rest)
  | cs => (false, cs)

/-- The digits of a mantissa before and behind its point, and what follows. -/
def mantissa (digit : Char → Bool) (cs : List Char) : List Char × List Char × List Char :=
  let whole := cs.takeWhile digit
  match cs.dropWhile digit with
  | '.' :: rest => (whole, rest.takeWhile digit, rest.dropWhile digit)
  | rest => (whole, [], rest)

/-- An exponent with an optional sign and at least one digit, up to the end of the text. -/
def exponent (cs : List Char) : Option Int :=
  let (negative, ds) := sign cs
  if ds.isEmpty || !ds.all isDigit then none
  else some (if negative then -(naturalOf ds : Int) else naturalOf ds)

/-- The exponent behind one of two marks, or zero at the end of the text. -/
def markedExponent (lower upper : Char) : List Char → Option Int
  | [] => some 0
  | c :: rest => if c = lower || c = upper then exponent rest else none

/-! ## Decimal numerals -/

/-- The double nearest to `coefficient * 10 ^ scale`. Beyond the range of doubles the power is not
worked out. -/
def ofDecimal (negative : Bool) (coefficient : Nat) (scale : Int) : Number :=
  let leading := scale + (Nat.toDigits 10 coefficient).length
  if coefficient = 0 then .ofMagnitude negative 0
  else if 310 < leading then .ofMagnitude negative Number.infinite
  else if leading < -330 then .ofMagnitude negative 0
  else if scale < 0 then .ofRatio negative coefficient (Nat.pow 10 (-scale).toNat)
  else .ofRatio negative (coefficient * Nat.pow 10 scale.toNat) 1

/-- A decimal numeral with an optional sign. -/
def decimal (cs : List Char) : Option Number :=
  let (negative, body) := sign cs
  let (whole, part, rest) := mantissa isDigit body
  if whole.isEmpty && part.isEmpty then none
  else do
    let e ← markedExponent 'e' 'E' rest
    return ofDecimal negative (naturalOf (whole ++ part)) (e - part.length)

/-! ## Hexadecimal numerals -/

def isHexDigit (c : Char) : Bool := (Text.hexDigit? c).isSome

/-- Digits gathered in a double, rounding at every step. -/
def gather (ds : List Char) : Number :=
  ds.foldl (fun n c => (n.mul (.ofNat 16)).add (.ofNat ((Text.hexDigit? c).getD 0))) .zero

/-- Two to an integral power: a negative power is the reciprocal of the positive one. -/
def binaryPower (k : Int) : Number :=
  if k < 0 then (Number.ofNat 1).div (.twoPow (-k).toNat) else .twoPow k.toNat

/-- The binary exponent is held in 32 signed bits. -/
def clampExponent (e : Int) : Int := max (-0x7fffffff) (min 0x7fffffff e)

/-- What stands behind the mark of a hexadecimal numeral. -/
def hexadecimal (cs : List Char) : Option Number :=
  let (whole, part, rest) := mantissa isHexDigit cs
  if whole.isEmpty && part.isEmpty then none
  else do
    let e ← markedExponent 'p' 'P' rest
    let scale := max (-4096) (min 4096 (clampExponent e - 4 * part.length))
    return (gather (whole ++ part)).mul (binaryPower scale)

/-! ## Numerals -/

/-- A numeral without its sign. -/
def unsigned : List Char → Option Number
  | '0' :: 'x' :: c :: rest => hexadecimal (c :: rest)
  | '0' :: 'X' :: c :: rest => hexadecimal (c :: rest)
  | cs => decimal cs

/-- The number a text stands for, if it is a numeral. -/
def read (text : String) : Option Number :=
  let (negative, body) := sign (Text.trim text.toList)
  (unsigned body).map fun n => if negative then n.neg else n

end ScriptMachine.Numeral
