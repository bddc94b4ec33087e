import ScriptMachine.Text.Classes

/-!
# Quoted text, hexadecimal text and addresses

* `quote`: the form in which descriptions and listings show a string, in double quotes, with the
  quote, the backslash and every character that has no picture of its own escaped.
* `encodeHex`, `decodeHex`: bytes as pairs of lower-case digits, and back.
* `hideAddresses`: objects without a text of their own are told apart by their numbers. Texts that
  are compared with one another hide the numbers of tables, which a copy does not keep.
-/

namespace ScriptMachine.Text

/-- The value of a hexadecimal digit, in either case. -/
def hexDigit? (c : Char) : Option Nat :=
  if '0' ≤ c ∧ c ≤ '9' then some (c.toNat - 48)
  else if 'a' ≤ c ∧ c ≤ 'f' then some (c.toNat - 87)
  else if 'A' ≤ c ∧ c ≤ 'F' then some (c.toNat - 55)
  else none

/-- The lower-case digit of a number below sixteen. -/
def hexDigit (n : Nat) : Char := Nat.digitChar n

def hexByte (b : UInt8) : List Char := [hexDigit (b.toNat / 16), hexDigit (b.toNat % 16)]

/-- Two digits for each byte. -/
def encodeHex (bytes : List UInt8) : String := String.ofList (bytes.flatMap hexByte)

def decodeHexChars : List Char → Option (List UInt8)
  | [] => some []
  | [_] => none
  | a :: b :: rest => do
    let high ← hexDigit? a
    let low ← hexDigit? b
    let bytes ← decodeHexChars rest
    return (high * 16 + low).toUInt8 :: bytes

/-- The bytes a text of digit pairs stands for. -/
def decodeHex (s : String) : Option (List UInt8) := decodeHexChars s.toList

/-- A natural in hexadecimal, without padding. -/
def hexNat (n : Nat) : String := String.ofList (Nat.toDigits 16 n)

/-- Controls, characters without a picture, and those that join the one before them. Of ASCII only
the controls are invisible. -/
def isInvisible (c : Char) : Bool :=
  c.toNat < 0x20 || (0x7f ≤ c.toNat && (isUnpictured c || isCombining c))

/-- The escaped form of one character. -/
def escapeChar (c : Char) : List Char :=
  if c = '"' then ['\\', '"']
  else if c = '\\' then ['\\', '\\']
  else if c = '\n' then ['\\', 'n']
  else if c = '\r' then ['\\', 'r']
  else if c = '\t' then ['\\', 't']
  else if c.toNat = 0 then ['\\', '0']
  else if isInvisible c then "\\u\x7b".toList ++ Nat.toDigits 16 c.toNat ++ "\x7d".toList
  else [c]

/-- The text in double quotes. -/
def quote (s : String) : String :=
  String.ofList ('"' :: s.toList.flatMap escapeChar ++ ['"'])

/-- Items between square brackets, with commas. -/
def bracketed (items : List String) : String :=
  "[" ++ String.intercalate ", " items ++ "]"

/-- The text at the right end of a field of `width` characters. -/
def padLeft (width : Nat) (fill : Char) (s : String) : String :=
  String.ofList (List.replicate (width - s.length) fill) ++ s

/-- The text at the left end of a field of `width` characters. -/
def padRight (width : Nat) (s : String) : String :=
  s ++ String.ofList (List.replicate (width - s.length) ' ')

/-- The number of an object, in eight hexadecimal digits at least. -/
def address (index : Nat) : String := "0x" ++ padLeft 8 '0' (hexNat index)

/-- What stands before the number of a table in a description. -/
def tableMark : String := "Table(0x"

/-- What follows a mark, up to the next one, with the mark in front again; a star takes the place of
the number if a bracket closes it. -/
def hideAddress (text : String) : String :=
  match text.toList.dropWhile fun c => (hexDigit? c).isSome with
  | ')' :: rest => "Table(*)" ++ String.ofList rest
  | _ => tableMark ++ text

/-- The text with a star for the number of each table. -/
def hideAddresses (text : String) : String :=
  match text.splitOn tableMark with
  | [] => ""
  | first :: marked => first ++ String.join (marked.map hideAddress)

end ScriptMachine.Text
