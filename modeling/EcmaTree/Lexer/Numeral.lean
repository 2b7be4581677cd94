import EcmaTree.SyntaxError
import EcmaTree.Number.Decimal

/-!
# Numerals

Decimal, hexadecimal, octal and binary literals. A leading zero before octal digits alone makes an octal
literal, and before other digits a decimal one; strict code forbids both, so they are marked as legacy.
No identifier may follow a numeral directly.
-/

namespace EcmaTree

/-- The value of a numeral, and whether strict code forbids its form. -/
structure Numeral where
  value : Float
  legacy : Bool

namespace Numeral

/-- The numeral is complete at `c`, unless an identifier begins there (`check_after_number`). -/
def finish (numeral : Numeral) (c : Cursor) : Except Fault (Numeral × Cursor) :=
  match c.rest with
  | ch :: _ => if isIdentifierStart ch || ch == '\\' then .error (.illegal c) else .ok (numeral, c)
  | [] => .ok (numeral, c)

/-- The value of digits in a radix. Each digit is added with one rounding, from left to right. -/
def radixValue (radix : Nat) (digits : List Char) : Float :=
  digits.foldl
    (fun value ch => value * Float.ofNat radix + Float.ofNat ((digitValue? radix ch).getD 0)) 0

/-- Read the digits of a numeral in the given radix: one at least, and no other digit after them
(`scan_radix_digits`). -/
def readRadix (radix : Nat) (legacy : Bool) (c : Cursor) : Except Fault (Numeral × Cursor) :=
  let isDigit := fun ch => (digitValue? radix ch).isSome
  let digits := c.rest.takeWhile isDigit
  let stop := c.skipWhile isDigit
  if digits.isEmpty || stop.rest.head?.any isDecimalDigit then .error (.illegal stop)
  else finish ⟨radixValue radix digits, legacy⟩ stop

/-- Does a numeral that begins with a zero before `rest` have octal digits only (`is_implicit_octal_literal`)? -/
def isLegacyOctal (rest : List Char) : Bool :=
  rest.head?.any isOctalDigit && !(rest.dropWhile isOctalDigit).head?.any isDecimalDigit

/-- Pass the letter of an exponent, before `rest`, and its sign. Gives back whether the sign is negative. -/
def passSign (c : Cursor) (rest : List Char) : Bool × Cursor :=
  match rest with
  | '-' :: digits => (true, c.moveTo 2 digits)
  | '+' :: digits => (false, c.moveTo 2 digits)
  | _ => (false, c.moveTo 1 rest)

/-- Read the exponent of a decimal numeral, if there is one: its value, and the cursor behind it. -/
def readExponent (c : Cursor) : Except Fault (Int × Cursor) :=
  match c.rest with
  | [] => .ok (0, c)
  | ch :: rest =>
    if ch == 'e' || ch == 'E' then
      let (negative, first) := passSign c rest
      let digits := first.rest.takeWhile isDecimalDigit
      if digits.isEmpty then .error (.illegal first)
      else
        let magnitude := Int.ofNat (Decimal.ofDigits digits)
        .ok (if negative then -magnitude else magnitude, first.skipWhile isDecimalDigit)
    else .ok (0, c)

/-- Read the fraction of a decimal numeral, if there is one: its digits, and the cursor behind it. -/
def readFraction (c : Cursor) : List Char × Cursor :=
  match c.rest with
  | '.' :: rest =>
    (rest.takeWhile isDecimalDigit, (c.moveTo 1 rest).skipWhile isDecimalDigit)
  | _ => ([], c)

/-- Does a decimal numeral with these digits before the point begin with a zero that does not stand
alone? -/
def hasLeadingZero : List Char → Bool
  | '0' :: _ :: _ => true
  | _ => false

/-- Read a decimal numeral. -/
def readDecimal (c : Cursor) : Except Fault (Numeral × Cursor) := do
  let whole := c.rest.takeWhile isDecimalDigit
  let (fraction, afterFraction) := readFraction (c.skipWhile isDecimalDigit)
  let (exponent, stop) ← readExponent afterFraction
  finish ⟨(Decimal.ofParts whole fraction exponent).toFloat, hasLeadingZero whole⟩ stop

/-- Read a numeral at a cursor where one begins (`scan_numeric_literal`). -/
def read (c : Cursor) : Except Fault (Numeral × Cursor) :=
  match c.rest with
  | '0' :: 'x' :: rest | '0' :: 'X' :: rest => readRadix 16 false (c.moveTo 2 rest)
  | '0' :: 'b' :: rest | '0' :: 'B' :: rest => readRadix 2 false (c.moveTo 2 rest)
  | '0' :: 'o' :: rest | '0' :: 'O' :: rest => readRadix 8 false (c.moveTo 2 rest)
  | '0' :: rest =>
    if isLegacyOctal rest then readRadix 8 true (c.moveTo 1 rest) else readDecimal c
  | _ => readDecimal c

end Numeral

end EcmaTree
