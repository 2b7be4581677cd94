import EcmaTree.Json.Basic
import EcmaTree.Number.Shortest

/-!
# Writing JSON

Values are written on one line without blanks, or with every item and member on a line of its own, indented
by two blanks for each level. Strings escape quotes, backslashes and control characters, and nothing else.
Numbers have the fewest digits that read back, in positional notation near one and with an exponent
elsewhere.
-/

namespace EcmaTree.Json

/-- Which numbers are written in positional notation: those whose first digit stands at one of these powers
of ten. -/
structure NumberLayout where
  lowestPositional : Int
  highestPositional : Int

/-- Numbers from `0.00001` up to sixteen digits are written in positional notation. -/
def numberLayout : NumberLayout := ⟨-5, 15⟩

/-- The digits of a decimal without trailing zeros, and the power of ten of the first one. -/
def significant (d : Decimal) : List Char × Int :=
  let digits := Decimal.digitsOf d.digits
  ((digits.reverse.dropWhile (· == '0')).reverse, d.exponent + digits.length - 1)

/-- Write digits whose first one stands at the power `top` of ten, with a point and at least one digit on
either side of it. -/
def positional (digits : List Char) (top : Int) : List Char :=
  if top < 0 then '0' :: '.' :: List.replicate (-top - 1).toNat '0' ++ digits
  else
    let whole := digits.take (top.toNat + 1)
    let fraction := digits.drop (top.toNat + 1)
    whole ++ List.replicate (top.toNat + 1 - whole.length) '0' ++
      '.' :: (if fraction.isEmpty then ['0'] else fraction)

/-- Write digits with a point behind the first one, if there are more, and a signed exponent. -/
def scientific (digits : List Char) (top : Int) : List Char :=
  let mantissa :=
    match digits with
    | first :: second :: rest => first :: '.' :: second :: rest
    | _ => digits
  mantissa ++ 'e' :: (if top < 0 then '-' else '+') :: Decimal.digitsOf top.natAbs

/-- Write a finite number that is not negative. -/
def magnitude (layout : NumberLayout) (x : Float) : List Char :=
  if x == 0 then ['0', '.', '0']
  else
    let (digits, top) := significant (Shortest.decimal x)
    if layout.lowestPositional ≤ top && top ≤ layout.highestPositional then positional digits top
    else scientific digits top

/-- Write a floating-point number; those that are not finite are `null`. -/
def floatText (x : Float) : String :=
  if !x.isFinite then "null"
  else if x.toBits.toNat < Nat.pow 2 63 then String.ofList (magnitude numberLayout x)
  else String.ofList ('-' :: magnitude numberLayout x.abs)

/-- A hexadecimal digit, in lower case. -/
def hexDigit (n : Nat) : Char := Nat.digitChar (n % 16)

/-- Write one character of a string. -/
def escape (c : Char) : List Char :=
  match c with
  | '"' => ['\\', '"']
  | '\\' => ['\\', '\\']
  | '\x08' => ['\\', 'b']
  | '\x0c' => ['\\', 'f']
  | '\n' => ['\\', 'n']
  | '\r' => ['\\', 'r']
  | '\t' => ['\\', 't']
  | _ =>
    if c.toNat < 0x20 then ['\\', 'u', '0', '0', hexDigit (c.toNat / 16), hexDigit c.toNat] else [c]

/-- Write a string between quotes. -/
def quote (s : String) : String := String.ofList ('"' :: s.toList.flatMap escape ++ ['"'])

/-- How values are laid out. -/
inductive Layout where
  | compact
  | pretty
  deriving DecidableEq

/-- What stands before an item at the given level. -/
def Layout.lineBreak : Layout → (level : Nat) → String
  | compact, _ => ""
  | pretty, level => String.ofList ('\n' :: List.replicate (2 * level) ' ')

/-- What stands between a key and its value. -/
def Layout.colon : Layout → String
  | compact => ":"
  | pretty => ": "

mutual

/-- Write a value at the given level behind `out`. -/
def write (layout : Layout) (level : Nat) (out : String) : Json → String
  | .null => out ++ "null"
  | .bool true => out ++ "true"
  | .bool false => out ++ "false"
  | .int n => out ++ toString n
  | .float x => out ++ floatText x
  | .string s => out ++ quote s
  | .array [] => out ++ "[]"
  | .array (item :: items) =>
    let first := write layout (level + 1) (out ++ "[" ++ layout.lineBreak (level + 1)) item
    writeItems layout (level + 1) first items ++ layout.lineBreak level ++ "]"
  | .object [] => out ++ "\x7b\x7d"
  | .object (member :: members) =>
    let first := writeMember layout (level + 1) (out ++ "\x7b" ++ layout.lineBreak (level + 1)) member
    writeMembers layout (level + 1) first members ++ layout.lineBreak level ++ "\x7d"

/-- Write the items of an array behind the first one. -/
def writeItems (layout : Layout) (level : Nat) (out : String) : List Json → String
  | [] => out
  | item :: items =>
    writeItems layout level (write layout level (out ++ "," ++ layout.lineBreak level) item) items

/-- Write a member of an object. -/
def writeMember (layout : Layout) (level : Nat) (out : String) : String × Json → String
  | (key, value) => write layout level (out ++ quote key ++ layout.colon) value

/-- Write the members of an object behind the first one. -/
def writeMembers (layout : Layout) (level : Nat) (out : String) : List (String × Json) → String
  | [] => out
  | member :: members =>
    writeMembers layout level
      (writeMember layout level (out ++ "," ++ layout.lineBreak level) member) members

end

/-- The text of a value. -/
def render (layout : Layout) (value : Json) : String := write layout 0 "" value

end EcmaTree.Json
