import EcmaTree.Json.Basic
import EcmaTree.Number.Decimal

/-!
# Reading JSON

Reading takes exactly one value with blanks around it. Object members are kept as they stand, repeated keys
included. Strings must not hold bare control characters or lone surrogates.
-/

namespace EcmaTree.Json

/-- Blanks between tokens. -/
def isSpace (c : Char) : Bool := c == ' ' || c == '\t' || c == '\n' || c == '\r'

/-- Pass blanks. -/
def skipSpace (cs : List Char) : List Char := cs.dropWhile isSpace

/-- The value of a hexadecimal digit. -/
def hexValue? (c : Char) : Option Nat :=
  if '0' ≤ c && c ≤ '9' then some (c.toNat - '0'.toNat)
  else if 'a' ≤ c && c ≤ 'f' then some (c.toNat - 'a'.toNat + 10)
  else if 'A' ≤ c && c ≤ 'F' then some (c.toNat - 'A'.toNat + 10)
  else none

/-- The code unit that four hexadecimal digits spell. -/
def codeUnit? (a b c d : Char) : Option Nat := do
  return (((← hexValue? a) * 16 + (← hexValue? b)) * 16 + (← hexValue? c)) * 16 + (← hexValue? d)

/-- The character that one letter stands for behind a backslash. -/
def unescape? : Char → Option Char
  | '"' => some '"'
  | '\\' => some '\\'
  | '/' => some '/'
  | 'b' => some '\x08'
  | 'f' => some '\x0c'
  | 'n' => some '\n'
  | 'r' => some '\r'
  | 't' => some '\t'
  | _ => none

/-- Read a string behind its opening quote. The characters so far are in `read`, last one first. -/
def readString (read : List Char) : List Char → Option (String × List Char)
  | [] => none
  | '"' :: rest => some (String.ofList read.reverse, rest)
  | '\\' :: 'u' :: a :: b :: c :: d :: rest =>
    match codeUnit? a b c d with
    | none => none
    | some code =>
      if 0xD800 ≤ code && code < 0xDC00 then
        match rest with
        | '\\' :: 'u' :: e :: f :: g :: h :: rest' =>
          match codeUnit? e f g h with
          | some low =>
            if 0xDC00 ≤ low && low < 0xE000 then
              let joined := 0x10000 + (code - 0xD800) * 0x400 + (low - 0xDC00)
              readString (Char.ofNat joined :: read) rest'
            else none
          | none => none
        | _ => none
      else if 0xDC00 ≤ code && code < 0xE000 then none
      else readString (Char.ofNat code :: read) rest
  | '\\' :: c :: rest =>
    match unescape? c with
    | some ch => readString (ch :: read) rest
    | none => none
  | c :: rest => if c.toNat < 0x20 then none else readString (c :: read) rest

/-- One digit at least: the digits, and what follows them. -/
def readDigits (cs : List Char) : Option (List Char × List Char) :=
  let digits := cs.takeWhile Char.isDigit
  if digits.isEmpty then none else some (digits, cs.dropWhile Char.isDigit)

/-- The digits before the point: a zero stands alone. -/
def readWhole (cs : List Char) : Option (List Char × List Char) :=
  match cs with
  | '0' :: rest => some (['0'], rest)
  | _ => readDigits cs

/-- The fraction of a number, if there is one. -/
def readFraction (cs : List Char) : Option (List Char × List Char) :=
  match cs with
  | '.' :: rest => readDigits rest
  | _ => some ([], cs)

/-- The exponent of a number, if there is one. -/
def readExponent (cs : List Char) : Option (Option Int × List Char) :=
  match cs with
  | [] => some (none, cs)
  | c :: rest =>
    if c == 'e' || c == 'E' then
      let (negative, unsigned) :=
        match rest with
        | '-' :: digits => (true, digits)
        | '+' :: digits => (false, digits)
        | _ => (false, rest)
      (readDigits unsigned).map fun (digits, after) =>
        let size := Int.ofNat (Decimal.ofDigits digits)
        (some (if negative then -size else size), after)
    else some (none, cs)

/-- Read a number behind its sign. -/
def readNumber (negative : Bool) (cs : List Char) : Option (Json × List Char) := do
  let (whole, afterWhole) ← readWhole cs
  let (fraction, afterFraction) ← readFraction afterWhole
  let (exponent, rest) ← readExponent afterFraction
  if fraction.isEmpty && exponent.isNone then
    let size := Int.ofNat (Decimal.ofDigits whole)
    return (.int (if negative then -size else size), rest)
  else
    let size := (Decimal.ofParts whole fraction (exponent.getD 0)).toFloat
    return (.float (if negative then -size else size), rest)

/-- What follows `word` at the beginning of a text. -/
def afterWord? (word : String) (cs : List Char) : Option (List Char) :=
  if word.toList.isPrefixOf cs then some (cs.drop word.length) else none

mutual

/-- Read a value. Every nested value, item and member takes one unit of fuel. -/
def readValue : Nat → List Char → Option (Json × List Char)
  | 0, _ => none
  | fuel + 1, cs =>
    match skipSpace cs with
    | '"' :: rest => (readString [] rest).map fun (s, rest) => (.string s, rest)
    | '[' :: rest =>
      match skipSpace rest with
      | ']' :: rest => some (.array [], rest)
      | _ => (readItems fuel [] rest).map fun (items, rest) => (.array items, rest)
    | '{' :: rest =>
      match skipSpace rest with
      | '}' :: rest => some (.object [], rest)
      | _ => (readMembers fuel [] rest).map fun (members, rest) => (.object members, rest)
    | '-' :: rest => readNumber true rest
    | 't' :: rest => (afterWord? "rue" rest).map fun rest => (.bool true, rest)
    | 'f' :: rest => (afterWord? "alse" rest).map fun rest => (.bool false, rest)
    | 'n' :: rest => (afterWord? "ull" rest).map fun rest => (.null, rest)
    | rest => readNumber false rest

/-- Read the items of an array behind those in `read`, which are in reverse. -/
def readItems : Nat → List Json → List Char → Option (List Json × List Char)
  | 0, _, _ => none
  | fuel + 1, read, cs =>
    match readValue fuel cs with
    | none => none
    | some (item, rest) =>
      match skipSpace rest with
      | ',' :: rest => readItems fuel (item :: read) rest
      | ']' :: rest => some ((item :: read).reverse, rest)
      | _ => none

/-- Read the members of an object behind those in `read`, which are in reverse. -/
def readMembers :
    Nat → List (String × Json) → List Char → Option (List (String × Json) × List Char)
  | 0, _, _ => none
  | fuel + 1, read, cs =>
    match skipSpace cs with
    | '"' :: rest =>
      match readString [] rest with
      | none => none
      | some (key, rest) =>
        match skipSpace rest with
        | ':' :: rest =>
          match readValue fuel rest with
          | none => none
          | some (value, rest) =>
            match skipSpace rest with
            | ',' :: rest => readMembers fuel ((key, value) :: read) rest
            | '}' :: rest => some (((key, value) :: read).reverse, rest)
            | _ => none
        | _ => none
    | _ => none

end

/-- The value that a text holds, if it is well formed. Each unit of fuel goes with a character. -/
def read? (text : String) : Option Json :=
  let cs := text.toList
  match readValue (2 * cs.length + 2) cs with
  | some (value, rest) => if (skipSpace rest).isEmpty then some value else none
  | none => none

end EcmaTree.Json
