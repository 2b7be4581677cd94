/-!
# JSON values

The members of an object stand in the order in which they are written. Numbers without a fraction or an
exponent are whole; all others are floating-point.
-/

namespace EcmaTree

/-- A JSON value. -/
inductive Json where
  | null
  | bool (value : Bool)
  | int (value : Int)
  | float (value : Float)
  | string (value : String)
  | array (items : List Json)
  | object (members : List (String × Json))
  deriving Inhabited

namespace Json

/-- A number that counts something. -/
def nat (n : Nat) : Json := .int n

/-- The text, or `null` if there is none. -/
def ofText? : Option String → Json
  | some text => .string text
  | none => .null

/-- The number as JSON: whole numbers below `2 ^ 53` without a fraction, and `null` for an infinite
number. -/
def ofFloat (x : Float) : Json :=
  if x.isFinite then
    if x.abs < 9007199254740992 && x.floor == x then
      .int (if x < 0 then -(Int.ofNat x.abs.toUInt64.toNat) else Int.ofNat x.toUInt64.toNat)
    else .float x
  else .null

/-- The member with the given key, the first one if there are several. -/
def get? (key : String) : Json → Option Json
  | .object members => List.lookup key members
  | _ => none

end Json

end EcmaTree
