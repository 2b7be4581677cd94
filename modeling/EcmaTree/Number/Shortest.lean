import EcmaTree.Number.Decimal

/-!
# The shortest decimal of a floating-point number

The real numbers that round to a given floating-point number form an interval around it. Among the
decimals in the interval, those with the fewest digits are the shortest, and of these `Shortest.decimal`
gives the one nearest to the number. All comparisons are made with whole numbers.
-/

namespace EcmaTree.Shortest

/-- A positive number with the interval of the reals that round to it, all over one denominator. -/
structure Interval where
  low : Nat
  value : Nat
  high : Nat
  denominator : Nat
  /-- Do the two ends round to the number as well? -/
  closed : Bool

/-- The mantissa and the power of two of a positive finite number, from its bits: the number is
`mantissa · 2 ^ exponent`. -/
def decode (x : Float) : Nat × Int :=
  let bits := x.toBits.toNat
  let fraction := bits % Nat.pow 2 52
  let field := bits / Nat.pow 2 52 % Nat.pow 2 11
  if field = 0 then (fraction, -1074) else (fraction + Nat.pow 2 52, Int.ofNat field - 1075)

/-- The interval of `mantissa · 2 ^ exponent`. Below a power of two the numbers are twice as dense, so
its lower end is half as far away, unless it is the least normal number. -/
def interval (mantissa : Nat) (exponent : Int) : Interval :=
  let below := if mantissa = Nat.pow 2 52 && -1074 < exponent then 1 else 2
  let scale := Nat.pow 2 (exponent - 2).toNat
  ⟨(4 * mantissa - below) * scale, 4 * mantissa * scale, (4 * mantissa + 2) * scale,
    Nat.pow 2 (2 - exponent).toNat, mantissa % 2 = 0⟩

/-- Multiply all by a power of ten. -/
def Interval.timesTen (i : Interval) (power : Int) : Interval :=
  let scale := Nat.pow 10 power.toNat
  { i with
    low := i.low * scale, value := i.value * scale, high := i.high * scale,
    denominator := i.denominator * Nat.pow 10 (-power).toNat }

/-- Does the whole number `n` round to the number? -/
def Interval.holds (i : Interval) (n : Nat) : Bool :=
  if i.closed then i.low ≤ n * i.denominator && n * i.denominator ≤ i.high
  else i.low < n * i.denominator && n * i.denominator < i.high

/-- The whole number that rounds to the number, if there is one: of its two neighbours the nearer one
that does, and the even one if both are as near. -/
def Interval.nearest? (i : Interval) : Option Nat :=
  let floor := i.value / i.denominator
  let doubled := 2 * (i.value - floor * i.denominator)
  let preferUpper := i.denominator < doubled || (doubled = i.denominator && floor % 2 = 1)
  let first := if preferUpper then floor + 1 else floor
  let second := if preferUpper then floor else floor + 1
  if i.holds first then some first else if i.holds second then some second else none

/-- The power of ten of the first digit of a number below one, which is at least
`10 ^ -(start + steps)`. -/
def leadingZeros (value denominator : Nat) : (steps start : Nat) → Nat
  | 0, start => start
  | steps + 1, start =>
    if denominator ≤ value * Nat.pow 10 start then start
    else leadingZeros value denominator steps (start + 1)

/-- The power of ten at which the first digit of the number stands. -/
def Interval.top (i : Interval) : Int :=
  if i.value < i.denominator then -(leadingZeros i.value i.denominator 400 1 : Int)
  else (Decimal.digitsOf (i.value / i.denominator)).length - 1

/-- The shortest decimal with `count` digits or more, trying at most `steps` lengths. -/
def search (i : Interval) (top : Int) : (steps count : Nat) → Decimal
  | 0, count =>
    let power := count - 1 - top
    ⟨(i.timesTen power).value / (i.timesTen power).denominator, -power⟩
  | steps + 1, count =>
    let power := count - 1 - top
    match (i.timesTen power).nearest? with
    | some n => ⟨n, -power⟩
    | none => search i top steps (count + 1)

/-- The shortest decimal that rounds to a positive finite number. Seventeen digits always suffice. -/
def decimal (x : Float) : Decimal :=
  let (mantissa, exponent) := decode x
  let i := interval mantissa exponent
  search i i.top 17 1

end EcmaTree.Shortest
