/-!
# Decimal numbers

A decimal is a number `digits · 10 ^ exponent`. Reading one as a floating-point number rounds it to the
nearest, once. Numbers beyond the range are infinite, and numbers too small for it are zero, however
large the exponent is.
-/

namespace EcmaTree

/-- The number `digits · 10 ^ exponent`. -/
structure Decimal where
  digits : Nat
  exponent : Int
  deriving DecidableEq

namespace Decimal

/-- The number that decimal digits, most significant first, spell. Other characters count as the
distance of their code from that of `0`. -/
def ofDigits (cs : List Char) : Nat := cs.foldl (fun n c => n * 10 + (c.toNat - '0'.toNat)) 0

/-- The decimal whose point stands between `whole` and `fraction`, times a power of ten. -/
def ofParts (whole fraction : List Char) (exponent : Int) : Decimal :=
  ⟨ofDigits (whole ++ fraction), exponent - fraction.length⟩

/-- The decimal digits of a number, most significant first; zero has the one digit `0`. -/
def digitsOf (n : Nat) : List Char := Nat.toDigits 10 n

/-- Numbers whose first digit stands at this power of ten, or a higher one, are infinite. -/
def infiniteFrom : Int := 310

/-- Numbers whose first digit stands below this power of ten are zero. -/
def zeroBelow : Int := -330

/-- The nearest floating-point number. -/
def toFloat (d : Decimal) : Float :=
  let top := d.exponent + (digitsOf d.digits).length - 1
  if d.digits = 0 || top < zeroBelow then 0
  else if infiniteFrom ≤ top then 1 / 0
  else Float.ofScientific d.digits (d.exponent < 0) d.exponent.natAbs

end Decimal

end EcmaTree
