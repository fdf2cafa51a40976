/-!
# Doubles as binary fractions

A finite double is a sign and an exact product of a natural number and a power of two.
-/

namespace Lisp.Decimal

/-- A double taken apart. A finite one is `mantissa * 2 ^ exponent`. -/
inductive Double where
  | nan
  | infinite (negative : Bool)
  | finite (negative : Bool) (mantissa : Nat) (exponent : Int)
  deriving DecidableEq

/-- The mantissa of a power of two, which has fifty-two zeros after its first bit. -/
def leastNormal : Nat := 0x10000000000000

/-- The sign, exponent and mantissa that the bits of a double hold. -/
def Double.ofBits (bits : Nat) : Double :=
  let negative := decide (0x8000000000000000 ≤ bits)
  let exponent := bits / leastNormal % 0x800
  let mantissa := bits % leastNormal
  if exponent = 0x7FF then
    if mantissa = 0 then .infinite negative else .nan
  else if exponent = 0 then .finite negative mantissa (-1074)
  else .finite negative (leastNormal + mantissa) ((exponent : Int) - 1075)

def Double.ofFloat (x : Float) : Double := .ofBits x.toBits.toNat

/-- The integer that `m * 2 ^ q` is, if it is one. -/
def whole? (m : Nat) (q : Int) : Option Nat :=
  if 0 ≤ q then some (m * Nat.pow 2 q.toNat)
  else if m % Nat.pow 2 q.natAbs = 0 then some (m / Nat.pow 2 q.natAbs)
  else none

end Lisp.Decimal
