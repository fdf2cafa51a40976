import Lisp.Decimal.Digits
import Lisp.Decimal.Double

/-!
# The shortest decimal that reads back

Around a double lies the interval of reals that round to it. The shortest decimal is the one with
the fewest digits in that interval, and of two such decimals the nearer one, a tie going up.
-/

namespace Lisp.Decimal

/-- The reals that round to a double, as numerators over one denominator. Its ends belong to it
when they round to the double as well. -/
structure Interval where
  low : Nat
  mid : Nat
  high : Nat
  den : Nat
  closed : Bool

namespace Interval

/-- The interval around `m * 2 ^ q`. Below a power of two the doubles lie twice as close. -/
def around (m : Nat) (q : Int) : Interval :=
  let gap := if m = leastNormal then 1 else 2
  let scale := Nat.pow 2 (q - 2).toNat
  { low := (4 * m - gap) * scale
    mid := 4 * m * scale
    high := (4 * m + 2) * scale
    den := Nat.pow 2 (2 - q).toNat
    closed := m % 2 = 0 }

def tenTo (p : Int) : Nat := Nat.pow 10 p.toNat

def contains (i : Interval) (d : Nat) (p : Int) : Bool :=
  let x := d * tenTo p * i.den
  let unit := tenTo (-p)
  if i.closed then i.low * unit ≤ x && x ≤ i.high * unit
  else i.low * unit < x && x < i.high * unit

/-- The multiple of `10 ^ p` at or below the middle. -/
def floorOn (i : Interval) (p : Int) : Nat :=
  i.mid * tenTo (-p) / (i.den * tenTo p)

/-- Whether the middle lies nearer to `d * 10 ^ p` than to the next multiple. -/
def nearerBelow (i : Interval) (d : Nat) (p : Int) : Bool :=
  2 * i.mid * tenTo (-p) < (2 * d + 1) * (i.den * tenTo p)

/-- The first decimal of the interval on grids that grow finer from `10 ^ p`. -/
def search (i : Interval) : Nat → Int → Nat × Int
  | 0, p => (i.floorOn p, p)
  | k + 1, p =>
    let d := i.floorOn p
    if i.contains d p && (i.nearerBelow d p || !i.contains (d + 1) p) then (d, p)
    else if i.contains (d + 1) p then (d + 1, p)
    else search i k (p - 1)

end Interval

/-- The shortest decimal `d * 10 ^ p` that reads back as `m * 2 ^ q`. The least positive double is
near `10 ^ (-324)` and seventeen digits always suffice, so the search ends in time. -/
def shortest (m : Nat) (q : Int) : Nat × Int :=
  let i := Interval.around m q
  i.search 400 (digits (i.mid / i.den)).length

def positional (d : Nat) (p : Int) : List Char :=
  if 0 ≤ p then digits d ++ List.replicate p.toNat '0'
  else
    let ds := digits d
    let padded := List.replicate (p.natAbs + 1 - ds.length) '0' ++ ds
    padded.take (padded.length - p.natAbs) ++ '.' :: padded.drop (padded.length - p.natAbs)

end Lisp.Decimal
