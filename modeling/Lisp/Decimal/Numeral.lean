import Lisp.Decimal.Digits

/-!
# Reading numerals

Integers are read into 64-bit words and refused when they do not fit. A decimal fraction with an
optional exponent is read to the nearest double. A bound is a natural number below `2 ^ 64`.
-/

namespace Lisp.Decimal

def fit (n : Int) : Option Int64 :=
  if -0x8000000000000000 ≤ n ∧ n < 0x8000000000000000 then some (Int64.ofInt n) else none

/-- A fitting word stands for the same integer. -/
theorem fit_eq_some_iff {n : Int} {w : Int64} : fit n = some w ↔ w.toInt = n := by
  unfold fit
  constructor
  · intro h
    split at h
    · rename_i hn
      cases h
      exact Int64.toInt_ofInt_of_le hn.1 hn.2
    · cases h
  · rintro rfl
    rw [if_pos ⟨Int64.le_toInt w, Int64.toInt_lt w⟩, Int64.ofInt_toInt]

def splitSign : List Char → Bool × List Char
  | '-' :: cs => (true, cs)
  | '+' :: cs => (false, cs)
  | cs => (false, cs)

/-- A nonempty run of digits as a number. -/
def nat? (cs : List Char) : Option Nat :=
  if cs ≠ [] ∧ cs.all isDigit then some (value cs) else none

/-- An optional sign and digits as an integer. -/
def int? (cs : List Char) : Option Int :=
  (nat? (splitSign cs).2).map fun n => if (splitSign cs).1 then -(n : Int) else n

/-- An optional sign and digits as a 64-bit word. -/
def word? (cs : List Char) : Option Int64 := (int? cs).bind fit

/-- The exponent after the digits of a fraction: none at all, or a marker and an integer. -/
def exponent? : List Char → Option Int
  | [] => some 0
  | c :: cs => if c = 'e' ∨ c = 'E' then int? cs else none

def nearest (m : Nat) (e : Int) : Float :=
  if e < 0 then Float.ofScientific m true e.natAbs else Float.ofScientific m false e.natAbs

/-- Digits with an optional fraction and exponent as the nearest double. -/
def unsignedFloat? (cs : List Char) : Option Float :=
  let whole := cs.takeWhile isDigit
  let tail := cs.dropWhile isDigit
  let (fraction, tail) := match tail with
    | '.' :: r => (r.takeWhile isDigit, r.dropWhile isDigit)
    | r => ([], r)
  if whole ++ fraction = [] then none
  else (exponent? tail).map fun e => nearest (value (whole ++ fraction)) (e - fraction.length)

def float? (cs : List Char) : Option Float :=
  (unsignedFloat? (splitSign cs).2).map fun x => if (splitSign cs).1 then -x else x

/-- An optional plus and digits as a number below `2 ^ 64`. -/
def bound? (cs : List Char) : Option Nat :=
  match nat? (match cs with | '+' :: r => r | r => r) with
  | some n => if n < 0x10000000000000000 then some n else none
  | none => none

end Lisp.Decimal
