import Lisp.Decimal.Double
import Lisp.Decimal.Shortest
import Lisp.Text.Quoted

/-!
# Atoms

The indivisible data of the language, shared by the forms of a source text and by values: symbols,
64-bit integers, doubles, texts, truth values and `nil`.
-/

namespace Lisp

inductive Atom where
  | symbol (name : String)
  | int (n : Int64)
  | float (x : Float)
  | str (text : String)
  | bool (b : Bool)
  | nil
  deriving DecidableEq

namespace Atom

def typeName : Atom → String
  | symbol _ => "symbol"
  | int _ => "int"
  | float _ => "float"
  | str _ => "str"
  | bool _ => "bool"
  | nil => "nil"

/-- A double in decimal: a whole one with all its digits and `.0`, any other with the fewest digits
that read back, never with an exponent. -/
def floatText (x : Float) : String :=
  match Decimal.Double.ofFloat x with
  | .nan => "NaN"
  | .infinite negative => if negative then "-inf" else "inf"
  | .finite negative m q =>
    let size := match Decimal.whole? m q with
      | some n => Decimal.digits n ++ ['.', '0']
      | none =>
        let (d, p) := Decimal.shortest m q
        Decimal.positional d p
    String.ofList (if negative then '-' :: size else size)

def display : Atom → String
  | symbol name => name
  | int n => Decimal.ofInt n.toInt
  | float x => floatText x
  | str text => Text.quote text
  | bool true => "true"
  | bool false => "false"
  | nil => "nil"

/-- Only `nil` and `false` count as false. -/
def truthy : Atom → Bool
  | nil => false
  | bool b => b
  | _ => true

/-- Equality of atoms: doubles compare as numbers, so a NaN differs from itself and the two zeros
agree, and an integer never equals a double. -/
def same : Atom → Atom → Bool
  | symbol a, symbol b => a == b
  | int a, int b => a == b
  | float a, float b => a == b
  | str a, str b => a == b
  | bool a, bool b => a == b
  | nil, nil => true
  | _, _ => false

end Atom

end Lisp
