import Lisp.Decimal.Numeral
import Lisp.Fault
import Lisp.Value

/-!
# Arithmetic and comparison

Integers are exact: a result that does not fit in 64 bits is an error. As soon as an operand is a
double, the others become doubles too. Division leaves the integers when it does not come out even.
-/

namespace Lisp

inductive Number where
  | int (n : Int64)
  | float (x : Float)

namespace Number

def toFloat : Number → Float
  | int n => Float.ofInt n.toInt
  | float x => x

def toValue : Number → Value
  | int n => .int n
  | float x => .float x

/-- A value as a number. The place of the argument goes into the error. -/
def ofValue (op : Builtin) (place : Nat) : Value → Except BuiltinError Number
  | .int n => .ok (int n)
  | .float x => .ok (float x)
  | v => .error (.notNumber op place v.typeName)

def exact (op : Builtin) (n : Int) : Except BuiltinError Number :=
  match Decimal.fit n with
  | some w => .ok (int w)
  | none => .error (.overflow op)

end Number

structure Operation where
  ints : Int → Int → Int
  floats : Float → Float → Float

namespace Operation

def sum : Operation := ⟨(· + ·), (· + ·)⟩
def difference : Operation := ⟨(· - ·), (· - ·)⟩
def product : Operation := ⟨(· * ·), (· * ·)⟩

/-- Combines two numbers, exactly if both are integers. -/
def combine (o : Operation) (op : Builtin) : Number → Number → Except BuiltinError Number
  | .int a, .int b => Number.exact op (o.ints a.toInt b.toInt)
  | a, b => .ok (.float (o.floats a.toFloat b.toFloat))

/-- Combines a number with arguments from left to right. `place` is the place of the first one. -/
def fold (o : Operation) (op : Builtin) (place : Nat) (acc : Number) :
    List Value → Except BuiltinError Number
  | [] => .ok acc
  | v :: vs => do
    let n ← Number.ofValue op place v
    fold o op (place + 1) (← o.combine op acc n) vs

end Operation

namespace Number

def negate (op : Builtin) : Number → Except BuiltinError Number
  | int n => exact op (-n.toInt)
  | float x => .ok (float (-x))

/-- A quotient: an integer if it is one, or else a double. -/
def quotient (op : Builtin) (a b : Number) : Except BuiltinError Number :=
  match a, b with
  | _, int 0 => .error .divisionByZero
  | int m, int n =>
    if m.toInt.tmod n.toInt = 0 then exact op (m.toInt.tdiv n.toInt)
    else .ok (float (a.toFloat / b.toFloat))
  | _, _ => .ok (float (a.toFloat / b.toFloat))

def divideBy (op : Builtin) (place : Nat) (acc : Number) : List Value → Except BuiltinError Number
  | [] => .ok acc
  | v :: vs => do
    let n ← ofValue op place v
    divideBy op (place + 1) (← quotient op acc n) vs

def ofValues (op : Builtin) (place : Nat) : List Value → Except BuiltinError (List Number)
  | [] => .ok []
  | v :: vs => do
    let n ← ofValue op place v
    return n :: (← ofValues op (place + 1) vs)

end Number

structure Comparison where
  ints : Int → Int → Bool
  floats : Float → Float → Bool

namespace Comparison

def less : Comparison := ⟨(· < ·), (· < ·)⟩
def greater : Comparison := ⟨(· > ·), (· > ·)⟩
def lessEq : Comparison := ⟨(· ≤ ·), (· ≤ ·)⟩
def greaterEq : Comparison := ⟨(· ≥ ·), (· ≥ ·)⟩

/-- Compares two numbers, exactly if both are integers. -/
def holds (c : Comparison) : Number → Number → Bool
  | .int a, .int b => c.ints a.toInt b.toInt
  | a, b => c.floats a.toFloat b.toFloat

def chain (c : Comparison) : List Number → Bool
  | a :: b :: rest => c.holds a b && chain c (b :: rest)
  | _ => true

end Comparison

end Lisp
