import Lisp.Builtin.Number
import Lisp.Eval.Basic
import Lisp.Value.Printer
import Lisp.Value.Same

/-!
# What the built-in functions do

Most of them compute a value from their arguments. Three have an effect: a name is generated or a
text is printed. Those of the embedding program answer as it likes. A call with a count of arguments
that the arity forbids never gets here.
-/

namespace Lisp.Builtin

def itemsOf (op : Builtin) : Value → Except BuiltinError (List Value)
  | .seq _ items => .ok items
  | .nil => .ok []
  | v => .error (.notSequence op v.typeName)

def concatItems (op : Builtin) : List Value → Except BuiltinError (List Value)
  | [] => .ok []
  | v :: vs => do
    let items ← itemsOf op v
    return items ++ (← concatItems op vs)

def indexOf (op : Builtin) : Value → Except BuiltinError Nat
  | .int n =>
    if 0 ≤ n.toInt then .ok n.toInt.toNat else .error (.notIndex op (Value.int n).display)
  | v => .error (.notIndex op v.display)

def textOf (op : Builtin) : Value → Except BuiltinError String
  | .str s => .ok s
  | .symbol name => .ok name
  | v => .error (.notText op v.typeName)

def lengthOf (op : Builtin) : Value → Except BuiltinError Nat
  | .str s => .ok s.length
  | v => do return (← itemsOf op v).length

/-- The element at a place, or the third argument if there is none. -/
def element (op : Builtin) (v index : Value) (otherwise : Option Value) :
    Except BuiltinError Value := do
  let items ← itemsOf op v
  let i ← indexOf op index
  match items[i]?.or otherwise with
  | some w => return w
  | none => throw (.outOfBounds i items.length)

/-- Compares the arguments one by one. All of them have to be numbers. -/
def compare (op : Builtin) (c : Comparison) (args : List Value) : Except BuiltinError Value := do
  return .bool (c.chain (← Number.ofValues op 1 args))

def joinPlain (args : List Value) : String := " ".intercalate (args.map Value.plain)

/-- The value of a function without effects. -/
def compute (op : Builtin) (args : List Value) : Except BuiltinError Value :=
  match op, args with
  | add, vs => Number.toValue <$> Operation.sum.fold op 1 (.int 0) vs
  | mul, vs => Number.toValue <$> Operation.product.fold op 1 (.int 1) vs
  | sub, [v] => do return (← (← Number.ofValue op 1 v).negate op).toValue
  | sub, v :: vs => do
    return (← Operation.difference.fold op 1 (← Number.ofValue op 1 v) vs).toValue
  | div, [v] => Number.toValue <$> Number.divideBy op 2 (.int 1) [v]
  | div, v :: vs => do return (← Number.divideBy op 2 (← Number.ofValue op 1 v) vs).toValue
  | inc, [v] => Number.toValue <$> Operation.sum.fold op 1 (.int 1) [v]
  | dec, [v] => do
    return (← Operation.difference.fold op 1 (← Number.ofValue op 1 v) [.int 1]).toValue
  | equal, v :: vs => .ok (.bool (vs.all (·.same v)))
  | less, vs => compare op .less vs
  | greater, vs => compare op .greater vs
  | lessEq, vs => compare op .lessEq vs
  | greaterEq, vs => compare op .greaterEq vs
  | not, [v] => .ok (.bool !v.truthy)
  | list, vs => .ok (.list vs)
  | vector, vs => .ok (.vector vs)
  | cons, [v, w] => do return .list (v :: (← itemsOf op w))
  | first, [v] => do return (← itemsOf op v).head?.getD .nil
  | rest, [v] => do return .list (← itemsOf op v).tail
  | count, [v] => do return .int (Int64.ofNat (← lengthOf op v))
  | concat, vs => Value.list <$> concatItems op vs
  | nth, [v, i] => element op v i none
  | nth, [v, i, w] => element op v i (some w)
  | isNil, [v] => .ok (.bool (v matches .nil))
  | isList, [v] => .ok (.bool (v matches .list _))
  | isSymbol, [v] => .ok (.bool v.symbol?.isSome)
  | isFunction, [v] => .ok (.bool v.isCallable)
  | str, vs => .ok (.str (String.join ((vs.filter fun v => !(v matches .nil)).map Value.plain)))
  | symbol, [v] => Value.symbol <$> textOf op v
  | op, _ => .error (.missingArgument op)

def argument (op : Builtin) (args : List Value) (i : Nat) : Except BuiltinError Value :=
  match args[i]? with
  | some v => .ok v
  | none => .error (.missingArgument op)

/-- Does what the embedding program answers to a call. -/
def comply (f : Native) (args : List Value) : Native.Answer → Eval Value
  | .refuse message => Eval.fail (.stated .native message)
  | .datum form => pure form.toValue
  | .keep i => do
    let v ← Eval.ofCause ((argument (native f) args i).mapError .builtin)
    Eval.emit v
    return v

def runNative (f : Native) (args : List Value) : Eval Value := do
  comply f args (← Eval.consult f (args.map fun v => ⟨v.typeName, v.plain⟩))

def run (op : Builtin) (args : List Value) : Eval Value :=
  match op, args with
  | gensym, [] => do return .symbol (← Eval.freshName "G")
  | gensym, v :: _ => do
    let base ← Eval.ofCause ((textOf op v).mapError .builtin)
    return .symbol (← Eval.freshName base)
  | print, vs => do
    Eval.write (joinPlain vs)
    return .nil
  | println, vs => do
    Eval.write (joinPlain vs ++ "\n")
    return .nil
  | native f, vs => runNative f vs
  | op, vs => Eval.ofCause ((compute op vs).mapError .builtin)

end Lisp.Builtin
