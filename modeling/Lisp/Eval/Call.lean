import Lisp.Builtin.Run
import Lisp.Params

/-!
# Calls

The evaluator is open here: what it does with a form is a parameter, so that each rule is a plain
definition. The evaluator itself ties the knot.
-/

namespace Lisp

/-- A way to evaluate a form in an environment. -/
abbrev Evaluator := Env Value → Value → Eval Value

namespace Eval

def each (ev : Evaluator) (env : Env Value) : List Value → Eval (List Value)
  | [] => pure []
  | form :: forms => do
    let v ← ev env form
    return v :: (← each ev env forms)

/-- Evaluates forms from left to right and keeps the last value. Without forms it is `nil`. -/
def body (ev : Evaluator) (env : Env Value) : List Value → Eval Value
  | [] => pure .nil
  | [form] => ev env form
  | form :: forms => do
    let _ ← ev env form
    body ev env forms

/-- The environment of a call: a new frame on that of the closure, with its own name and then its
parameters bound. -/
def callEnv (c : Closure Value) (p : Params) (args : List Value) : Env Value :=
  let env := c.scope.child
  let env := match c.name with
    | some name => env.set name (.closure c)
    | none => env
  p.bind .list env args

/-- Runs a closure: takes the clause that fits and evaluates its body. -/
def invoke (limit : Option Nat) (ev : Evaluator) (c : Closure Value) (args : List Value) :
    Eval Value :=
  within c.label <| nested limit do
    let clause ← ofCause (Clause.choose c.label c.clauses args.length)
    body ev (callEnv c clause.params args) clause.body

def callBuiltin (b : Builtin) (args : List Value) : Eval Value :=
  if b.arity.accepts args.length then within b.label (b.run args)
  else fail (.arity b.label args.length b.arity.text)

def apply (limit : Option Nat) (ev : Evaluator) (callee : Value) (args : List Value) :
    Eval Value :=
  match callee with
  | .closure c =>
    match c.role with
    | .function => invoke limit ev c args
    | .expander => fail (.badCallee callee.display callee.typeName)
  | .builtin b => callBuiltin b args
  | _ => fail (.badCallee callee.display callee.typeName)

end Eval

end Lisp
