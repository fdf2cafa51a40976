import Lisp.Eval.Expansion
import Lisp.Eval.Template

/-!
# The evaluator

Symbols mean what they are bound to, a vector gives a vector of values, and a list is a special
form, a macro call or a function call. Everything else stands for itself. One step of evaluation is
defined over an evaluator for the parts, and `eval` repeats the step as long as there is fuel.
-/

namespace Lisp

namespace Eval

/-- A rule for exactly `n` arguments failed to get them. -/
def wrongCount {α : Type} (f : SpecialForm) (n : Nat) (args : List Value) : Eval α :=
  fail (.malformed f (.argumentCount n args.length))

def ofMalformed {α : Type} (f : SpecialForm) (r : Except Malformation α) : Eval α :=
  ofCause (r.mapError (.malformed f))

def closure (role : Role) (name : Option String) (clauses : List (Clause Value))
    (env : Env Value) : Eval Value := do
  return .closure ⟨role, ← freshId, name, clauses, env⟩

def evalDefine (ev : Evaluator) (env : Env Value) : List Value → Eval Value
  | [target, form] =>
    match target.symbol? with
    | none => fail (.malformed .define (.badName target.display))
    | some name => do
      let v ← ev env form
      define name v
      return v
  | args => wrongCount .define 2 args

def evalDefineClosure (f : SpecialForm) (role : Role) (env : Env Value) (args : List Value) :
    Eval Value := do
  let (name, tail) ← ofMalformed f (splitName args)
  let clauses ← ofMalformed f (Clause.parse tail)
  let v ← closure role (some name) clauses env
  define name v
  return v

def splitOptionalName : List Value → Option String × List Value
  | .symbol name :: tail => (some name, tail)
  | args => (none, args)

def evalFunction (env : Env Value) (args : List Value) : Eval Value := do
  let (name, tail) := splitOptionalName args
  let clauses ← ofMalformed .function (Clause.parse tail)
  closure .function name clauses env

/-- Binds names to the values of forms in the innermost frame, each form after the bindings before
it. -/
def bindAll (ev : Evaluator) (env : Env Value) : List Value → Eval (Env Value)
  | target :: form :: rest =>
    match target.symbol? with
    | none => fail (.malformed .bindLocals (.badBindingName target.display))
    | some name => do
      let v ← ev env form
      bindAll ev (env.set name v) rest
  | _ => return env

/-- Evaluates forms with local bindings, which all go into one new frame. -/
def evalLet (ev : Evaluator) (env : Env Value) : List Value → Eval Value
  | [] => fail (.malformed .bindLocals .missingBindings)
  | bindings :: forms =>
    match bindings.items? with
    | none => fail (.malformed .bindLocals (.badBindings bindings.display))
    | some items =>
      if items.length % 2 = 0 then do
        let inner ← bindAll ev env.child items
        body ev inner forms
      else fail (.malformed .bindLocals .oddBindings)

/-- Evaluates one of two forms. A second one that is not there counts as `nil`. -/
def evalBranch (ev : Evaluator) (env : Env Value) : List Value → Eval Value
  | [test, yes] => do
    if (← ev env test).truthy then ev env yes else return .nil
  | [test, yes, no] => do
    if (← ev env test).truthy then ev env yes else ev env no
  | args => fail (.malformed .branch (.branchCount args.length))

def evalSpecial (limit : Option Nat) (fuel : Nat) (ev : Evaluator) (env : Env Value)
    (f : SpecialForm) (args : List Value) : Eval Value :=
  match f with
  | .define => evalDefine ev env args
  | .defineFunction => evalDefineClosure f .function env args
  | .function => evalFunction env args
  | .bindLocals => evalLet ev env args
  | .branch => evalBranch ev env args
  | .sequence => body ev env args
  | .defineMacro => evalDefineClosure f .expander env args
  | .quote =>
    match args with
    | [v] => return v
    | _ => wrongCount f 1 args
  | .template =>
    match args with
    | [v] => template ev env v
    | _ => wrongCount f 1 args
  | .unquote | .splice => fail (.malformed f .outsideTemplate)
  | .expandOnce =>
    match args with
    | [form] => do expandOnce limit ev env (← ev env form)
    | _ => wrongCount f 1 args
  | .expandFully =>
    match args with
    | [form] => do expandFully limit ev env fuel (← ev env form)
    | _ => wrongCount f 1 args
  | .evaluate =>
    match args with
    | [form] => do ev .empty (← ev env form)
    | _ => wrongCount f 1 args

/-- Calls what the head of a list means: a macro with the forms, a function with their values. -/
def evalCall (limit : Option Nat) (ev : Evaluator) (env : Env Value) (head : Value)
    (args : List Value) : Eval Value := do
  let callee ← ev env head
  match callee with
  | .closure c =>
    match c.role with
    | .expander => do
      let expansion ← invoke limit ev c args
      ev env expansion
    | .function => do
      let vs ← each ev env args
      apply limit ev callee vs
  | .builtin _ => do
    let vs ← each ev env args
    apply limit ev callee vs
  | _ =>
    fail (.badOperator callee.display callee.typeName (Value.list (head :: args)).display)

/-- One step of evaluation. The parts of the form are left to `ev`. -/
def step (limit : Option Nat) (fuel : Nat) (ev : Evaluator) (env : Env Value) :
    Value → Eval Value
  | .symbol name => resolve env name
  | .vector items => do return .vector (← each ev env items)
  | .list [] => return .list []
  | .list (head :: args) =>
    match head.special? with
    | some f => evalSpecial limit fuel ev env f args
    | none => evalCall limit ev env head args
  | v => return v

end Eval

/-- Evaluates a form in an environment. Calls may nest as deep as the limit allows, and the fuel
bounds how deep the evaluation of parts of forms goes. -/
def eval (limit : Option Nat) : Nat → Evaluator
  | 0 => fun _ _ => Eval.outOfFuel
  | fuel + 1 => Eval.step limit fuel (eval limit fuel)

def ampleFuel : Nat := 1000000000000000000

end Lisp
