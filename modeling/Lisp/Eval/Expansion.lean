import Lisp.Eval.Call

/-!
# Macro expansion

A list whose head is a symbol that means a macro is a call of that macro. The macro gets the forms of
the call unevaluated, and its value takes the place of the call.
-/

namespace Lisp

def Value.special? (head : Value) : Option SpecialForm := head.symbol?.bind SpecialForm.ofName?

def Registry.macroCall? (r : Registry) (env : Env Value) : Value → Option (Closure Value × List Value)
  | .list (.symbol name :: args) =>
    if (SpecialForm.ofName? name).isSome then none
    else match r.resolve? env name with
      | some (.closure c) => if c.role = .expander then some (c, args) else none
      | _ => none
  | _ => none

namespace Eval

def expandOnce (limit : Option Nat) (ev : Evaluator) (env : Env Value) (form : Value) :
    Eval Value := do
  match (← registry).macroCall? env form with
  | some (c, args) => invoke limit ev c args
  | none => return form

def expandFully (limit : Option Nat) (ev : Evaluator) (env : Env Value) : Nat → Value → Eval Value
  | 0, _ => outOfFuel
  | fuel + 1, form => do
    match (← registry).macroCall? env form with
    | some (c, args) => do
      let next ← invoke limit ev c args
      expandFully limit ev env fuel next
    | none => return form

end Eval

end Lisp
