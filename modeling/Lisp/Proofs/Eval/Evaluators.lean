import Lisp.Eval

/-!
# What a rule evaluates

On behalf of a form, the evaluator evaluates parts of the form, the bodies of the functions and
macros that it calls, and forms that were computed: the expansion of a macro call, and the form that
is given to `eval`. Here each of these has an evaluator of its own, so that it can be told which
forms come up where. With one evaluator for all of them, the rules are those of the evaluator.
-/

namespace Lisp

mutual

/-- The atoms and brackets of a value. What a closure holds does not count. -/
def Value.size : Value → Nat
  | .seq _ items => Value.sizes items + 1
  | _ => 1

def Value.sizes : List Value → Nat
  | [] => 0
  | v :: vs => v.size + Value.sizes vs

end

theorem Value.size_le_sizes {v : Value} {vs : List Value} (h : v ∈ vs) :
    v.size ≤ Value.sizes vs := by
  induction h with
  | head vs =>
    rw [Value.sizes]
    omega
  | tail w h ih =>
    rw [Value.sizes]
    omega

theorem Value.size_lt_of_mem {b : Bracket} {v : Value} {items : List Value} (h : v ∈ items) :
    v.size < (Value.seq b items).size :=
  Nat.lt_succ_of_le (Value.size_le_sizes h)

theorem spliceList?_eq_some {v : Value} {items : List Value} (h : spliceList? v = some items) :
    v = .list items := by
  unfold spliceList? at h
  split at h
  · split at h
    · cases h
      rfl
    · cases h
  · cases h

namespace Eval

structure Evaluators where
  part : Evaluator
  body : Evaluator
  computed : Evaluator

namespace Evaluators

def all (ev : Evaluator) : Evaluators := ⟨ev, ev, ev⟩

def evalSpecial (limit : Option Nat) (fuel : Nat) (evs : Evaluators) (env : Env Value)
    (f : SpecialForm) (args : List Value) : Eval Value :=
  match f with
  | .expandOnce =>
    match args with
    | [form] => do expandOnce limit evs.body env (← evs.part env form)
    | _ => wrongCount f 1 args
  | .expandFully =>
    match args with
    | [form] => do expandFully limit evs.body env fuel (← evs.part env form)
    | _ => wrongCount f 1 args
  | .evaluate =>
    match args with
    | [form] => do evs.computed .empty (← evs.part env form)
    | _ => wrongCount f 1 args
  | _ => Eval.evalSpecial limit fuel evs.part env f args

def evalCall (limit : Option Nat) (evs : Evaluators) (env : Env Value) (head : Value)
    (args : List Value) : Eval Value := do
  let callee ← evs.part env head
  match callee with
  | .closure c =>
    match c.role with
    | .expander => do
      let expansion ← invoke limit evs.body c args
      evs.computed env expansion
    | .function => do
      let vs ← each evs.part env args
      apply limit evs.body callee vs
  | .builtin _ => do
    let vs ← each evs.part env args
    apply limit evs.body callee vs
  | _ =>
    fail (.badOperator callee.display callee.typeName (Value.list (head :: args)).display)

def step (limit : Option Nat) (fuel : Nat) (evs : Evaluators) (env : Env Value) :
    Value → Eval Value
  | .symbol name => resolve env name
  | .vector items => do return .vector (← each evs.part env items)
  | .list [] => return .list []
  | .list (head :: args) =>
    match head.special? with
    | some f => evs.evalSpecial limit fuel env f args
    | none => evs.evalCall limit env head args
  | v => return v

variable {limit : Option Nat} {fuel : Nat} {ev : Evaluator}

theorem evalSpecial_all (env : Env Value) (f : SpecialForm) (args : List Value) :
    (all ev).evalSpecial limit fuel env f args = Eval.evalSpecial limit fuel ev env f args := by
  cases f <;> rfl

theorem step_all (env : Env Value) (form : Value) :
    (all ev).step limit fuel env form = Eval.step limit fuel ev env form := by
  cases form with
  | atom a => cases a <;> rfl
  | seq b items =>
    cases b with
    | vector => rfl
    | list =>
      cases items with
      | nil => rfl
      | cons head args =>
        simp only [step, Eval.step]
        cases head.special? with
        | some f => exact evalSpecial_all env f args
        | none => rfl
  | closure c => rfl
  | builtin b => rfl

end Evaluators

end Eval

end Lisp
