import Lisp.Program

/-!
# Sessions

Several runtimes side by side. Each has settings of its own, and those on the same registry see each
other's definitions. Generated names and closures are numbered through the whole session.
-/

namespace Lisp

structure Runtime where
  home : String
  settings : Settings
  depth : Nat := 0

structure Session where
  registries : List (String × Registry) := []
  runtimes : List Runtime := []
  drawn : Nat := 0
  born : Nat := 0
  natives : Natives := .probes

namespace Session

def registry (s : Session) (home : String) : Registry := (s.registries.lookup home).getD {}

def putRegistry (s : Session) (home : String) (r : Registry) : Session :=
  { s with registries := (home, r) :: s.registries.filter (·.1 != home) }

/-- Adds a runtime. A registry that is new gets the given built-in functions after the core. -/
def attach (s : Session) (extra : List Builtin) (home : String) (o : Settings) : Session :=
  let isNew := (s.registries.lookup home).isNone
  let r := o.prepare (s.registry home)
  let r := if isNew then r.defineBuiltins extra else r
  let s := s.putRegistry home r
  { s with runtimes := s.runtimes ++ [{ home, settings := o }] }

def stateFor (s : Session) (rt : Runtime) : State :=
  { registry := s.registry rt.home, depth := rt.depth, drawn := s.drawn, born := s.born,
    natives := s.natives }

/-- The session after a computation in its runtime with number `i`. -/
def settle (s : Session) (i : Nat) (rt : Runtime) (t : State) : Session :=
  let s := s.putRegistry rt.home t.registry
  { s with
    runtimes := s.runtimes.set i { rt with depth := t.depth }
    drawn := t.drawn
    born := t.born }

/-- The state at the end of a computation, which is the one before if the fuel was used up. -/
def finalState {α : Type} (before : State) : Outcome α → State
  | .value _ t => t
  | .fault _ t => t
  | .outOfFuel => before

def perform {α : Type} (s : Session) (i : Nat) (rt : Runtime) (x : Eval α) :
    Outcome α × Session :=
  let before := s.stateFor rt
  let outcome := x before
  (outcome, s.settle i rt (finalState before outcome))

end Session

namespace Eval

def datum (text : String) : Eval Value :=
  match Source.readAll text with
  | .error e => ofExcept (.error e)
  | .ok [f] => pure f.toValue
  | .ok _ => fail (.stated .native "expected exactly one form")

def data : List String → Eval (List Value)
  | [] => pure []
  | text :: texts => do
    let v ← datum text
    return v :: (← data texts)

def bindTexts (run : String → Eval Value) (env : Env Value) :
    List (String × String) → Eval (Env Value)
  | [] => pure env
  | (name, text) :: rest => do
    let v ← run text
    bindTexts run (env.set name v) rest

/-- The environment with some names bound in one frame below the outermost one. Without names it is
the outermost one itself. -/
def scope (run : String → Eval Value) : List (String × String) → Eval (Env Value)
  | [] => pure .empty
  | bindings => bindTexts run Env.empty.child bindings

def expandWith (limit : Option Nat) (ev : Evaluator) (callee : Value) (args : List Value) :
    Eval Value :=
  match callee with
  | .closure c =>
    if c.role = .expander then invoke limit ev c args
    else fail (.badCallee callee.display callee.typeName)
  | _ => fail (.badCallee callee.display callee.typeName)

end Eval

end Lisp
