import Lisp.Proofs.Eval.Compatible
import Lisp.Proofs.Eval.Moment
import Lisp.Proofs.Program.Forms
import Lisp.Session

/-!
# What an embedding program can do with a runtime

Whatever a runtime is asked for is put together from a few computations in a few ways. A property of
computations is pervasive if these have it and these keep it. It then holds of every request, every
text and every action.
-/

namespace Lisp

/-- What an embedding program can do with a runtime under some settings: answer requests and
evaluate texts, with any fuel, read data, and look at the global definitions and change them. -/
inductive Action (o : Settings) : ∀ {α : Type}, Eval α → Prop
  | pure {α : Type} (a : α) : Action o (pure a)
  | bind {α β : Type} {x : Eval α} {f : α → Eval β} (hx : Action o x)
    (hf : ∀ a, Action o (f a)) : Action o (x >>= f)
  | fail {α : Type} (c : Cause) : Action o (Eval.fail c : Eval α)
  | request (fuel : Nat) (q : Request) : Action o (q.run o.maxDepth fuel)
  | text (fuel : Nat) (text : String) : Action o (o.runText fuel text)
  | document (fuel : Nat) (d : Document) : Action o (Program.runDocument (o.evaluator fuel) d)
  | datum (text : String) : Action o (Eval.datum text)
  | registry : Action o Eval.registry
  | define (name : String) (v : Value) : Action o (Eval.define name v)
  | ensureCore : Action o fun s => .value () { s with registry := s.registry.ensureCore }

namespace Eval

/-- A property of everything that actions are made of. -/
structure Pervasive (P : ∀ {α : Type}, Eval α → Prop) : Prop where
  compatible (l : Option Nat) : Compatible l l fun _ y => P y
  mapFault {α : Type} {x : Eval α} (h : P x) (g : Fault → Fault) : P (x.mapFault g)
  ofExcept {α : Type} (r : Except Fault α) : P (ofExcept r)
  ensureCore : P fun s => .value () { s with registry := s.registry.ensureCore }

namespace Pervasive

variable {P : ∀ {α : Type}, Eval α → Prop}

theorem eval (hP : Pervasive P) (l : Option Nat) (fuel : Nat) (env : Env Value) (form : Value) :
    P (eval l fuel env form) :=
  (hP.compatible l).eval (Nat.le_refl fuel) (fun h => absurd h (Nat.lt_irrefl fuel)) env form

theorem bind (hP : Pervasive P) {α β : Type} {x : Eval α} {f : α → Eval β} (hx : P x)
    (hf : ∀ a, P (f a)) : P (x >>= f) :=
  (hP.compatible none).bind (x := fun _ => x) (f := fun _ => f) hx hf

theorem request (hP : Pervasive P) (l : Option Nat) (fuel : Nat) (q : Request) :
    P (q.run l fuel) := by
  have hl := hP.compatible l
  have heval := hP.eval l fuel
  let ev : Evaluator := Lisp.eval l fuel
  cases q with
  | eval env form => exact heval env form
  | body env forms => exact @Compatible.body l l _ ev _ hl heval env forms
  | apply callee args => exact @Compatible.apply l l _ ev _ hl heval callee args
  | expandMacro c args => exact @Compatible.invoke l l _ ev _ hl heval c args
  | expandOnce env form => exact @Compatible.expandOnce l l _ ev _ hl heval env form
  | expandFully env form =>
    exact @Compatible.expandFully l l _ ev _ hl heval fuel fuel (Nat.le_refl fuel)
      (fun h => absurd h (Nat.lt_irrefl fuel)) env form
  | template env v => exact @Compatible.template l l _ ev _ hl heval env v

theorem runForms (hP : Pervasive P) (l : Option Nat) (fuel : Nat) (name : Option String)
    (last : Value) (fs : List Form) :
    P (Program.runForms (Lisp.eval l fuel) name last fs) := by
  induction fs generalizing last with
  | nil => exact hP.ofExcept (.ok last)
  | cons f fs ih => exact hP.bind (hP.mapFault (hP.eval l fuel _ _) _) ih

theorem programRun (hP : Pervasive P) (l : Option Nat) (fuel : Nat) (name : Option String)
    (text : String) : P (Program.run (Lisp.eval l fuel) name text) := by
  rw [Program.run, Program.runFrom_eq_runForms]
  apply hP.bind (hP.runForms l fuel name _ _)
  intro v
  cases (Source.Cursor.ofString text).forms.2 with
  | none => exact hP.ofExcept (.ok v)
  | some e => exact hP.ofExcept (.error (e.inFile name))

theorem fail (hP : Pervasive P) {α : Type} (c : Cause) : P (fail c : Eval α) :=
  hP.ofExcept (.error { cause := c })

theorem action (hP : Pervasive P) {o : Settings} {α : Type} {x : Eval α} (h : Action o x) :
    P x := by
  induction h with
  | pure a => exact hP.ofExcept (.ok a)
  | bind _ _ ihx ihf => exact hP.bind ihx ihf
  | fail c => exact hP.fail c
  | request fuel q => exact hP.request o.maxDepth fuel q
  | text fuel text => exact hP.programRun o.maxDepth fuel o.sourceName text
  | document fuel d =>
    rw [Program.runDocument]
    cases d.text with
    | ok text => exact hP.programRun o.maxDepth fuel (some d.path) text
    | error e => exact hP.fail _
  | datum text =>
    rw [Eval.datum]
    split
    · exact hP.ofExcept _
    · exact hP.ofExcept (.ok _)
    · exact hP.fail _
  | registry => exact (hP.compatible none).registry
  | define name v => exact (hP.compatible none).define name v
  | ensureCore => exact hP.ensureCore

end Pervasive

end Eval

end Lisp
