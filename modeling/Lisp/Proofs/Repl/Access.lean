import Lisp.Proofs.Eval.Access
import Lisp.Proofs.Eval.Moment
import Lisp.Proofs.Source.Descent
import Lisp.Repl

/-!
# Programs and dialogues never ask for what is not there

A text is read by index and evaluated by the evaluator that asks for everything by its place. What
it does where something is missing is left open, and makes no difference: the result is the value or
the fault of the plain evaluation, for every text, all settings and every state.
-/

namespace Lisp

namespace Source.Descent

variable {text : List Char} {p q : Position} {f : Form}

/-- A form that is read by index is the next one, and what is left starts at the place after it. -/
theorem next_of_readNext (h : (readNext text p).run = some (.ok (some (f, q)))) :
    (Cursor.mk p (text.drop p.index)).next = .form f ⟨q, text.drop q.index⟩ := by
  obtain ⟨hread, hleft⟩ := readNext_eq text p
  rw [h] at hread
  cases hnext : (Cursor.mk p (text.drop p.index)).next with
  | ended => simp [hnext, Reading.result] at hread
  | failed e left => simp [hnext, Reading.result] at hread
  | form g left =>
    obtain ⟨rfl, rfl⟩ : f = g ∧ q = left.pos := by simpa [hnext, Reading.result] using hread
    rw [← hleft f left hnext]

theorem length_drop_lt (h : (readNext text p).run = some (.ok (some (f, q)))) :
    (text.drop q.index).length < (text.drop p.index).length :=
  Cursor.length_lt_of_next (next_of_readNext h)

end Source.Descent

namespace Eval.Access

variable (stop : Eval Empty)

/-- Evaluates the forms from a place on. Without any, the value is the last one before. -/
def runFrom (ev : Evaluator) (name : Option String) (text : List Char) (last : Value)
    (p : Position) : Eval Value :=
  match _h : (Source.Descent.readNext text p).run with
  | none => stop >>= Empty.elim
  | some (.error e) => ofExcept (.error (e.inFile name))
  | some (.ok none) => pure last
  | some (.ok (some (f, q))) => do
    let v ← (ev .empty f.toValue).mapFault fun e => (e.locate f.pos).inFile name
    runFrom ev name text v q
termination_by (text.drop p.index).length
decreasing_by exact Source.Descent.length_drop_lt _h

def runText (o : Settings) (fuel : Nat) (text : String) : Eval Value :=
  runFrom stop (eval stop o.maxDepth fuel) o.sourceName text.toList .nil .start

theorem runFrom_eq (ev : Evaluator) (name : Option String) (text : List Char) (last : Value)
    (p : Position) :
    runFrom stop ev name text last p = Program.runFrom ev name last ⟨p, text.drop p.index⟩ := by
  fun_induction runFrom stop ev name text last p with
  | case1 last p hnone => cases hnone.symm.trans (Source.Descent.readNext_eq text p).1
  | case2 last p e herror =>
    have hread := herror.symm.trans (Source.Descent.readNext_eq text p).1
    rw [Program.runFrom]
    split <;> simp_all [Source.Reading.result]
  | case3 last p hended =>
    have hread := hended.symm.trans (Source.Descent.readNext_eq text p).1
    rw [Program.runFrom]
    split <;> simp_all [Source.Reading.result]
  | case4 last p f q hform ih =>
    rw [Program.runFrom]
    split <;> simp_all [Source.Descent.next_of_readNext hform]

theorem runText_eq (o : Settings) (fuel : Nat) (text : String) :
    runText stop o fuel text = o.runText fuel text := by
  rw [runText, eval_eq, runFrom_eq]
  rfl

end Eval.Access

namespace Repl.Access

open Eval.Access

variable (stop : Eval Empty)

def evaluate (fuel : Nat) (r : Repl) (text : String) : Reply × Repl :=
  match runText stop r.settings fuel text r.state with
  | .value v s => (.value v, { r with state := s })
  | .fault e s => (.error e, { r with state := s })
  | .outOfFuel => (.outOfFuel, r)

/-- Adds a line to those that wait, and evaluates them when they are complete. -/
def accept (fuel : Nat) (r : Repl) (line : String) : Reply × Repl :=
  let text := if r.isContinuing then r.pending ++ "\n" ++ line else line
  match demand stop (Source.Descent.readAll text).run r.state with
  | .value (.error e) _ =>
    if e.incomplete then (.incomplete, { r with pending := text }) else (.error e, r.discard)
  | .value (.ok _) _ => evaluate stop fuel r.discard text
  | .fault e s => (.error e, { r with state := s })
  | .outOfFuel => (.outOfFuel, r)

def handle (fuel : Nat) (r : Repl) (line : String) : Reply × Repl :=
  if r.isContinuing then accept stop fuel r line
  else
    match Text.trimChars line.toList with
    | [] => (.empty, r)
    | cs =>
      match command? cs with
      | some c => (obey r.state.registry c, r)
      | none => accept stop fuel r line

theorem evaluate_eq (fuel : Nat) (r : Repl) (text : String) :
    evaluate stop fuel r text = r.evaluate fuel text := by
  rw [evaluate, runText_eq]
  rfl

theorem accept_eq (fuel : Nat) (r : Repl) (line : String) :
    accept stop fuel r line = r.accept fuel line := by
  simp only [accept, Repl.accept, Source.Descent.readAll_eq, demand_some, evaluate_eq]
  generalize Source.readAll _ = reading
  cases reading <;> rfl

theorem handle_eq (fuel : Nat) (r : Repl) (line : String) :
    handle stop fuel r line = r.handle fuel line := by
  simp only [handle, accept_eq]
  rfl

/-- Whatever going wrong means, evaluating a text, answering a line and applying a value never go
wrong. The arity of a core function is one, and within it the function finds all that it asks for
and fails with native faults only. -/
theorem never_out_of_bounds :
    (∀ (o : Settings) (fuel : Nat) (text : String),
      runText stop o fuel text = o.runText fuel text) ∧
    (∀ (fuel : Nat) (r : Repl) (line : String), handle stop fuel r line = r.handle fuel line) ∧
    (∀ (limit : Option Nat) (ev : Evaluator) (callee : Value) (args : List Value),
      Eval.Access.apply stop limit ev callee args = Eval.apply limit ev callee args) ∧
    ∀ b ∈ Builtin.core,
      Arity.ofBounds? b.arity.least b.arity.most = some b.arity ∧
      ∀ args : List Value, b.arity.accepts args.length = true →
        perform stop b args = b.run args ∧
        ∀ (s t : State) (e : Fault), b.run args s = .fault e t → e.kind = .native := by
  refine ⟨runText_eq stop, handle_eq stop, apply_eq stop, fun b _ => ⟨?_, fun args haccepts => ?_⟩⟩
  · exact dif_pos b.arity.ordered
  · exact ⟨perform_eq stop haccepts, fun s t e hfault => (Builtin.run_eq_fault hfault).2.2⟩

/-- There is no element at the place, and that is an ordinary fault. -/
theorem never_out_of_bounds_nth :
    Builtin.nth ∈ Builtin.core ∧
    Builtin.nth.arity.accepts [Value.list [.int 5], .int 3].length = true ∧
    perform outOfFuel .nth [.list [.int 5], .int 3] {} =
      .fault { cause := .builtin (.outOfBounds 3 1) } {} ∧
    Fault.kind { cause := .builtin (.outOfBounds 3 1) } = .native := by
  have hcore : Builtin.nth ∈ Builtin.core := by decide
  have haccepts : Builtin.nth.arity.accepts [Value.list [.int 5], .int 3].length = true := rfl
  have hrun : Builtin.nth.run [.list [.int 5], .int 3] {} =
      .fault { cause := .builtin (.outOfBounds 3 1) } {} := by rfl
  obtain ⟨-, hbuiltin⟩ := ((never_out_of_bounds outOfFuel).2.2.2 .nth hcore)
  obtain ⟨hperform, hnative⟩ := hbuiltin _ haccepts
  exact ⟨hcore, haccepts, (congrFun hperform {}).trans hrun, hnative {} {} _ hrun⟩

end Repl.Access

end Lisp
