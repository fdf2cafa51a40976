import Lisp.Eval
import Lisp.Files
import Lisp.Settings
import Lisp.Source

/-!
# Programs

A program is evaluated while it is read, form by form in the outermost environment, so that a
definition or macro works for every form after it. A fault gets the place of the form that it left
and the name of the text.
-/

namespace Lisp

namespace Program

/-- Evaluates the forms from a place on. Without any, the value is the last one before. -/
def runFrom (ev : Evaluator) (name : Option String) (last : Value) (cur : Source.Cursor) :
    Eval Value :=
  match _h : cur.next with
  | .ended => pure last
  | .failed e _ => Eval.ofExcept (.error (e.inFile name))
  | .form f left => do
    let v ← (ev .empty f.toValue).mapFault fun e => (e.locate f.pos).inFile name
    runFrom ev name v left
termination_by cur.rest.length
decreasing_by exact Source.Cursor.length_lt_of_next _h

/-- Evaluates a text. The value is that of its last form, or `nil`. -/
def run (ev : Evaluator) (name : Option String) (text : String) : Eval Value :=
  runFrom ev name .nil (.ofString text)

def runDocument (ev : Evaluator) (d : Document) : Eval Value :=
  match d.text with
  | .ok text => run ev (some d.path) text
  | .error e => Eval.fail (.file d.path e)

end Program

namespace Settings

def evaluator (o : Settings) (fuel : Nat) : Evaluator := eval o.maxDepth fuel

def runText (o : Settings) (fuel : Nat) (text : String) : Eval Value :=
  Program.run (o.evaluator fuel) o.sourceName text

end Settings

end Lisp
