import Lisp.Decimal.Numeral
import Lisp.Eval.Basic
import Lisp.Text.Blank

/-!
# Settings

How deep calls may nest, whether the core functions are there, and what the source text is called.
The first two have defaults that environment variables can change.
-/

namespace Lisp

structure Settings where
  maxDepth : Option Nat := none
  noBuiltins : Bool := false
  sourceName : Option String := none

namespace Settings

/-- A depth limit from text: a positive number, blanks around it allowed. -/
def depthOfText? (s : String) : Option Nat :=
  (Decimal.bound? (Text.trimChars s.toList)).filter (0 < ·)

def flagOfText (s : String) : Bool :=
  String.ofList ((Text.trimChars s.toList).map Char.toLower) ∈ ["1", "true", "yes", "on"]

def variableNames : List String := ["SPRIG_MAX_DEPTH", "SPRIG_NO_BUILTINS"]

def envMaxDepth (var : String → Option String) : Option Nat :=
  (var "SPRIG_MAX_DEPTH").bind depthOfText?

/-- Whether the environment variables ask for a start without the core functions. -/
def envNoBuiltins (var : String → Option String) : Bool :=
  (var "SPRIG_NO_BUILTINS").any flagOfText

def ofEnvironment (var : String → Option String) : Settings :=
  { maxDepth := envMaxDepth var, noBuiltins := envNoBuiltins var }

def prepare (o : Settings) (r : Registry) : Registry :=
  if o.noBuiltins then r else r.ensureCore

def freshState (o : Settings) : State := { registry := o.prepare {} }

end Settings

end Lisp
