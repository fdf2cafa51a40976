import Lisp.Invocation.Basic
import Lisp.Terminal.Typing

/-!
# Running the program

The program with a line editor for a standard input that is no terminal.
-/

namespace Lisp.Invocation

def hear : (fuel : Nat) → (r : Repl) → (line : List Char) → Written × Stage :=
  hearTyped Terminal.typed?

def run : (fuel : Nat) → (var : String → Option String) → (fetch : String → Document) →
    (words : List String) → (stdin : String) → Option (Written × UInt32) :=
  runTyped Terminal.typed?

end Lisp.Invocation
