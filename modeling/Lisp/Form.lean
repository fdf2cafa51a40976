import Lisp.Atom
import Lisp.Position

/-!
# Forms

What a source text holds: atoms, and lists and vectors of forms, each with the place where its text
starts.
-/

namespace Lisp

inductive Bracket where
  | list
  | vector
  deriving DecidableEq

namespace Bracket

def opening : Bracket → Char
  | list => '('
  | vector => '['

def closing : Bracket → Char
  | list => ')'
  | vector => ']'

def typeName : Bracket → String
  | list => "list"
  | vector => "vector"

end Bracket

inductive Form where
  | atom (pos : Position) (a : Atom)
  | seq (pos : Position) (bracket : Bracket) (items : List Form)

namespace Form

def pos : Form → Position
  | atom p _ => p
  | seq p _ _ => p

end Form

end Lisp
