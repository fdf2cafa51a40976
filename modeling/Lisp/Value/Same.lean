import Lisp.Value

/-!
# Equality of values

Lists and vectors are equal when their elements are, whatever their brackets. A function or macro
equals only itself.
-/

namespace Lisp.Value

mutual

def same : Value → Value → Bool
  | atom a, atom b => a.same b
  | seq _ xs, seq _ ys => sameAll xs ys
  | closure c, closure d => c.role == d.role && c.id == d.id
  | builtin b, builtin c => b == c
  | _, _ => false

def sameAll : List Value → List Value → Bool
  | [], [] => true
  | x :: xs, y :: ys => x.same y && sameAll xs ys
  | _, _ => false

end

end Lisp.Value
