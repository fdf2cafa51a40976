import Lisp.Decimal.Digits
import Lisp.Env

/-!
# Clauses of a function

A function has one clause for each way to call it: names for the arguments, perhaps a name for the
list of all further arguments, and the forms to evaluate. A call takes the first clause with exactly
as many names as there are arguments, or else the first clause with a name for the further ones.
-/

namespace Lisp

variable {α : Type}

/-- The parameters of a clause: a name for each argument, and a name for the list of the others. -/
structure Params where
  names : List String
  rest : Option String
  deriving DecidableEq

namespace Params

def isVariadic (p : Params) : Bool := p.rest.isSome

def accepts (p : Params) (n : Nat) : Bool :=
  if p.isVariadic then p.names.length ≤ n else n == p.names.length

def shape (p : Params) : String :=
  if p.isVariadic then Decimal.ofNat p.names.length ++ "+" else Decimal.ofNat p.names.length

/-- Binds the names to the arguments in order, and the last name to the list of those left. -/
def bind (toList : List α → α) (p : Params) (env : Env α) (args : List α) : Env α :=
  let named := (p.names.zip args).foldl (fun e b => e.set b.1 b.2) env
  match p.rest with
  | some name => named.set name (toList (args.drop p.names.length))
  | none => named

end Params

/-- One way to call a function. -/
structure Clause (α : Type) where
  params : Params
  body : List α

namespace Clause

def selectIdx? (clauses : List (Clause α)) (n : Nat) : Option Nat :=
  match clauses.findIdx? fun c => !c.params.isVariadic && c.params.names.length == n with
  | some i => some i
  | none => clauses.findIdx? fun c => c.params.isVariadic && c.params.names.length ≤ n

def select? (clauses : List (Clause α)) (n : Nat) : Option (Clause α) :=
  (selectIdx? clauses n).bind (clauses[·]?)

def describe (clauses : List (Clause α)) : String :=
  " or ".intercalate (clauses.map (·.params.shape))

end Clause

end Lisp
