import Lisp.Builtin
import Lisp.Clause
import Lisp.Form

/-!
# Values

Code and data are the same: atoms, lists and vectors. Beside them stand closures, which are the
functions and macros that a program defines, and the built-in functions.
-/

namespace Lisp

/-- What a closure is for: to be called with values, or to expand the forms of a call into the form
that stands for it. -/
inductive Role where
  | function
  | expander
  deriving DecidableEq

/-- A function or macro of a program: its clauses and the environment that it was made in. Each has
a number of its own, by which it is told from others. -/
structure Closure (α : Type) where
  role : Role
  id : Nat
  name : Option String
  clauses : List (Clause α)
  scope : Env α

inductive Value where
  | atom (a : Atom)
  | seq (bracket : Bracket) (items : List Value)
  | closure (c : Closure Value)
  | builtin (b : Builtin)

instance : Inhabited Value := ⟨.atom .nil⟩

/-- What a closure is called in messages and in the trace of an error. -/
def Closure.label {α : Type} (c : Closure α) : String := c.name.getD "<lambda>"

namespace Value

@[match_pattern] abbrev nil : Value := .atom .nil
@[match_pattern] abbrev bool (b : Bool) : Value := .atom (.bool b)
@[match_pattern] abbrev int (n : Int64) : Value := .atom (.int n)
@[match_pattern] abbrev float (x : Float) : Value := .atom (.float x)
@[match_pattern] abbrev str (s : String) : Value := .atom (.str s)
@[match_pattern] abbrev symbol (name : String) : Value := .atom (.symbol name)
@[match_pattern] abbrev list (items : List Value) : Value := .seq .list items
@[match_pattern] abbrev vector (items : List Value) : Value := .seq .vector items

def typeName : Value → String
  | atom a => a.typeName
  | seq b _ => b.typeName
  | closure c => match c.role with
    | .function => "function"
    | .expander => "macro"
  | builtin _ => "function"

/-- Only `nil` and `false` count as false. -/
def truthy : Value → Bool
  | atom a => a.truthy
  | _ => true

def isCallable : Value → Bool
  | closure c => c.role == .function
  | builtin _ => true
  | _ => false

def symbol? : Value → Option String
  | symbol name => some name
  | _ => none

def items? : Value → Option (List Value)
  | seq _ items => some items
  | _ => none

theorem items?_eq_some {v : Value} {items : List Value} (h : v.items? = some items) :
    ∃ b, v = seq b items := by
  unfold items? at h
  split at h
  · cases h
    exact ⟨_, rfl⟩
  · cases h

end Value

mutual

/-- The datum that a form stands for, without its places in the text. -/
def Form.toValue : Form → Value
  | .atom _ a => .atom a
  | .seq _ b items => .seq b (Form.toValues items)

def Form.toValues : List Form → List Value
  | [] => []
  | f :: fs => f.toValue :: Form.toValues fs

end

theorem Form.toValues_eq_map (fs : List Form) : Form.toValues fs = fs.map Form.toValue := by
  induction fs with
  | nil => simp [Form.toValues]
  | cons f fs ih => simp [Form.toValues, ih]

end Lisp
