import Lisp.Value

/-!
# Global definitions

A registry has a cell for each name that was ever defined, in the order of first definition. A cell
is never removed and never moves: a later definition of its name replaces its value. So the number
of a cell stands for it for ever.
-/

namespace Lisp

structure Registry where
  cells : List (String × Value) := []
  coreInstalled : Bool := false

namespace Registry

/-- The number of the cell of a name. -/
def cell? (r : Registry) (name : String) : Option Nat := r.cells.findIdx? (·.1 == name)

/-- What the cell with a number holds. -/
def valueAt? (r : Registry) (cell : Nat) : Option Value := (r.cells[cell]?).map (·.2)

def get? (r : Registry) (name : String) : Option Value := r.cells.lookup name

def contains (r : Registry) (name : String) : Bool := r.cells.any (·.1 == name)

/-- The cells after a definition: the cell of the name if there is one, or a new one, has the value. -/
def put (name : String) (v : Value) : List (String × Value) → List (String × Value)
  | [] => [(name, v)]
  | (k, w) :: rest => if k = name then (k, v) :: rest else (k, w) :: put name v rest

def define (r : Registry) (name : String) (v : Value) : Registry :=
  { r with cells := put name v r.cells }

def defineBuiltins (r : Registry) (bs : List Builtin) : Registry :=
  bs.foldl (fun r b => r.define b.name (.builtin b)) r

/-- Defines the core functions the first time that it is asked for, and changes nothing later. -/
def ensureCore (r : Registry) : Registry :=
  if r.coreInstalled then r else { r.defineBuiltins Builtin.core with coreInstalled := true }

def names (r : Registry) : List String := (r.cells.map (·.1)).mergeSort (· ≤ ·)

/-- What a name means: its lexical binding, or else its global definition. -/
def resolve? (r : Registry) (env : Env Value) (name : String) : Option Value :=
  (env.get? name).or (r.get? name)

theorem lookup_put (name k : String) (v : Value) (cells : List (String × Value)) :
    (put name v cells).lookup k = if k = name then some v else cells.lookup k := by
  induction cells with
  | nil =>
    by_cases h : k = name
    · simp [put, h]
    · simp [put, List.lookup_cons, h, beq_eq_false_iff_ne.2 h]
  | cons c rest ih =>
    obtain ⟨j, w⟩ := c
    by_cases hj : j = name
    · by_cases hk : k = name
      · simp [put, hj, hk]
      · simp [put, hj, List.lookup_cons, hk, beq_eq_false_iff_ne.2 hk]
    · by_cases hk : k = j
      · simp [put, hj, hk]
      · simp [put, hj, List.lookup_cons, beq_eq_false_iff_ne.2 hk, ih]

@[simp] theorem get?_define (r : Registry) (name k : String) (v : Value) :
    (r.define name v).get? k = if k = name then some v else r.get? k :=
  lookup_put name k v r.cells

end Registry

end Lisp
