import Lisp.Fault
import Lisp.Value.Printer

/-!
# Parameter lists and clauses

A function is written as a parameter list and a body, or as several clauses, each of them a list of
a parameter list and a body. A parameter list is a list or vector of symbols. A symbol after `&`,
the last one, takes all further arguments.
-/

namespace Lisp

def Params.ofItems : List Value → Except Malformation Params
  | [] => .ok ⟨[], none⟩
  | .symbol "&" :: tail =>
    match tail with
    | [.symbol name] => if name = "&" then .error .badRest else .ok ⟨[], some name⟩
    | _ => .error .badRest
  | .symbol name :: tail => do
    let p ← Params.ofItems tail
    return { p with names := name :: p.names }
  | v :: _ => .error (.badParam v.display)

theorem Params.ofItems_last {name : String} (h : name ≠ "&") :
    ofItems [.symbol "&", .symbol name] = .ok ⟨[], some name⟩ := by
  simp [ofItems, h]

theorem Params.ofItems_name {name : String} (h : name ≠ "&") (tail : List Value) :
    ofItems (.symbol name :: tail) =
      (ofItems tail).map fun p => { p with names := name :: p.names } := by
  rw [ofItems]
  · cases ofItems tail <;> rfl
  · simpa using h

def Params.ofValue (v : Value) : Except Malformation Params :=
  match v.items? with
  | some items => Params.ofItems items
  | none => .error (.badParams v.display)

namespace Clause

/-- Reads a clause that stands in brackets of its own. -/
def ofValue (v : Value) : Except Malformation (Clause Value) :=
  match v.items? with
  | none => .error (.badClause v.display)
  | some [] => .error .emptyClause
  | some (params :: body) => do return ⟨← Params.ofValue params, body⟩

def ofValues : List Value → Except Malformation (List (Clause Value))
  | [] => .ok []
  | v :: vs => do
    let c ← ofValue v
    return c :: (← ofValues vs)

/-- Whether a value starts a clause and not a parameter list: it is a list that starts with a list
or vector. -/
def opens : Value → Bool
  | .list (.seq _ _ :: _) => true
  | _ => false

/-- Reads the clauses of a function: one without brackets, or several. -/
def parse : List Value → Except Malformation (List (Clause Value))
  | [] => .error .missingParams
  | v :: vs =>
    if opens v then ofValues (v :: vs)
    else do return [⟨← Params.ofValue v, vs⟩]

/-- The clause that a call with `n` arguments takes, or why there is none. -/
def choose {α : Type} (label : String) (clauses : List (Clause α)) (n : Nat) :
    Except Cause (Clause α) :=
  match select? clauses n with
  | some c => .ok c
  | none => .error (.arity label n (describe clauses))

end Clause

/-- Splits the name off a definition, and the text that may describe it. -/
def splitName : List Value → Except Malformation (String × List Value)
  | [] => .error .missingName
  | .symbol name :: .str _ :: v :: vs => .ok (name, v :: vs)
  | .symbol name :: vs => .ok (name, vs)
  | v :: _ => .error (.badName v.display)

end Lisp
