import Lisp.Value

/-!
# Printing values

Data print as the text that reads back as them. Functions and macros print as marks that name them.
-/

namespace Lisp

def Closure.display {α : Type} (c : Closure α) : String :=
  match c.role, c.name with
  | .function, some name => "#<fn " ++ name ++ ">"
  | .function, none => "#<lambda>"
  | .expander, some name => "#<macro " ++ name ++ ">"
  | .expander, none => "#<macro>"

def Builtin.display (b : Builtin) : String :=
  match b.shownName? with
  | some name => "#<fn " ++ name ++ ">"
  | none => "#<native-fn>"

namespace Value

mutual

def display : Value → String
  | atom a => a.display
  | seq b items =>
    String.singleton b.opening ++ " ".intercalate (displays items) ++ String.singleton b.closing
  | closure c => c.display
  | builtin b => b.display

def displays : List Value → List String
  | [] => []
  | v :: vs => v.display :: displays vs

end

/-- The text of a value in running text: a text stands for itself, without quotes. -/
def plain : Value → String
  | str s => s
  | v => v.display

theorem displays_eq_map (vs : List Value) : displays vs = vs.map display := by
  induction vs with
  | nil => simp [displays]
  | cons v vs ih => simp [displays, ih]

end Value

end Lisp
