import Lisp.Eval.Call

/-!
# Templates

A template is a datum in which some places are filled with values. `(unquote e)` stands for the
value of `e`, and `(unquote-splicing e)`, inside a list or vector, for the elements of that value. A
symbol that ends in `#` stands for a generated name, the same one in the whole template. A template
inside a template stays as it is.
-/

namespace Lisp

/-- The names generated for a template, each with the symbol that it stands for. -/
abbrev Renaming := List (String × String)

def autoBase? (name : String) : Option String :=
  match name.toList.reverse with
  | '#' :: c :: cs => some (String.ofList (c :: cs).reverse)
  | _ => none

def headIs (f : SpecialForm) : List Value → Bool
  | .symbol name :: _ => name == f.name
  | _ => false

/-- The list that a value is, if it asks for its value to be spliced in. -/
def spliceList? : Value → Option (List Value)
  | .list items => if headIs .splice items then some items else none
  | _ => none

namespace Eval

/-- The form that a mark of a template applies to. -/
def operand (f : SpecialForm) : List Value → Eval Value
  | [_, v] => pure v
  | items => fail (.malformed f (.operandCount (items.length - 1)))

def spliced : Value → Eval (List Value)
  | .seq _ items => pure items
  | .nil => pure []
  | v => fail (.malformed .splice (.badSplice v.typeName))

def rename (base name : String) (names : Renaming) : Eval (String × Renaming) :=
  match names.lookup name with
  | some fresh => pure (fresh, names)
  | none => do
    let fresh ← freshName base
    return (fresh, (name, fresh) :: names)

mutual

def fill (ev : Evaluator) (env : Env Value) (names : Renaming) : Value → Eval (Value × Renaming)
  | .symbol name =>
    match autoBase? name with
    | some base => do
      let (fresh, names) ← rename base name names
      return (.symbol fresh, names)
    | none => return (.symbol name, names)
  | .seq .list items =>
    if headIs .unquote items then do
      let form ← operand .unquote items
      return (← ev env form, names)
    else if headIs .splice items then fail (.malformed .splice .spliceAlone)
    else if headIs .template items then return (.list items, names)
    else do
      let (filled, names) ← fillItems ev env names items
      return (.list filled, names)
  | .seq .vector items => do
    let (filled, names) ← fillItems ev env names items
    return (.vector filled, names)
  | v => return (v, names)

def fillItems (ev : Evaluator) (env : Env Value) (names : Renaming) :
    List Value → Eval (List Value × Renaming)
  | [] => return ([], names)
  | item :: rest =>
    match spliceList? item with
    | some items => do
      let form ← operand .splice items
      let now ← spliced (← ev env form)
      let (later, names) ← fillItems ev env names rest
      return (now ++ later, names)
    | none => do
      let (now, names) ← fill ev env names item
      let (later, names) ← fillItems ev env names rest
      return (now :: later, names)

end

def template (ev : Evaluator) (env : Env Value) (v : Value) : Eval Value := do
  return (← fill ev env [] v).1

end Eval

end Lisp
