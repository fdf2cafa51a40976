/-!
# Special forms

A list whose head is one of these names is evaluated by a rule of its own. The names are looked at
before any binding, so a program cannot hide them.
-/

namespace Lisp

/-- The forms with a rule of their own. -/
inductive SpecialForm where
  | define
  | defineFunction
  | function
  | bindLocals
  | branch
  | sequence
  | defineMacro
  | quote
  | template
  | unquote
  | splice
  | expandOnce
  | expandFully
  | evaluate
  deriving DecidableEq

namespace SpecialForm

def name : SpecialForm → String
  | define => "def"
  | defineFunction => "defn"
  | function => "fn"
  | bindLocals => "let"
  | branch => "if"
  | sequence => "do"
  | defineMacro => "defmacro"
  | quote => "quote"
  | template => "syntax-quote"
  | unquote => "unquote"
  | splice => "unquote-splicing"
  | expandOnce => "macroexpand-1"
  | expandFully => "macroexpand"
  | evaluate => "eval"

def all : List SpecialForm :=
  [define, defineFunction, function, bindLocals, branch, sequence, defineMacro, quote, template,
   unquote, splice, expandOnce, expandFully, evaluate]

def ofName? (s : String) : Option SpecialForm := all.find? (·.name == s)

theorem ofName?_eq_some_iff {s : String} {f : SpecialForm} : ofName? s = some f ↔ f.name = s := by
  constructor
  · intro h
    simpa using List.find?_some h
  · rintro rfl
    cases f <;> decide

end SpecialForm

end Lisp
