import Lisp.Native

/-!
# The built-in functions

Their names and argument counts. The core ones are defined in every registry that asks for them,
and an embedding program may add functions of its own. What the functions do stands with the values
they work on.
-/

namespace Lisp

/-- A function that no program of the language defines. -/
inductive Builtin where
  | add | mul | sub | div | inc | dec
  | equal | less | greater | lessEq | greaterEq
  | not | list | vector | cons | first | rest | count | concat | nth
  | isNil | isList | isSymbol | isFunction
  | str | symbol | gensym | print | println
  | native (f : Native)
  deriving DecidableEq

namespace Builtin

def name : Builtin → String
  | add => "+"
  | mul => "*"
  | sub => "-"
  | div => "/"
  | inc => "inc"
  | dec => "dec"
  | equal => "="
  | less => "<"
  | greater => ">"
  | lessEq => "<="
  | greaterEq => ">="
  | not => "not"
  | list => "list"
  | vector => "vector"
  | cons => "cons"
  | first => "first"
  | rest => "rest"
  | count => "count"
  | concat => "concat"
  | nth => "nth"
  | isNil => "nil?"
  | isList => "list?"
  | isSymbol => "symbol?"
  | isFunction => "fn?"
  | str => "str"
  | symbol => "symbol"
  | gensym => "gensym"
  | print => "print"
  | println => "println"
  | native f => f.name

def shownName? : Builtin → Option String
  | native f => f.shownName?
  | b => some b.name

/-- What a call of the function is called in messages and in the trace of an error. -/
def label (b : Builtin) : String := b.shownName?.getD "<native-fn>"

def arity : Builtin → Arity
  | add | mul | list | vector | concat | str | print | println => .atLeast 0
  | sub | div | equal | less | greater | lessEq | greaterEq => .atLeast 1
  | inc | dec | not | first | rest | count | isNil | isList | isSymbol | isFunction | symbol =>
    .exactly 1
  | cons => .exactly 2
  | nth => ⟨2, some 3, by simp⟩
  | gensym => ⟨0, some 1, by simp⟩
  | native f => f.arity

/-- The functions of the core, in the order in which they are defined. -/
def core : List Builtin :=
  [add, mul, sub, div, inc, dec, equal, less, greater, lessEq, greaterEq, not, list, vector, cons,
   first, rest, count, concat, nth, isNil, isList, isSymbol, isFunction, str, symbol, gensym, print,
   println]

def probes : List Builtin := [native .emit, native .raise]

end Builtin

end Lisp
