import Lisp.Arity
import Lisp.Form

/-!
# Functions of an embedding program

A program that embeds the language may lend it functions of its own. The language knows their names
and argument counts and what they answer, so what they do is a parameter here. Such a function sees
how its arguments print. It does not define names, it calls nothing, and it fails with a message.
-/

namespace Lisp

/-- A function of an embedding program: the name that a registry binds it to, the one that it shows,
if any, and how many arguments it takes. -/
structure Native where
  name : String
  shownName? : Option String
  arity : Arity
  deriving DecidableEq

namespace Native

/-- How an argument prints, which is all that a function sees of it. -/
structure Shown where
  typeName : String
  plain : String

inductive Answer where
  | refuse (message : String)
  | datum (f : Form)
  /-- The embedding program keeps the argument with this number and gives it back. -/
  | keep (i : Nat)

/-- Hands its argument to the embedding program. -/
def emit : Native := ⟨"emit", some "emit", .exactly 1⟩

/-- Fails with its first argument for a message. It stays anonymous. -/
def raise : Native := ⟨"raise", none, ⟨1, some 2, by simp⟩⟩

end Native

/-- What the functions of an embedding program answer to arguments. -/
def Natives := Native → List Native.Shown → Native.Answer

def Natives.probes : Natives
  | _, [] => .refuse ""
  | f, shown :: _ => if f = .raise then .refuse shown.plain else .keep 0

end Lisp
