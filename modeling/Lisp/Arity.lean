import Lisp.Decimal.Digits

/-!
# Argument counts of built-in functions

A built-in function takes at least some number of arguments and, unless it takes any number, at
most another.
-/

namespace Lisp

structure Arity where
  least : Nat
  most : Option Nat
  ordered : ∀ m, most = some m → least ≤ m
  deriving DecidableEq

namespace Arity

def exactly (n : Nat) : Arity := ⟨n, some n, by simp⟩

def atLeast (n : Nat) : Arity := ⟨n, none, by simp⟩

/-- The counts from `least` to `most`, or every count from `least` on. There are none when `most`
is the smaller one. -/
def ofBounds? (least : Nat) (most : Option Nat) : Option Arity :=
  if h : ∀ m, most = some m → least ≤ m then some ⟨least, most, h⟩ else none

/-- Why two bounds are no arity. -/
def emptyBounds : String := "min arity cannot exceed max arity"

def accepts (a : Arity) (n : Nat) : Bool :=
  a.least ≤ n && a.most.all (n ≤ ·)

def text (a : Arity) : String :=
  match a.most with
  | some m =>
    if m = a.least then Decimal.ofNat a.least
    else Decimal.ofNat a.least ++ ".." ++ Decimal.ofNat m
  | none => Decimal.ofNat a.least ++ "+"

theorem accepts_iff {a : Arity} {n : Nat} :
    a.accepts n = true ↔ a.least ≤ n ∧ ∀ m, a.most = some m → n ≤ m := by
  cases h : a.most <;> simp [accepts, h]

end Arity

end Lisp
