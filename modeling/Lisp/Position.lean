/-!
# Positions in a source text

Lines and columns count from one and characters from zero. A newline ends its line, and every
other character takes one column.
-/

namespace Lisp

structure Position where
  line : Nat
  col : Nat
  index : Nat
  deriving DecidableEq

namespace Position

def start : Position := ⟨1, 1, 0⟩

def next (p : Position) (c : Char) : Position :=
  if c = '\n' then ⟨p.line + 1, 1, p.index + 1⟩ else ⟨p.line, p.col + 1, p.index + 1⟩

@[simp] theorem index_next (p : Position) (c : Char) : (p.next c).index = p.index + 1 := by
  unfold next
  split <;> rfl

end Position

end Lisp
