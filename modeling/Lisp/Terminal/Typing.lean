import Lisp.Line
import Lisp.Terminal.Cluster

/-!
# Lines as they are typed

What a user means with a line that has backspaces in it. A backspace takes back a whole cluster. The
size of a cluster is remembered in a single byte, so a cluster of 256 bytes and more is taken back in
part only.
-/

namespace Lisp.Terminal

/-- Drops characters that take just so many bytes. There is no such cut inside a character. -/
def dropBytes? : List Char → Nat → Option (List Char)
  | cs, 0 => some cs
  | [], _ + 1 => none
  | c :: cs, n + 1 => if c.utf8Size ≤ n + 1 then dropBytes? cs (n + 1 - c.utf8Size) else none

/-- A line on its way: the characters kept, newest first, and how many bytes each further backspace
takes back. -/
structure Typing where
  kept : List Char := []
  sizes : List Nat := []

/-- A cluster is typed. A backspace at the beginning of the line does nothing. -/
def Typing.press? (t : Typing) (cluster : List Char) : Option Typing :=
  if cluster = ['\x08'] then
    match t.sizes with
    | [] => some t
    | n :: sizes => (dropBytes? t.kept n).map fun kept => { kept, sizes }
  else some { kept := cluster.reverse ++ t.kept, sizes := Line.byteSize cluster % 256 :: t.sizes }

/-- The line that a user meant with what was typed, its end included. There is none if a backspace
would leave a part of a character. -/
def typed? (line : List Char) : Option String :=
  ((clusters (Line.chomp line)).foldlM Typing.press? {}).map fun t => String.ofList t.kept.reverse

end Lisp.Terminal
