import Lisp.Atom
import Lisp.Decimal.Numeral
import Lisp.Text.Blank

/-!
# Words

A word is a run of characters without blanks, brackets, quotes and comment marks. It is a constant,
a number or a symbol. A word that starts like a number has to be one.
-/

namespace Lisp.Source

def isSeparator (c : Char) : Bool := Text.isBlank c || c == ','

def endsWord (c : Char) : Bool :=
  isSeparator c || c ∈ ['(', ')', '[', ']', '"', ';', '\'', '\x60']

/-- Whether a word has to be a number: it starts with a digit, perhaps after a sign. -/
def looksNumeric : List Char → Bool
  | [] => false
  | c :: cs =>
    Decimal.isDigit c || ((c == '+' || c == '-') && cs.head?.any Decimal.isDigit)

def isFractional (cs : List Char) : Bool := cs.any (· ∈ ['.', 'e', 'E'])

/-- The atom that a word stands for, or nothing if it is a number that cannot be read. -/
def wordAtom? (cs : List Char) : Option Atom :=
  if cs = ['n', 'i', 'l'] then some .nil
  else if cs = ['t', 'r', 'u', 'e'] then some (.bool true)
  else if cs = ['f', 'a', 'l', 's', 'e'] then some (.bool false)
  else if looksNumeric cs then
    if isFractional cs then (Decimal.float? cs).map .float else (Decimal.word? cs).map .int
  else some (.symbol (String.ofList cs))

end Lisp.Source
