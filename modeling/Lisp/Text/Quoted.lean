import Lisp.Text.Combining
import Lisp.Text.Unprintable

/-!
# Quoted text

A text is written between double quotes. The quote, the backslash, newline, carriage return, tab
and NUL have escapes of their own, and a character that cannot be seen by itself is written as its
code point in hexadecimal.
-/

namespace Lisp.Text

/-- Whether a character is written as its code point. -/
def isHidden (c : Char) : Bool := isCombining c && !isSoundMark c || isUnprintable c

def escape (c : Char) : List Char :=
  if c = '"' then ['\\', '"']
  else if c = '\\' then ['\\', '\\']
  else if c = '\n' then ['\\', 'n']
  else if c = '\r' then ['\\', 'r']
  else if c = '\t' then ['\\', 't']
  else if c = '\x00' then ['\\', '0']
  else if isHidden c then ['\\', 'u', '\x7b'] ++ Nat.toDigits 16 c.toNat ++ ['\x7d']
  else [c]

def quoteChars (cs : List Char) : List Char := '"' :: (cs.flatMap escape ++ ['"'])

def quote (s : String) : String := String.ofList (quoteChars s.toList)

end Lisp.Text
