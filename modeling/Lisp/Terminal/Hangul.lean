import Lisp.Text.Ranges

/-!
# Hangul syllables

A syllable is written as one character, or letter by letter: leading consonants, vowels, trailing
consonants. Letters that make up one syllable belong together.
-/

namespace Lisp.Terminal

open Text

/-- The letters of a syllable by their place in it, and whole syllables, which are open if they end
with the vowel. -/
inductive Hangul where
  | leading
  | vowel
  | trailing
  | openSyllable
  | closedSyllable
  deriving DecidableEq

namespace Hangul

def leadingRanges : List (Nat × Nat) := [(0x1100, 0x115F), (0xA960, 0xA97C)]

def vowelRanges : List (Nat × Nat) :=
  [(0x1160, 0x11A7), (0xD7B0, 0xD7C6), (0x16D63, 0x16D63), (0x16D67, 0x16D6A)]

def trailingRanges : List (Nat × Nat) := [(0x11A8, 0x11FF), (0xD7CB, 0xD7FB)]

/-- The syllables stand in one row: for each beginning the open one and then 27 closed ones. -/
def ofChar? (c : Char) : Option Hangul :=
  let n := c.toNat
  if inRanges leadingRanges n then some .leading
  else if inRanges vowelRanges n then some .vowel
  else if inRanges trailingRanges n then some .trailing
  else if 0xAC00 ≤ n && n ≤ 0xD7A3 then
    some (if (n - 0xAC00) % 28 = 0 then .openSyllable else .closedSyllable)
  else none

def continues : Hangul → Hangul → Bool
  | .leading, .trailing => false
  | .leading, _ => true
  | .vowel, .vowel | .vowel, .trailing => true
  | .openSyllable, .vowel | .openSyllable, .trailing => true
  | .trailing, .trailing | .closedSyllable, .trailing => true
  | _, _ => false

end Hangul

end Lisp.Terminal
