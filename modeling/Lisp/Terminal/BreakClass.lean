import Lisp.Text.Combining
import Lisp.Terminal.Conjunct
import Lisp.Terminal.Hangul
import Lisp.Terminal.Pictograph
import Lisp.Terminal.Spacing

/-!
# Break classes

What decides whether two neighbours belong to the same character as a reader sees it.
-/

namespace Lisp.Terminal

open Text

/-- The classes of characters that the rules for clusters tell apart. -/
inductive BreakClass where
  | carriageReturn
  | lineFeed
  | control
  | extend
  | joiner
  | spacing
  | prepend
  | hangul (part : Hangul)
  | regional
  | pictograph
  | consonant
  | other
  deriving DecidableEq

/-- Characters that stand between others and belong to none, in order. -/
def controlRanges : List (Nat × Nat) :=
  [(0x0, 0x1F), (0x7F, 0x9F), (0xAD, 0xAD), (0x61C, 0x61C), (0x180E, 0x180E), (0x200B, 0x200B),
   (0x200E, 0x200F), (0x2028, 0x202E), (0x2060, 0x206F), (0xFEFF, 0xFEFF), (0xFFF0, 0xFFFB),
   (0x13430, 0x1343F), (0x1BCA0, 0x1BCA3), (0x1D173, 0x1D17A), (0xE0000, 0xE001F),
   (0xE0080, 0xE00FF), (0xE01F0, 0xE0FFF)]

def prependRanges : List (Nat × Nat) :=
  [(0x600, 0x605), (0x6DD, 0x6DD), (0x70F, 0x70F), (0x890, 0x891), (0x8E2, 0x8E2), (0xD4E, 0xD4E),
   (0x110BD, 0x110BD), (0x110CD, 0x110CD), (0x111C2, 0x111C3), (0x113D1, 0x113D1),
   (0x1193F, 0x1193F), (0x11941, 0x11941), (0x11A84, 0x11A89), (0x11D46, 0x11D46),
   (0x11F02, 0x11F02)]

/-- The class of a character outside the first 127, which have simple classes. -/
def BreakClass.ofWide (c : Char) : BreakClass :=
  if inRanges controlRanges c.toNat then .control
  else if c = '\u200D' then .joiner
  else if isCombining c || isTone c then .extend
  else if isSpacing c then .spacing
  else if inRanges prependRanges c.toNat then .prepend
  else if isRegional c then .regional
  else if isPictograph c then .pictograph
  else if isConsonant c then .consonant
  else match Hangul.ofChar? c with
    | some part => .hangul part
    | none => .other

def breakClass (c : Char) : BreakClass :=
  if c = '\r' then .carriageReturn
  else if c = '\n' then .lineFeed
  else if c.toNat < 0x20 then .control
  else if c.toNat < 0x7F then .other
  else .ofWide c

end Lisp.Terminal
