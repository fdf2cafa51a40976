import Lisp.Terminal.BreakClass

/-!
# Clusters

A cluster is what a reader takes for one character: a letter with its marks, a syllable, a flag, a
picture made of several. A text is cut into clusters from left to right, and nothing before a
cluster bears on where it ends.
-/

namespace Lisp.Terminal

open Text

def isConjunctMark (c : Char) : Bool :=
  c != '\u200C' && (breakClass c == .extend || breakClass c == .joiner)

/-- Whether a cluster ends in a consonant and marks of which one links it to a consonant that
follows. The characters come newest first. -/
def endsLinked (cluster : List Char) : Bool :=
  (cluster.takeWhile isConjunctMark).any isLinker &&
    (cluster.dropWhile isConjunctMark).head?.any (breakClass · == .consonant)

/-- Whether a cluster, newest character first, ends in a pictograph, its extensions apart. -/
def endsPictured (cluster : List Char) : Bool :=
  (cluster.dropWhile (breakClass · == .extend)).head?.any (breakClass · == .pictograph)

/-- Whether a cluster, newest character first, ends in a letter for a region without its partner. -/
def endsHalfFlag (cluster : List Char) : Bool :=
  (cluster.takeWhile isRegional).length % 2 == 1

/-- Whether a character belongs to the cluster before it, whose characters come newest first. -/
def joins : List Char → Char → Bool
  | [], _ => false
  | last :: before, c =>
    match breakClass last, breakClass c with
    | .carriageReturn, .lineFeed => true
    | .control, _ | .carriageReturn, _ | .lineFeed, _ => false
    | _, .control | _, .carriageReturn | _, .lineFeed => false
    | _, .extend | _, .joiner | _, .spacing => true
    | .prepend, _ => true
    | .hangul a, .hangul b => a.continues b
    | _, .consonant => endsLinked (last :: before)
    | .joiner, .pictograph => endsPictured before
    | .regional, .regional => endsHalfFlag (last :: before)
    | _, _ => false

/-- Cuts what follows an open cluster, whose characters come newest first. The clusters that are
complete come newest first, too. -/
def clustersFrom (done : List (List Char)) (cluster : List Char) : List Char → List (List Char)
  | [] => (cluster.reverse :: done).reverse
  | c :: cs =>
    if joins cluster c then clustersFrom done (c :: cluster) cs
    else clustersFrom (cluster.reverse :: done) [c] cs

def clusters : List Char → List (List Char)
  | [] => []
  | c :: cs => clustersFrom [] [c] cs

end Lisp.Terminal
