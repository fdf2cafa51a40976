import Lisp.Source.Scan

/-!
# Reading source text

`readAll` reads a whole text. `Cursor.next` reads one form and tells what is left, so that a program
can be evaluated while it is read.
-/

namespace Lisp.Source

def readChars (cs : List Char) : Except Fault (List Form) := do
  let s ← (Scan.start .start).feed cs
  return (← s.finish).done.reverse

def readAll (text : String) : Except Fault (List Form) := readChars text.toList

/-- A place in a text and the characters from there on. -/
structure Cursor where
  pos : Position
  rest : List Char

/-- What reading one form can give: a form and what is left after it, the end of the text, or a
fault and what was left when it was met. -/
inductive Reading where
  | form (f : Form) (left : Cursor)
  | ended
  | failed (e : Fault) (left : List Char)

namespace Cursor

def ofString (text : String) : Cursor := ⟨.start, text.toList⟩

def atEnd (c : Cursor) : Bool := c.rest.isEmpty

def skipBlanks (inComment : Bool) (p : Position) : List Char → Cursor
  | [] => ⟨p, []⟩
  | c :: cs =>
    if inComment then skipBlanks (c ≠ '\n') (p.next c) cs
    else if isSeparator c then skipBlanks false (p.next c) cs
    else if c = ';' then skipBlanks true (p.next c) cs
    else ⟨p, c :: cs⟩

end Cursor

/-- Continues a scan until its first form is complete. -/
def Scan.run (s : Scan) (cs : List Char) : Reading :=
  match s.done with
  | f :: _ => .form f ⟨s.pos, cs⟩
  | [] =>
    match cs with
    | [] =>
      match s.finish with
      | .error e => .failed e []
      | .ok t => match t.done with
        | f :: _ => .form f ⟨t.pos, []⟩
        | [] => .ended
    | c :: rest =>
      match s.settle c with
      | .error e => .failed e (c :: rest)
      | .ok t =>
        match t.done with
        | f :: _ => .form f ⟨t.pos, c :: rest⟩
        | [] =>
          match t.take c with
          | .error e => .failed e (c :: rest)
          | .ok u => u.run rest

namespace Cursor

def next (cur : Cursor) : Reading :=
  let here := skipBlanks false cur.pos cur.rest
  match here.rest with
  | [] => .ended
  | c :: cs =>
    match (Scan.start here.pos).take c with
    | .error e => .failed e (c :: cs)
    | .ok s => s.run cs

theorem length_skipBlanks_le (inComment : Bool) (p : Position) (cs : List Char) :
    (skipBlanks inComment p cs).rest.length ≤ cs.length := by
  induction cs generalizing inComment p with
  | nil => simp [skipBlanks]
  | cons c cs ih =>
    unfold skipBlanks
    split
    · exact Nat.le_succ_of_le (ih _ _)
    · split
      · exact Nat.le_succ_of_le (ih _ _)
      · split
        · exact Nat.le_succ_of_le (ih _ _)
        · exact Nat.le_refl _

end Cursor

/-- Completing a form leaves no more than there was. -/
theorem Scan.length_le_of_run {s : Scan} {cs : List Char} {f : Form} {left : Cursor}
    (h : s.run cs = .form f left) : left.rest.length ≤ cs.length := by
  induction cs generalizing s with
  | nil =>
    unfold Scan.run at h
    split at h
    · cases h
      exact Nat.le_refl _
    · simp only at h
      split at h
      · cases h
      · split at h <;> cases h
        exact Nat.le_refl _
  | cons c cs ih =>
    unfold Scan.run at h
    split at h
    · cases h
      exact Nat.le_refl _
    · simp only at h
      split at h
      · cases h
      · split at h
        · cases h
          exact Nat.le_refl _
        · split at h
          · cases h
          · exact Nat.le_succ_of_le (ih h)

/-- Reading a form consumes at least one character. -/
theorem Cursor.length_lt_of_next {cur left : Cursor} {f : Form} (h : cur.next = .form f left) :
    left.rest.length < cur.rest.length := by
  unfold Cursor.next at h
  have hs := length_skipBlanks_le false cur.pos cur.rest
  simp only at h
  split at h
  · cases h
  · rename_i c cs hc
    rw [hc] at hs
    split at h
    · cases h
    · exact Nat.lt_of_le_of_lt (Scan.length_le_of_run h) hs

end Lisp.Source
