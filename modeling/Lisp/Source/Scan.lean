import Lisp.Fault
import Lisp.Source.Word

/-!
# Scanning a text

A scan reads a text one character at a time. It keeps the forms that are complete, the brackets and
quotation marks that still wait for something, and the word or string that it is in the middle of.
Since the scan of a text continues the scan of its beginning, reading goes along with joining texts.

A character is met in two steps. `settle` ends what the character cannot belong to, and `take` then
consumes it. The end of the text ends everything that can end there.
-/

namespace Lisp.Source

inductive Mark where
  | quote
  | template
  | unquote
  | splice
  deriving DecidableEq

def Mark.head : Mark → String
  | quote => SpecialForm.quote.name
  | template => SpecialForm.template.name
  | unquote => SpecialForm.unquote.name
  | splice => SpecialForm.splice.name

/-- Something that waits for a form: an open bracket with the forms so far, the newest first, or a
mark. -/
inductive Layer where
  | opened (bracket : Bracket) (start : Position) (items : List Form)
  | marked (mark : Mark) (start : Position)

/-- What the next character continues. A word or string has its characters so far, the newest
first. After `~` it is still open whether `@` follows. -/
inductive Mode where
  | between
  | comment
  | tilde (start : Position)
  | word (start : Position) (chars : List Char)
  | string (start : Position) (chars : List Char)
  | escape (start : Position) (chars : List Char)

/-- A scan in progress: the place of the next character, the complete forms, the newest first, the
layers that wait, the innermost first, and what is being read. -/
structure Scan where
  pos : Position
  done : List Form
  layers : List Layer
  mode : Mode

namespace Scan

def start (p : Position) : Scan := ⟨p, [], [], .between⟩

def fault (s : Scan) (e : ReadError) : Fault := { cause := .read e, pos := some s.pos }

/-- The complete forms and the waiting layers after another form is complete: each mark wraps it,
and an open bracket, or the text itself, takes it in. -/
def place (done : List Form) : List Layer → Form → List Form × List Layer
  | [], f => (f :: done, [])
  | .opened b p items :: rest, f => (done, .opened b p (f :: items) :: rest)
  | .marked m p :: rest, f => place done rest (.seq p .list [.atom p (.symbol m.head), f])

/-- Hands a complete form to what waits for it. -/
def deliver (s : Scan) (f : Form) : Scan :=
  let (done, layers) := place s.done s.layers f
  { s with done, layers, mode := .between }

def await (s : Scan) (l : Layer) : Scan := { s with layers := l :: s.layers, mode := .between }

def endWord (s : Scan) (p : Position) (chars : List Char) : Except Fault Scan :=
  match wordAtom? chars.reverse with
  | some a => .ok (s.deliver (.atom p a))
  | none => .error (s.fault (.badNumber (String.ofList chars.reverse)))

/-- Ends what cannot hold the next character. -/
def settle (s : Scan) (c : Char) : Except Fault Scan :=
  match s.mode with
  | .word p chars => if endsWord c then s.endWord p chars else .ok s
  | .tilde p => if c = '@' then .ok s else .ok (s.await (.marked .unquote p))
  | _ => .ok s

def close (s : Scan) (b : Bracket) : Except Fault Scan :=
  match s.layers with
  | .opened opener p items :: rest =>
    if opener = b then .ok ({ s with layers := rest }.deliver (.seq p b items.reverse))
    else .error (s.fault (.mismatchedCloser b opener p))
  | _ => .error (s.fault (.strayCloser b))

/-- Starts what a character between forms starts. -/
def begin (s : Scan) (c : Char) : Except Fault Scan :=
  if isSeparator c then .ok s
  else match c with
    | ';' => .ok { s with mode := .comment }
    | '\'' => .ok (s.await (.marked .quote s.pos))
    | '\x60' => .ok (s.await (.marked .template s.pos))
    | '~' => .ok { s with mode := .tilde s.pos }
    | '(' => .ok (s.await (.opened .list s.pos []))
    | '[' => .ok (s.await (.opened .vector s.pos []))
    | '"' => .ok { s with mode := .string s.pos [] }
    | ')' => s.close .list
    | ']' => s.close .vector
    | _ => .ok { s with mode := .word s.pos [c] }

def unescape : Char → Char
  | 'n' => '\n'
  | 'r' => '\r'
  | 't' => '\t'
  | c => c

/-- What a character changes, its place apart. -/
def absorb (s : Scan) (c : Char) : Except Fault Scan :=
  match s.mode with
  | .between => s.begin c
  | .comment => .ok (if c = '\n' then { s with mode := .between } else s)
  | .tilde p => .ok (s.await (.marked .splice p))
  | .word p chars => .ok { s with mode := .word p (c :: chars) }
  | .string p chars =>
    if c = '"' then .ok (s.deliver (.atom p (.str (String.ofList chars.reverse))))
    else if c = '\\' then .ok { s with mode := .escape p chars }
    else .ok { s with mode := .string p (c :: chars) }
  | .escape p chars => .ok { s with mode := .string p (unescape c :: chars) }

def take (s : Scan) (c : Char) : Except Fault Scan :=
  (s.absorb c).map fun t => { t with pos := t.pos.next c }

def step (s : Scan) (c : Char) : Except Fault Scan := do (← s.settle c).take c

theorem settle_of_between {s : Scan} (h : s.mode = .between) (c : Char) : s.settle c = .ok s := by
  rw [settle, h]

theorem settle_of_endsWord {s : Scan} {p : Position} {chars : List Char} {c : Char}
    (h : s.mode = .word p chars) (hc : endsWord c = true) : s.settle c = s.endWord p chars := by
  rw [settle, h]
  exact if_pos hc

theorem step_of_settle {s t : Scan} {c : Char} (h : s.settle c = .ok t) :
    s.step c = t.take c := by
  rw [step, h]
  rfl

theorem step_of_absorb {s t u : Scan} {c : Char} (hsettle : s.settle c = .ok t)
    (habsorb : t.absorb c = .ok u) : s.step c = .ok { u with pos := u.pos.next c } := by
  rw [step_of_settle hsettle, take, habsorb]
  rfl

theorem step_of_between {s : Scan} (h : s.mode = .between) (c : Char) : s.step c = s.take c :=
  step_of_settle (settle_of_between h c)

/-- Separators between forms mean nothing. -/
theorem step_of_isSeparator {s : Scan} {c : Char} (h : s.mode = .between)
    (hc : isSeparator c = true) : s.step c = .ok { s with pos := s.pos.next c } := by
  have habsorb : s.absorb c = .ok s := by
    rw [absorb, h]
    exact if_pos hc
  exact step_of_absorb (settle_of_between h c) habsorb

/-- A newline ends a comment, and nothing else does. -/
theorem step_of_comment {s : Scan} (h : s.mode = .comment) (c : Char) :
    s.step c = .ok { s with
      pos := s.pos.next c, mode := if c = '\n' then .between else .comment } := by
  have hsettle : s.settle c = .ok s := by rw [settle, h]
  have habsorb : s.absorb c = .ok { s with mode := if c = '\n' then .between else .comment } := by
    rw [absorb, h]
    by_cases hc : c = '\n' <;> simp [hc, ← h]
  exact step_of_absorb hsettle habsorb

def feed (s : Scan) (cs : List Char) : Except Fault Scan := cs.foldlM step s

@[simp] theorem feed_nil (s : Scan) : s.feed [] = .ok s := rfl

@[simp] theorem feed_cons (s : Scan) (c : Char) (cs : List Char) :
    s.feed (c :: cs) = s.step c >>= fun t => t.feed cs := rfl

/-- Reading a text goes on from where reading its beginning stopped. -/
theorem feed_append (s : Scan) (cs ds : List Char) :
    s.feed (cs ++ ds) = s.feed cs >>= fun t => t.feed ds := by
  simp [feed, List.foldlM_append]

/-- Demands that nothing waits for a form any more. -/
def closed (s : Scan) : Except Fault Scan :=
  match s.layers with
  | [] => .ok s
  | .opened b _ _ :: _ => .error (s.fault (.unterminated b))
  | .marked _ _ :: _ => .error (s.fault .endOfInput)

def finish (s : Scan) : Except Fault Scan :=
  match s.mode with
  | .between | .comment => s.closed
  | .tilde _ => .error (s.fault .endOfInput)
  | .word p chars => (s.endWord p chars).bind closed
  | .string _ _ => .error (s.fault .unterminatedString)
  | .escape _ _ => .error (s.fault .unterminatedEscape)

end Scan

end Lisp.Source
