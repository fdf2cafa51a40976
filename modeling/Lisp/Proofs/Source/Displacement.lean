import Lisp.Source
import Lisp.Value

/-!
# Text at another place

What a scan does depends on the characters that it reads and not on where they stand or on the forms
that were complete before. So a scan that starts elsewhere, after other forms, does the same, and
only the places in its results differ.
-/

namespace Lisp

structure Displacement where
  move : Position → Position
  move_next : ∀ p c, move (p.next c) = (move p).next c

namespace Displacement

def still : Displacement := ⟨id, fun _ _ => rfl⟩

@[simp] theorem move_still (p : Position) : still.move p = p := rfl

/-- Lines further down, from the beginning of a line on. -/
def down (lines chars : Nat) : Displacement where
  move p := ⟨p.line + lines, p.col, p.index + chars⟩
  move_next p c := by
    unfold Position.next
    split <;> simp <;> omega

end Displacement

variable {d : Displacement}

mutual

def Form.displace (d : Displacement) : Form → Form
  | .atom p a => .atom (d.move p) a
  | .seq p b items => .seq (d.move p) b (Form.displaceAll d items)

def Form.displaceAll (d : Displacement) : List Form → List Form
  | [] => []
  | f :: fs => f.displace d :: Form.displaceAll d fs

end

@[simp] theorem Form.displaceAll_eq_map (fs : List Form) :
    Form.displaceAll d fs = fs.map (Form.displace d) := by
  induction fs with
  | nil => simp [Form.displaceAll]
  | cons f fs ih => simp [Form.displaceAll, ih]

mutual

/-- A datum does not depend on where its form stands. -/
theorem Form.toValue_displace (f : Form) : (f.displace d).toValue = f.toValue := by
  cases f with
  | atom p a => simp [Form.displace, Form.toValue]
  | seq p b items => rw [Form.displace, Form.toValue, Form.toValue, Form.toValues_displaceAll]

theorem Form.toValues_displaceAll (fs : List Form) :
    Form.toValues (Form.displaceAll d fs) = Form.toValues fs := by
  cases fs with
  | nil => simp [Form.displaceAll]
  | cons f fs =>
    rw [Form.displaceAll, Form.toValues, Form.toValues, Form.toValue_displace,
      Form.toValues_displaceAll]

end

mutual

theorem Form.displace_still (f : Form) : f.displace .still = f := by
  cases f with
  | atom p a => rfl
  | seq p b items =>
    rw [Form.displace, Form.displaceAll_still]
    rfl

theorem Form.displaceAll_still (fs : List Form) : Form.displaceAll .still fs = fs := by
  cases fs with
  | nil => simp [Form.displaceAll]
  | cons f fs => rw [Form.displaceAll, Form.displace_still, Form.displaceAll_still]

end

theorem Form.map_displace_still (fs : List Form) : fs.map (Form.displace .still) = fs := by
  rw [← Form.displaceAll_eq_map, Form.displaceAll_still]

/-- A reading error as it is met at another place. Some of them name a place. -/
def ReadError.displace (d : Displacement) : ReadError → ReadError
  | .mismatchedCloser closer opener opened => .mismatchedCloser closer opener (d.move opened)
  | e => e

@[simp] theorem ReadError.displace_still (e : ReadError) : e.displace .still = e := by
  cases e <;> rfl

def Fault.displace (d : Displacement) (e : Fault) : Fault :=
  { e with
    cause := match e.cause with
      | .read r => .read (r.displace d)
      | c => c
    pos := e.pos.map d.move }

@[simp] theorem Fault.displace_still (e : Fault) : e.displace .still = e := by
  obtain ⟨cause, pos, file, passed⟩ := e
  have hmove : Displacement.still.move = id := rfl
  cases cause <;> simp [Fault.displace, hmove]

namespace Source

def Layer.displace (d : Displacement) : Layer → Layer
  | .opened b p items => .opened b (d.move p) (items.map (Form.displace d))
  | .marked m p => .marked m (d.move p)

def Mode.displace (d : Displacement) : Mode → Mode
  | .between => .between
  | .comment => .comment
  | .tilde p => .tilde (d.move p)
  | .word p chars => .word (d.move p) chars
  | .string p chars => .string (d.move p) chars
  | .escape p chars => .escape (d.move p) chars

theorem Layer.displace_still (l : Layer) : l.displace .still = l := by
  cases l with
  | opened b p items => simp [Layer.displace, Form.map_displace_still]
  | marked m p => rfl

theorem Mode.displace_still (m : Mode) : m.displace .still = m := by
  cases m <;> rfl

namespace Scan

def displace (d : Displacement) (before : List Form) (s : Scan) : Scan :=
  ⟨d.move s.pos, s.done.map (Form.displace d) ++ before, s.layers.map (Layer.displace d),
    s.mode.displace d⟩

def displaceResult (d : Displacement) (before : List Form) :
    Except Fault Scan → Except Fault Scan
  | .ok s => .ok (s.displace d before)
  | .error e => .error (e.displace d)

theorem displace_still (before : List Form) (s : Scan) :
    s.displace .still before = { s with done := s.done ++ before } := by
  have hlayers : s.layers.map (Layer.displace .still) = s.layers := by
    rw [List.map_congr_left fun l _ => Layer.displace_still l, List.map_id']
  rw [displace, Form.map_displace_still, hlayers, Mode.displace_still]
  rfl

variable {before : List Form}

theorem displaceResult_bind {x : Except Fault Scan} {f g : Scan → Except Fault Scan}
    (h : ∀ s, g (s.displace d before) = displaceResult d before (f s)) :
    displaceResult d before x >>= g = displaceResult d before (x >>= f) := by
  cases x with
  | ok s => exact h s
  | error e => rfl

theorem place_displace (done : List Form) (layers : List Layer) (f : Form) :
    place (done.map (Form.displace d) ++ before) (layers.map (Layer.displace d)) (f.displace d) =
      ((place done layers f).1.map (Form.displace d) ++ before,
        (place done layers f).2.map (Layer.displace d)) := by
  induction layers generalizing f with
  | nil => simp [place]
  | cons l layers ih =>
    cases l with
    | opened b p items => simp [place, Layer.displace]
    | marked m p =>
      rw [List.map_cons, Layer.displace, place, place, ← ih]
      simp [Form.displace]

theorem deliver_displace (s : Scan) (f : Form) :
    (s.displace d before).deliver (f.displace d) = (s.deliver f).displace d before := by
  simp only [deliver, displace, place_displace]
  rfl

theorem endWord_displace (s : Scan) (p : Position) (chars : List Char) :
    (s.displace d before).endWord (d.move p) chars =
      displaceResult d before (s.endWord p chars) := by
  unfold endWord
  cases wordAtom? chars.reverse with
  | none => rfl
  | some a => exact congrArg Except.ok (deliver_displace s (.atom p a))

theorem settle_displace (s : Scan) (c : Char) :
    (s.displace d before).settle c = displaceResult d before (s.settle c) := by
  obtain ⟨pos, done, layers, mode⟩ := s
  cases mode with
  | word p chars =>
    simp only [settle, displace, Mode.displace]
    split
    · exact endWord_displace ⟨pos, done, layers, .word p chars⟩ p chars
    · rfl
  | tilde p =>
    simp only [settle, displace, Mode.displace]
    split <;> rfl
  | _ => rfl

theorem close_displace (s : Scan) (b : Bracket) :
    (s.displace d before).close b = displaceResult d before (s.close b) := by
  obtain ⟨pos, done, layers, mode⟩ := s
  cases layers with
  | nil => rfl
  | cons l layers =>
    cases l with
    | marked m p => rfl
    | opened opener p items =>
      simp only [close, displace, List.map_cons, Layer.displace]
      split
      · have h : (displace d before ⟨pos, done, layers, mode⟩).deliver
            (Form.displace d (.seq p b items.reverse)) = _ := deliver_displace _ _
        rw [Form.displace, Form.displaceAll_eq_map, List.map_reverse] at h
        exact congrArg Except.ok h
      · rfl

theorem begin_displace (s : Scan) (c : Char) :
    (s.displace d before).begin c = displaceResult d before (s.begin c) := by
  unfold begin
  split
  · rfl
  · split
    · rfl
    · rfl
    · rfl
    · rfl
    · rfl
    · rfl
    · rfl
    · exact close_displace s .list
    · exact close_displace s .vector
    · rfl

theorem absorb_displace (s : Scan) (c : Char) :
    (s.displace d before).absorb c = displaceResult d before (s.absorb c) := by
  obtain ⟨pos, done, layers, mode⟩ := s
  cases mode with
  | between => exact begin_displace ⟨pos, done, layers, .between⟩ c
  | comment =>
    simp only [absorb, displace, Mode.displace]
    split <;> rfl
  | string p chars =>
    simp only [absorb, displace, Mode.displace]
    split
    · exact congrArg Except.ok (deliver_displace ⟨pos, done, layers, .string p chars⟩
        (.atom p (.str (String.ofList chars.reverse))))
    · split <;> rfl
  | _ => rfl

theorem take_displace (s : Scan) (c : Char) :
    (s.displace d before).take c = displaceResult d before (s.take c) := by
  rw [take, take, absorb_displace]
  cases s.absorb c with
  | ok t => simp [displaceResult, displace, Except.map, d.move_next]
  | error e => rfl

theorem step_displace (s : Scan) (c : Char) :
    (s.displace d before).step c = displaceResult d before (s.step c) := by
  rw [step, step, settle_displace]
  exact displaceResult_bind fun t => take_displace t c

theorem feed_displace (s : Scan) (cs : List Char) :
    (s.displace d before).feed cs = displaceResult d before (s.feed cs) := by
  induction cs generalizing s with
  | nil => rfl
  | cons c cs ih =>
    rw [feed_cons, feed_cons, step_displace]
    exact displaceResult_bind ih

theorem closed_displace (s : Scan) :
    (s.displace d before).closed = displaceResult d before s.closed := by
  obtain ⟨pos, done, layers, mode⟩ := s
  cases layers with
  | nil => rfl
  | cons l layers => cases l <;> rfl

theorem finish_displace (s : Scan) :
    (s.displace d before).finish = displaceResult d before s.finish := by
  obtain ⟨pos, done, layers, mode⟩ := s
  cases mode with
  | between => exact closed_displace ⟨pos, done, layers, .between⟩
  | comment => exact closed_displace ⟨pos, done, layers, .comment⟩
  | word p chars =>
    change (endWord (displace d before ⟨pos, done, layers, .word p chars⟩) (d.move p) chars).bind
      closed = _
    rw [endWord_displace]
    exact displaceResult_bind closed_displace
  | _ => rfl

/-- The complete forms, the newest first, when a scan has read a text to its end. -/
def completed (s : Scan) (cs : List Char) : Except Fault (List Form) :=
  (s.feed cs >>= finish).map (·.done)

theorem completed_nil (s : Scan) : s.completed [] = s.finish.map (·.done) := rfl

theorem completed_cons (s : Scan) (c : Char) (cs : List Char) :
    s.completed (c :: cs) = s.step c >>= fun t => t.completed cs := by
  rw [completed, feed_cons]
  cases s.step c <;> rfl

/-- A scan that ended something goes on as one that never read it. -/
theorem completed_of_settle {s t : Scan} {c : Char} (h : s.settle c = .ok t) (cs : List Char) :
    s.completed (c :: cs) = t.take c >>= fun u => u.completed cs := by
  rw [completed_cons, step_of_settle h]

theorem completed_append (s : Scan) (cs ds : List Char) :
    s.completed (cs ++ ds) = s.feed cs >>= fun t => t.completed ds := by
  rw [completed, feed_append]
  cases s.feed cs <;> rfl

theorem completed_displace (s : Scan) (cs : List Char) :
    (s.displace d before).completed cs =
      match s.completed cs with
      | .ok fs => .ok (fs.map (Form.displace d) ++ before)
      | .error e => .error (e.displace d) := by
  rw [completed, completed, feed_displace, displaceResult_bind finish_displace]
  cases s.feed cs >>= finish <;> rfl

end Scan

theorem readChars_eq_completed (cs : List Char) :
    readChars cs = ((Scan.start .start).completed cs).map List.reverse := by
  unfold readChars Scan.completed
  cases (Scan.start .start).feed cs with
  | error e => rfl
  | ok s =>
    change (s.finish >>= fun t => pure t.done.reverse) = (s.finish.map (·.done)).map List.reverse
    cases s.finish <;> rfl

end Source

end Lisp
