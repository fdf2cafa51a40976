import Lisp.Repl

/-!
# What the loop can answer

The rules by which the loop answers a line, one for each kind of answer.
-/

namespace Lisp.Repl

/-- The text that a line ends: the lines that wait, if any, and the line itself. -/
def buffer (r : Repl) (line : String) : String :=
  if r.isContinuing then r.pending ++ "\n" ++ line else line

/-- The answer to a line and the dialogue after it. -/
inductive Answers (fuel : Nat) (r : Repl) (line : String) : Reply → Repl → Prop
  | blank (hpending : r.isContinuing = false) (hline : Text.trimChars line.toList = []) :
    Answers fuel r line .empty r
  | command (c : Command) (hpending : r.isContinuing = false)
    (hline : command? (Text.trimChars line.toList) = some c) :
    Answers fuel r line (obey r.state.registry c) r
  | waits (e : Fault) (hread : Source.readAll (r.buffer line) = .error e)
    (he : e.incomplete = true) :
    Answers fuel r line .incomplete { r with pending := r.buffer line }
  | unreadable (e : Fault) (hread : Source.readAll (r.buffer line) = .error e)
    (he : e.incomplete = false) :
    Answers fuel r line (.error e) r.discard
  | value (fs : List Form) (v : Value) (s : State)
    (hread : Source.readAll (r.buffer line) = .ok fs)
    (hrun : r.settings.runText fuel (r.buffer line) r.state = .value v s) :
    Answers fuel r line (.value v) { r with state := s, pending := "" }
  | fault (fs : List Form) (e : Fault) (s : State)
    (hread : Source.readAll (r.buffer line) = .ok fs)
    (hrun : r.settings.runText fuel (r.buffer line) r.state = .fault e s) :
    Answers fuel r line (.error e) { r with state := s, pending := "" }
  | outOfFuel (fs : List Form) (hread : Source.readAll (r.buffer line) = .ok fs)
    (hrun : r.settings.runText fuel (r.buffer line) r.state = .outOfFuel) :
    Answers fuel r line .outOfFuel r.discard

variable {fuel : Nat} {r r' : Repl} {line : String} {reply : Reply}

theorem answers_of_accept (h : r.accept fuel line = (reply, r')) :
    Answers fuel r line reply r' := by
  have hbuffer : (if r.isContinuing then r.pending ++ "\n" ++ line else line) =
      r.buffer line := rfl
  simp only [accept, hbuffer] at h
  split at h
  · rename_i e hread
    by_cases he : e.incomplete
    · cases (if_pos he).symm.trans h
      exact .waits e hread he
    · cases (if_neg he).symm.trans h
      exact .unreadable e hread (by simpa using he)
  · rename_i fs hread
    rw [evaluate] at h
    split at h
    · rename_i v s hrun
      cases h
      exact .value fs v s hread hrun
    · rename_i e s hrun
      cases h
      exact .fault fs e s hread hrun
    · rename_i hrun
      cases h
      exact .outOfFuel fs hread hrun

theorem answers_of_handle (h : r.handle fuel line = (reply, r')) :
    Answers fuel r line reply r' := by
  rw [handle] at h
  by_cases hpending : r.isContinuing
  · rw [if_pos hpending] at h
    exact answers_of_accept h
  · rw [if_neg hpending] at h
    have hpending : r.isContinuing = false := by simpa using hpending
    split at h
    · rename_i hline
      cases h
      exact .blank hpending hline
    · split at h
      · rename_i c hline
        cases h
        exact .command c hpending hline
      · exact answers_of_accept h

end Lisp.Repl
