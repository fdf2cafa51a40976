import Lisp.Proofs.Program.Order
import Lisp.Proofs.Repl.Batch

/-!
# What waits for more lines

Whatever lines a dialogue gets, and whenever those that wait are forgotten, the text that waits is
empty or the beginning of one that can be read. A line of which nothing could be read leaves the
state as it was: no text is evaluated before all of it can be read, and no evaluation fails like
reading does.
-/

namespace Lisp

/-- A text that cannot be read, but may be the beginning of one that can. -/
def Source.IsUnfinished (text : String) : Prop :=
  ∃ e, readAll text = .error e ∧ e.incomplete = true

/-- An answer by which nothing was evaluated: the line was blank, more lines are needed, or the lines
cannot be read. -/
def Reply.IsUnread : Reply → Prop
  | .empty | .incomplete => True
  | .error e => ∃ incomplete, e.kind = .parse incomplete
  | _ => False

namespace Repl

/-- What a dialogue is asked for: the answer to a line, or to forget the lines that wait. -/
inductive Call where
  | line (text : String)
  | discard

def attend (fuel : Nat) (r : Repl) : Call → Repl
  | .line text => (r.handle fuel text).2
  | .discard => r.discard

/-- Nothing waits, or what waits is unfinished. -/
def WaitsUnfinished (r : Repl) : Prop := r.pending = "" ∨ Source.IsUnfinished r.pending

variable {fuel : Nat} {r r' : Repl} {line : String} {reply : Reply}

/-- Lines wait if and only if what waits is unfinished. -/
theorem WaitsUnfinished.isContinuing_iff (h : r.WaitsUnfinished) :
    r.isContinuing = true ↔ Source.IsUnfinished r.pending := by
  constructor
  · intro hwaits
    rcases h with hempty | hunfinished
    · simp [isContinuing, hempty] at hwaits
    · exact hunfinished
  · rintro ⟨e, hread, -⟩
    exact isContinuing_of_readAll_error (r := r) hread

theorem waitsUnfinished_of_answers (h : Answers fuel r line reply r') (hr : r.WaitsUnfinished) :
    r'.WaitsUnfinished := by
  cases h with
  | blank hpending hline => exact hr
  | command c hpending hline => exact hr
  | waits e hread he => exact Or.inr ⟨e, hread, he⟩
  | unreadable e hread he => exact Or.inl rfl
  | value fs v s hread hrun => exact Or.inl rfl
  | fault fs e s hread hrun => exact Or.inl rfl
  | outOfFuel fs hread hrun => exact Or.inl rfl

theorem waitsUnfinished_attend (hr : r.WaitsUnfinished) (call : Call) :
    (r.attend fuel call).WaitsUnfinished := by
  cases call with
  | line text => exact waitsUnfinished_of_answers (answers_of_handle rfl) hr
  | discard => exact Or.inl rfl

theorem waitsUnfinished_foldl (hr : r.WaitsUnfinished) (calls : List Call) :
    (calls.foldl (attend fuel) r).WaitsUnfinished := by
  induction calls generalizing r with
  | nil => exact hr
  | cons call calls ih => exact ih (waitsUnfinished_attend hr call)

/-- Whoever is told that a line was blank, that more lines are needed or that reading failed finds
the state as it was. -/
theorem state_of_answers (h : Answers fuel r line reply r') (hreply : reply.IsUnread) :
    r'.state = r.state := by
  cases h with
  | value fs v s hread hrun => exact hreply.elim
  | fault fs e s hread hrun =>
    -- the lines could be read, so what failed is one of their forms
    have hcause : e.cause.OfEvaluation := Program.cause_of_run hread hrun
    obtain ⟨incomplete, hkind⟩ := hreply
    exact absurd hkind (hcause incomplete)
  | blank | command | waits | unreadable | outOfFuel => rfl

/-- After any calls of a new dialogue, nothing waits or an unfinished text does, and the dialogue
says that lines wait in the second case only. The next line, if it is answered as blank, unfinished
or unreadable, leaves the registry, what was printed, the count of generated names and everything
else in the state unchanged. -/
theorem pending_of_calls (o : Settings) (s : State) (fuel : Nat) (calls : List Call) :
    let r := calls.foldl (attend fuel) { settings := o, state := s }
    (r.pending = "" ∨ Source.IsUnfinished r.pending) ∧
    (r.isContinuing = true ↔ Source.IsUnfinished r.pending) ∧
    ∀ line, (r.handle fuel line).1.IsUnread → (r.handle fuel line).2.state = r.state := by
  intro r
  have hr : r.WaitsUnfinished := waitsUnfinished_foldl (Or.inl rfl) calls
  exact ⟨hr, hr.isContinuing_iff, fun line hreply => state_of_answers (answers_of_handle rfl) hreply⟩

/-- A definition waits behind a list, is forgotten, and then is refused for a bracket too many. -/
theorem pending_of_calls_bracket :
    let r := [Call.line "(def a 1)", .line "(def a 2) (list", .discard].foldl (attend 9)
      { settings := {}, state := Settings.freshState {} }
    (r.handle 9 "(def a 3))").1.IsUnread ∧ (r.handle 9 "(def a 3))").2.state = r.state := by
  have hunread : Reply.IsUnread (([Call.line "(def a 1)", .line "(def a 2) (list", .discard].foldl
      (attend 9) { settings := {}, state := Settings.freshState {} }).handle 9 "(def a 3))").1 :=
    ⟨false, rfl⟩
  exact ⟨hunread, (pending_of_calls {} (Settings.freshState {}) 9 _).2.2 _ hunread⟩

end Repl

end Lisp
