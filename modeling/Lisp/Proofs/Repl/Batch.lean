import Mathlib.Data.List.TakeWhile
import Lisp.Proofs.Program.Forms
import Lisp.Proofs.Repl.Answers
import Lisp.Proofs.Source.Lines

/-!
# A dialogue is a program

The lines of a dialogue, joined, are a program that does what the dialogue did: wherever the lines
end, every form is evaluated once and in the same order. Since nothing is evaluated before the lines
that wait can be read, the whole text is cut only where a text may end.
-/

namespace Lisp

theorem Text.isBlank_of_trimChars_eq_nil {cs : List Char} (h : trimChars cs = []) :
    ∀ c ∈ cs, isBlank c = true := by
  have hall : ∀ c ∈ cs.dropWhile isBlank, isBlank c = true := by
    simpa [trimChars, List.dropWhile_eq_nil_iff] using h
  rw [← List.dropWhile_eq_nil_iff]
  cases hdrop : cs.dropWhile isBlank with
  | nil => rfl
  | cons c rest =>
    have hhead := List.head?_dropWhile_not isBlank cs
    have hc : isBlank c = true := hall c (by simp [hdrop])
    simp [hdrop, hc] at hhead

theorem Source.readAll_of_trimChars_eq_nil {line : String}
    (h : Text.trimChars line.toList = []) : readAll line = .ok [] := by
  refine readChars_of_isSeparator fun c hc => ?_
  rw [isSeparator, Text.isBlank_of_trimChars_eq_nil h c hc]
  rfl

/-- The data of a line and of the lines after it are those of the joined lines. -/
theorem Source.readAll_intercalate_cons {line : String} {lines : List String}
    {fs gs : List Form} (hline : readAll line = .ok fs)
    (hlines : readAll ("\n".intercalate lines) = .ok gs) :
    ∃ hs, readAll ("\n".intercalate (line :: lines)) = .ok hs ∧
      hs.map Form.toValue = fs.map Form.toValue ++ gs.map Form.toValue := by
  cases lines with
  | nil =>
    have hgs : gs = [] := by
      have hempty : readAll "" = .ok [] := rfl
      rw [String.intercalate_nil, hempty] at hlines
      cases hlines
      rfl
    refine ⟨fs, ?_, ?_⟩
    · rw [String.intercalate_singleton, hline]
    · simp [hgs]
  | cons next lines =>
    have htext : ("\n".intercalate (line :: next :: lines)).toList =
        line.toList ++ '\n' :: ("\n".intercalate (next :: lines)).toList := by
      simp [String.intercalate_cons_cons]
    refine ⟨fs ++ gs.map (Form.displace (.below line.toList)), ?_, ?_⟩
    · rw [readAll] at hlines
      rw [readAll, htext, readChars_append_newline hline, hlines]
    · simp [Function.comp_def, Form.toValue_displace]

/-- What came back for a line: the text that the line ended, and the answer. -/
structure Turn where
  text : String
  reply : Reply

/-- The value of the last form in a text that was evaluated. A text may also hold comments only. -/
def Turn.value? (t : Turn) : Option Value :=
  match t.reply, Source.readAll t.text with
  | .value v, .ok (_ :: _) => some v
  | _, _ => none

/-- An answer by which nothing went wrong and no command was obeyed. -/
def Reply.isQuiet : Reply → Bool
  | .empty | .incomplete | .value _ => true
  | _ => false

namespace Repl

/-- The turns of a dialogue, line after line, and the dialogue after them. -/
def converse (fuel : Nat) : Repl → List String → List Turn × Repl
  | r, [] => ([], r)
  | r, line :: lines =>
    let answer := r.handle fuel line
    let later := converse fuel answer.2 lines
    (⟨r.buffer line, answer.1⟩ :: later.1, later.2)

/-- The text that is still to be evaluated: the lines that wait and the lines to come. -/
def remaining (r : Repl) (lines : List String) : String :=
  "\n".intercalate (if r.isContinuing then r.pending :: lines else lines)

theorem remaining_cons (r : Repl) (line : String) (lines : List String) :
    r.remaining (line :: lines) = "\n".intercalate (r.buffer line :: lines) := by
  by_cases hpending : r.isContinuing
  · cases lines with
    | nil => simp [remaining, buffer, hpending, String.intercalate_cons_cons]
    | cons next lines =>
      simp [remaining, buffer, hpending, String.intercalate_cons_cons, String.append_assoc]
  · simp [remaining, buffer, hpending]

theorem isQuiet_obey (registry : Registry) (c : Command) :
    (obey registry c).isQuiet = false := by
  cases c <;> rfl

/-- Lines can only wait for more if there are some. -/
theorem isContinuing_of_readAll_error {r : Repl} {text : String} {e : Fault}
    (h : Source.readAll text = .error e) :
    Repl.isContinuing { r with pending := text } = true := by
  by_cases htext : text = ""
  · rw [htext] at h
    cases h
  · simp [isContinuing, htext]

/-- A text that was evaluated counts by the value of its last form. -/
theorem runData_of_value {ev : Evaluator} {text : String} {fs : List Form} {v : Value}
    {s t : State} (hread : Source.readAll text = .ok fs)
    (hrun : Program.runData ev .nil (fs.map Form.toValue) s = .value v t) (last : Value) :
    Program.runData ev last (fs.map Form.toValue) s =
      .value ((Turn.value? ⟨text, .value v⟩).getD last) t := by
  cases fs with
  | nil =>
    cases hrun
    simp only [Turn.value?, hread]
    rfl
  | cons f fs =>
    rw [Program.runData_of_ne_nil (by simp) last .nil, hrun]
    simp only [Turn.value?, hread]
    rfl

/-- From any point of a dialogue on, the text that is still to be evaluated does what the rest of
the dialogue does. -/
theorem runData_remaining {fuel : Nat} {r : Repl} {lines : List String} (last : Value)
    (hquiet : ∀ t ∈ (converse fuel r lines).1, t.reply.isQuiet = true)
    (hend : (converse fuel r lines).2.isContinuing = false) :
    ∃ fs, Source.readAll (r.remaining lines) = .ok fs ∧
      Program.runData (r.settings.evaluator fuel) last (fs.map Form.toValue) r.state =
        .value (((converse fuel r lines).1.filterMap Turn.value?).getLastD last)
          (converse fuel r lines).2.state := by
  induction lines generalizing r last with
  | nil =>
    have hempty : r.remaining [] = "" := by
      have hpending : r.isContinuing = false := hend
      simp [remaining, hpending]
    rw [hempty]
    exact ⟨[], rfl, rfl⟩
  | cons line lines ih =>
    rcases hanswer : r.handle fuel line with ⟨reply, r'⟩
    have hconverse : converse fuel r (line :: lines) =
        (⟨r.buffer line, reply⟩ :: (converse fuel r' lines).1, (converse fuel r' lines).2) := by
      simp only [converse, hanswer]
    rw [hconverse] at hquiet hend ⊢
    have hreply : reply.isQuiet = true := hquiet ⟨r.buffer line, reply⟩ (by simp)
    have hlater := fun last => ih (r := r') last (fun t ht => hquiet t (by simp [ht])) hend
    rw [remaining_cons]
    cases answers_of_handle hanswer with
    | blank hpending hline =>
      obtain ⟨gs, hgs, hrest⟩ := hlater last
      have hbuffer : r.buffer line = line := by simp [buffer, hpending]
      have hremaining : r.remaining lines = "\n".intercalate lines := by
        simp [remaining, hpending]
      rw [hremaining] at hgs
      obtain ⟨hs, hread, hdata⟩ := Source.readAll_intercalate_cons
        (Source.readAll_of_trimChars_eq_nil hline) hgs
      refine ⟨hs, by rwa [hbuffer], ?_⟩
      rw [hdata]
      exact hrest
    | command c hpending hline =>
      rw [isQuiet_obey] at hreply
      cases hreply
    | waits e hread he =>
      obtain ⟨gs, hgs, hrest⟩ := hlater last
      have hremaining : Repl.remaining { r with pending := r.buffer line } lines =
          "\n".intercalate (r.buffer line :: lines) := by
        rw [remaining, isContinuing_of_readAll_error hread]
        rfl
      rw [hremaining] at hgs
      exact ⟨gs, hgs, hrest⟩
    | value fs v s hread hrun =>
      obtain ⟨gs, hgs, hrest⟩ := hlater ((Turn.value? ⟨r.buffer line, .value v⟩).getD last)
      obtain ⟨hs, hall, hdata⟩ := Source.readAll_intercalate_cons hread hgs
      refine ⟨hs, hall, ?_⟩
      have hfirst := runData_of_value hread ((Program.run_eq_value_iff hread).mp hrun) last
      rw [hdata, Program.runData_append, Eval.bind_of_value hfirst]
      refine hrest.trans ?_
      cases hvalue : Turn.value? ⟨r.buffer line, .value v⟩ <;>
        simp only [List.filterMap_cons, hvalue, Option.getD, List.getLastD_cons]
    | unreadable e hread he => cases hreply
    | fault fs e s hread hrun => cases hreply
    | outOfFuel fs hread hrun => cases hreply

/-- If a dialogue goes well and nothing waits at its end, its lines are a program that ends in the
same state, and the value of the program is the last one that a form had. -/
theorem runText_of_converse (o : Settings) (fuel : Nat) (lines : List String)
    (hquiet : ∀ t ∈ (converse fuel (.ofSettings o) lines).1, t.reply.isQuiet = true)
    (hend : (converse fuel (.ofSettings o) lines).2.isContinuing = false) :
    o.runText fuel ("\n".intercalate lines) o.freshState =
      .value (((converse fuel (.ofSettings o) lines).1.filterMap Turn.value?).getLastD .nil)
        (converse fuel (.ofSettings o) lines).2.state := by
  obtain ⟨fs, hread, hrun⟩ := runData_remaining .nil hquiet hend
  exact (Program.run_eq_value_iff hread).mpr hrun

/-- Lines that end in a list, in a string and in comments. -/
theorem runText_of_converse_split :
    ∃ v s, Settings.runText {} 9
        ("\n".intercalate ["(def a", "", "\"x", "\") ; b", " ", "; c", "a", " ; d"])
        (Settings.freshState {}) = .value v s ∧ v.display = "\"x\\n\"" :=
  ⟨_, _, runText_of_converse {} 9 ["(def a", "", "\"x", "\") ; b", " ", "; c", "a", " ; d"]
    (by decide +kernel) (by decide +kernel), by decide +kernel⟩

end Repl

end Lisp
