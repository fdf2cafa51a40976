import Lisp.Proofs.Eval.Faults
import Lisp.Proofs.Program.Forms
import Lisp.Proofs.Source.Incomplete

/-!
# Where a program stops

A text is evaluated while it is read, so a form is evaluated whether or not the text after it can be
read. A program stops at its first form that fails, whose fault then tells the place of this form and
the name of the text, or else where the text cannot be read any further, or else at its end.
-/

namespace Lisp.Program

open Source

variable {ev : Evaluator} {name : Option String} {last v : Value} {s t : State} {e : Fault}
  {fs : List Form} {text : String}

/-- The first form that fails is the only one that does, and nothing after it is evaluated. -/
theorem runForms_eq_fault_iff :
    runForms ev name last fs s = .fault e t ↔
      ∃ before f after v u e', fs = before ++ f :: after ∧
        runData ev last (before.map Form.toValue) s = .value v u ∧
        ev .empty f.toValue u = .fault e' t ∧ (e'.locate f.pos).inFile name = e := by
  induction fs generalizing last s with
  | nil =>
    constructor
    · intro h
      cases h
    · rintro ⟨before, f, after, -, -, -, hsplit, -⟩
      simp at hsplit
  | cons g fs ih =>
    rw [runForms, Eval.bind_eq_fault_iff, Eval.mapFault_eq_fault_iff]
    constructor
    · rintro (⟨e', hg, he⟩ | ⟨w, u, hg, hrest⟩)
      · exact ⟨[], g, fs, last, s, e', rfl, rfl, hg, he⟩
      · obtain ⟨before, f, after, v, u', e', hsplit, hbefore, hf, he⟩ := ih.1 hrest
        refine ⟨g :: before, f, after, v, u', e', by rw [hsplit]; rfl, ?_, hf, he⟩
        exact Eval.bind_eq_value_iff.2 ⟨w, u, Eval.mapFault_eq_value_iff.1 hg, hbefore⟩
    · rintro ⟨before, f, after, v, u, e', hsplit, hbefore, hf, he⟩
      -- either the first form is the one that fails, or it stands among those before
      cases before with
      | nil =>
        cases hsplit
        cases hbefore
        exact Or.inl ⟨e', hf, he⟩
      | cons g' before =>
        cases hsplit
        obtain ⟨w, u', hg, hrest⟩ := Eval.bind_eq_value_iff.1 hbefore
        refine Or.inr ⟨w, u', Eval.mapFault_eq_value_iff.2 hg, ?_⟩
        exact ih.2 ⟨before, f, after, v, u, e', rfl, hrest, hf, he⟩

/-- The fault of a form that fails has the place of the form and the name of the text, and it is
none of reading. -/
theorem placed_of_eval {l : Option Nat} {fuel : Nat} {form : Value} {u : State} {e' : Fault}
    (h : eval l fuel .empty form u = .fault e' t) (p : Position) (name : Option String) :
    (e'.locate p).inFile name = { e' with pos := some p, file := name } :=
  (Eval.failsBare_eval l fuel .empty form h).inFile_locate p name

theorem readAll_eq_ok_iff_forms :
    readAll text = .ok fs ↔ (Cursor.ofString text).forms = (fs, none) := by
  rw [readAll_eq_forms]
  rcases (Cursor.ofString text).forms with ⟨gs, _ | e⟩ <;> simp

theorem readAll_eq_error_iff_forms :
    readAll text = .error e ↔ (Cursor.ofString text).forms.2 = some e := by
  rw [readAll_eq_forms]
  rcases (Cursor.ofString text).forms with ⟨gs, _ | e⟩ <;> simp

/-- A fault of reading has a place and gets the name of the text. -/
theorem inFile_of_forms (h : (Cursor.ofString text).forms.2 = some e) (name : Option String) :
    e.inFile name = { e with file := name } := by
  obtain ⟨r, p, rfl⟩ := fault_of_readAll (readAll_eq_error_iff_forms.2 h)
  rfl

theorem run_eq_bind (ev : Evaluator) (name : Option String) (text : String) :
    run ev name text = runForms ev name .nil (Cursor.ofString text).forms.1 >>= fun v =>
      atEnd name v (Cursor.ofString text).forms.2 :=
  runFrom_eq_runForms ev name .nil (.ofString text)

theorem run_eq_value_iff_forms :
    run ev name text s = .value v t ↔
      (Cursor.ofString text).forms.2 = none ∧
        runData ev .nil ((Cursor.ofString text).forms.1.map Form.toValue) s = .value v t := by
  rw [run_eq_bind, Eval.bind_eq_value_iff]
  cases (Cursor.ofString text).forms.2 with
  | none =>
    constructor
    · rintro ⟨_, _, hforms, ⟨⟩⟩
      exact ⟨rfl, runForms_eq_value_iff.1 hforms⟩
    · rintro ⟨-, hdata⟩
      exact ⟨v, t, runForms_eq_value_iff.2 hdata, rfl⟩
  | some e =>
    constructor
    · rintro ⟨_, _, -, ⟨⟩⟩
    · rintro ⟨⟨⟩, -⟩

/-- A program fails where one of its forms does, or at the end of what can be read. -/
theorem run_eq_fault_iff_forms :
    run ev name text s = .fault e t ↔
      runForms ev name .nil (Cursor.ofString text).forms.1 s = .fault e t ∨
      ∃ v e', (Cursor.ofString text).forms.2 = some e' ∧
        runData ev .nil ((Cursor.ofString text).forms.1.map Form.toValue) s = .value v t ∧
        e'.inFile name = e := by
  rw [run_eq_bind, Eval.bind_eq_fault_iff]
  refine or_congr Iff.rfl ?_
  cases (Cursor.ofString text).forms.2 with
  | none =>
    constructor
    · rintro ⟨_, _, -, ⟨⟩⟩
    · rintro ⟨_, _, ⟨⟩, -⟩
  | some e' =>
    constructor
    · rintro ⟨v, _, hforms, ⟨⟩⟩
      exact ⟨v, e', rfl, runForms_eq_value_iff.1 hforms, rfl⟩
    · rintro ⟨v, _, ⟨⟩, hdata, rfl⟩
      exact ⟨v, t, runForms_eq_value_iff.2 hdata, rfl⟩

/-- If a text can be read, its program fails only where one of its forms does. -/
theorem cause_of_run {l : Option Nat} {fuel : Nat} (hread : readAll text = .ok fs)
    (h : run (eval l fuel) name text s = .fault e t) : e.cause.OfEvaluation := by
  rw [run_of_readAll hread, runForms_eq_fault_iff] at h
  obtain ⟨-, f, -, -, u, e', -, -, hf, rfl⟩ := h
  exact (Eval.failsBare_eval l fuel .empty f.toValue hf).cause

/-- A program evaluates the forms that can be read one by one, in their order and in the outermost
environment, until one of them fails. Its fault is then that of this form, with the place of the form
and the name of the text, and its state the one that this form has left. If none fails, the program
ends with the fault that ended reading, if there was one, or else with the value of the last form.
Reading the text as a whole gives these forms, or fails with the same fault. -/
theorem run_iff_forms (l : Option Nat) (fuel : Nat) (name : Option String) (text : String)
    (s : State) :
    let ev := eval l fuel
    let read := (Cursor.ofString text).forms
    (∀ v t, run ev name text s = .value v t ↔
      read.2 = none ∧ runData ev .nil (read.1.map Form.toValue) s = .value v t) ∧
    (∀ e t, run ev name text s = .fault e t ↔
      (∃ before f after v u e', read.1 = before ++ f :: after ∧
        runData ev .nil (before.map Form.toValue) s = .value v u ∧
        ev .empty f.toValue u = .fault e' t ∧ e = { e' with pos := some f.pos, file := name }) ∨
      ∃ v e', read.2 = some e' ∧ runData ev .nil (read.1.map Form.toValue) s = .value v t ∧
        e = { e' with file := name }) ∧
    (∀ fs, readAll text = .ok fs ↔ read = (fs, none)) ∧
    ∀ e, readAll text = .error e ↔ read.2 = some e := by
  intro ev read
  refine ⟨fun v t => run_eq_value_iff_forms, fun e t => run_eq_fault_iff_forms.trans ?_,
    fun fs => readAll_eq_ok_iff_forms, fun e => readAll_eq_error_iff_forms⟩
  apply or_congr
  · rw [runForms_eq_fault_iff]
    constructor
    · rintro ⟨before, f, after, v, u, e', hsplit, hbefore, hf, rfl⟩
      exact ⟨before, f, after, v, u, e', hsplit, hbefore, hf, placed_of_eval hf f.pos name⟩
    · rintro ⟨before, f, after, v, u, e', hsplit, hbefore, hf, rfl⟩
      exact ⟨before, f, after, v, u, e', hsplit, hbefore, hf, placed_of_eval hf f.pos name⟩
  · constructor
    · rintro ⟨v, e', hread, hdata, rfl⟩
      exact ⟨v, e', hread, hdata, inFile_of_forms hread name⟩
    · rintro ⟨v, e', hread, hdata, rfl⟩
      exact ⟨v, e', hread, hdata, inFile_of_forms hread name⟩

end Lisp.Program
