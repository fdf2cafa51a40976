import Lisp.Program
import Lisp.Proofs.Source.Sequence

/-!
# A program is its forms

Evaluating a text while it is read is evaluating its forms one after another, and then meeting the
fault that ended reading, if one did. Without faults only the data of the forms matter, not their
places.
-/

namespace Lisp.Program

open Source

variable {ev : Evaluator} {name : Option String} {last v : Value} {s t : State}

/-- Evaluates forms one after another. Without any, the value is the last one before. -/
def runForms (ev : Evaluator) (name : Option String) (last : Value) : List Form → Eval Value
  | [] => pure last
  | f :: fs => do
    let v ← (ev .empty f.toValue).mapFault fun e => (e.locate f.pos).inFile name
    runForms ev name v fs

/-- The end of a text: the last value, or the fault that ended reading. -/
def atEnd (name : Option String) (v : Value) : Option Fault → Eval Value
  | none => pure v
  | some e => Eval.ofExcept (.error (e.inFile name))

/-- Reading and evaluating in turn is reading first and evaluating then. -/
theorem runFrom_eq_runForms (ev : Evaluator) (name : Option String) (last : Value)
    (cur : Cursor) :
    runFrom ev name last cur =
      runForms ev name last cur.forms.1 >>= fun v => atEnd name v cur.forms.2 := by
  fun_induction Cursor.forms cur generalizing last with
  | case1 cur hnext =>
    rw [runFrom]
    split <;> simp_all [runForms, atEnd]
  | case2 cur e left hnext =>
    rw [runFrom]
    split <;> simp_all [runForms, atEnd]
  | case3 cur f left hnext ih =>
    rw [runFrom]
    split
    · simp_all
    · simp_all
    · rename_i g rest hform
      rw [hnext] at hform
      cases hform
      simp only [runForms, bind_assoc, ih]

theorem run_of_readAll {text : String} {fs : List Form} (h : readAll text = .ok fs)
    (ev : Evaluator) (name : Option String) : run ev name text = runForms ev name .nil fs := by
  rw [run, runFrom_eq_runForms]
  rw [readAll_eq_forms] at h
  split at h
  · rename_i gs hforms
    cases h
    rw [hforms]
    exact bind_pure _
  · cases h

def runData (ev : Evaluator) (last : Value) (data : List Value) : Eval Value :=
  data.foldlM (fun _ x => ev .empty x) last

theorem runData_append (last : Value) (xs ys : List Value) :
    runData ev last (xs ++ ys) = runData ev last xs >>= fun v => runData ev v ys :=
  List.foldlM_append

/-- The value before does not matter to what a datum gives. -/
theorem runData_of_ne_nil {xs : List Value} (h : xs ≠ []) (last last' : Value) :
    runData ev last xs = runData ev last' xs := by
  cases xs with
  | nil => exact absurd rfl h
  | cons x xs => rfl

/-- Where nothing fails, the places of the forms and the name of the text do not matter. -/
theorem runForms_eq_value_iff {fs : List Form} :
    runForms ev name last fs s = .value v t ↔
      runData ev last (fs.map Form.toValue) s = .value v t := by
  induction fs generalizing last s with
  | nil => rfl
  | cons f fs ih =>
    have hdata : runData ev last ((f :: fs).map Form.toValue) =
        ev .empty f.toValue >>= fun v => runData ev v (fs.map Form.toValue) := rfl
    rw [runForms, hdata, Eval.bind_eq_value_iff, Eval.bind_eq_value_iff]
    simp [ih]

theorem run_eq_value_iff {text : String} {fs : List Form} (h : readAll text = .ok fs) :
    run ev name text s = .value v t ↔
      runData ev .nil (fs.map Form.toValue) s = .value v t := by
  rw [run_of_readAll h, runForms_eq_value_iff]

end Lisp.Program
