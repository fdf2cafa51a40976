import Lisp.Proofs.Eval.Compatible

/-!
# The faults of evaluation

Evaluation knows no text. A fault that leaves it has neither a place nor a file, and its cause is
never that a text cannot be read. So whoever evaluates the forms of a text is free to say where a
fault was met, and can tell it from the faults of reading.
-/

namespace Lisp

variable {α β : Type}

/-- A fault that nobody has placed in a text, and that is not about a text. -/
structure Fault.IsBare (e : Fault) : Prop where
  cause : e.cause.OfEvaluation
  pos : e.pos = none
  file : e.file = none

namespace Fault.IsBare

variable {e : Fault}

theorem leave (h : e.IsBare) (call : Passed) : (e.leave call).IsBare := ⟨h.cause, h.pos, h.file⟩

/-- The place and the file that a bare fault is given are those that it has then. -/
theorem inFile_locate (h : e.IsBare) (p : Position) (name : Option String) :
    (e.locate p).inFile name = { e with pos := some p, file := name } := by
  rw [Fault.locate, Fault.inFile, h.pos, h.file]
  rfl

end Fault.IsBare

namespace Eval

/-- All faults of a computation are bare. -/
def FailsBare (x : Eval α) : Prop := ∀ ⦃s e t⦄, x s = .fault e t → e.IsBare

namespace FailsBare

variable {x : Eval α} {f : α → Eval β}

theorem of_value (h : ∀ s, ∃ a t, x s = .value a t) : FailsBare x := by
  intro s e t hfault
  obtain ⟨a, u, hvalue⟩ := h s
  cases hvalue.symm.trans hfault

theorem fail {c : Cause} (hc : c.OfEvaluation) : FailsBare (fail c : Eval α) := by
  rintro s e t ⟨⟩
  exact ⟨hc, rfl, rfl⟩

theorem bind (hx : FailsBare x) (hf : ∀ a, FailsBare (f a)) : FailsBare (x >>= f) := by
  intro s e t h
  rcases bind_eq_fault_iff.1 h with hfirst | ⟨a, u, -, hthen⟩
  · exact hx hfirst
  · exact hf a hthen

theorem within (hx : FailsBare x) (label : String) : FailsBare (within label x) := by
  intro s e t h
  obtain ⟨e', hinner, rfl⟩ := mapFault_eq_fault_iff.1 h
  exact (hx hinner).leave _

theorem nested (hx : FailsBare x) (l : Option Nat) : FailsBare (nested l x) := by
  intro s e t h
  rw [Eval.nested] at h
  cases hl : l.filter (· < s.depth + 1) with
  | some n =>
    simp only [hl, Outcome.fault.injEq] at h
    obtain ⟨rfl, rfl⟩ := h
    exact ⟨nofun, rfl, rfl⟩
  | none =>
    cases hxs : x { s with depth := s.depth + 1 } with
    | value a u => simp only [hl, hxs, reduceCtorEq] at h
    | fault e' u =>
      simp only [hl, hxs, Outcome.fault.injEq] at h
      obtain ⟨rfl, rfl⟩ := h
      exact hx hxs
    | outOfFuel => simp only [hl, hxs, reduceCtorEq] at h

end FailsBare

theorem compatible_failsBare (l : Option Nat) : Compatible l l fun _ y => FailsBare y where
  pure _ := .of_value fun _ => ⟨_, _, rfl⟩
  bind := .bind
  fail _ hc := .fail hc
  outOfFuel h := by cases h
  within label h := h.within label
  nested h := h.nested l
  registry := .of_value fun _ => ⟨_, _, rfl⟩
  define _ _ := .of_value fun _ => ⟨_, _, rfl⟩
  freshName _ := .of_value fun _ => ⟨_, _, rfl⟩
  freshId := .of_value fun _ => ⟨_, _, rfl⟩
  write _ := .of_value fun _ => ⟨_, _, rfl⟩
  emit _ := .of_value fun _ => ⟨_, _, rfl⟩
  consult _ _ := .of_value fun _ => ⟨_, _, rfl⟩
  resolve env name := by
    intro s e t h
    rw [resolve] at h
    cases hname : s.registry.resolve? env name with
    | some v => simp [hname] at h
    | none =>
      simp only [hname, Outcome.fault.injEq] at h
      obtain ⟨rfl, rfl⟩ := h
      exact ⟨nofun, rfl, rfl⟩

theorem failsBare_eval (l : Option Nat) (fuel : Nat) (env : Env Value) (form : Value) :
    FailsBare (eval l fuel env form) :=
  (compatible_failsBare l).eval (Nat.le_refl fuel) (fun h => absurd h (Nat.lt_irrefl fuel)) env form

end Eval

end Lisp
