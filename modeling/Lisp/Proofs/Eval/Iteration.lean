import Lisp.Proofs.Eval.Expansion

/-!
# Full expansion is repeated expansion

Each expansion runs a macro, which may define anything, also the macros that are being expanded. So
whether a form is a macro call has to be asked anew in every state that is reached. Full expansion
ends with a form exactly if some number of single expansions leads there, each of them of a macro
call, and the form is then none. From that state on, it is expanded no further.
-/

namespace Lisp

/-- A form is a macro call: a list whose head is a symbol that means a macro and is not the name of
a special form. -/
def Registry.IsMacroCall (r : Registry) (env : Env Value) (form : Value) : Prop :=
  ∃ name args c, form = .list (.symbol name :: args) ∧ SpecialForm.ofName? name = none ∧
    r.resolve? env name = some (.closure c) ∧ c.role = .expander

namespace Registry

variable {r : Registry} {env : Env Value} {form : Value}

theorem isMacroCall_of_eq_some {call : Closure Value × List Value}
    (h : r.macroCall? env form = some call) : r.IsMacroCall env form := by
  obtain ⟨name, hform, hname, hresolve, hrole⟩ := macroCall?_eq_some h
  exact ⟨name, call.2, call.1, hform, hname, hresolve, hrole⟩

theorem macroCall?_eq_none_iff : r.macroCall? env form = none ↔ ¬ r.IsMacroCall env form := by
  constructor
  · rintro hnone ⟨name, args, c, rfl, hname, hresolve, hrole⟩
    have hsome : r.macroCall? env (.list (.symbol name :: args)) = some (c, args) := by
      simp [macroCall?, hname, hresolve, hrole]
    cases hnone.symm.trans hsome
  · intro hnot
    cases hcall : r.macroCall? env form with
    | none => rfl
    | some call => exact absurd (isMacroCall_of_eq_some hcall) hnot

end Registry

namespace Eval

variable {l : Option Nat} {ev : Evaluator} {env : Env Value} {form r : Value} {s t u : State}

def expandTimes (l : Option Nat) (ev : Evaluator) (env : Env Value) : Nat → Value → Eval Value
  | 0, form => pure form
  | k + 1, form => do
    let next ← expandOnce l ev env form
    expandTimes l ev env k next

theorem expandTimes_add (j k : Nat) (form : Value) :
    expandTimes l ev env (j + k) form = expandTimes l ev env j form >>= expandTimes l ev env k := by
  induction j generalizing form with
  | zero =>
    rw [Nat.zero_add]
    rfl
  | succ j ih =>
    rw [Nat.add_right_comm]
    simp only [expandTimes, ih, bind_assoc]

theorem grows_expandTimes (l : Option Nat) (env : Env Value) (k : Nat) (form : Value) :
    Grows fun n => expandTimes l (eval l n) env k form := by
  induction k generalizing form with
  | zero => exact fun _ _ _ => .refl _
  | succ k ih =>
    have honce : Grows fun n => expandOnce l (eval l n) env form := fun n m hnm =>
      (compatible_fuel l).expandOnce (fun env v => grows_eval l env v hnm) env form
    exact honce.bind ih

/-- The first `k` expansions of a form are expansions of macro calls. -/
def CallsBefore (l : Option Nat) (ev : Evaluator) (env : Env Value) (form : Value) (s : State)
    (k : Nat) : Prop :=
  ∀ j < k, ∃ form' u, expandTimes l ev env j form s = .value form' u ∧
    u.registry.IsMacroCall env form'

/-- After the expansion of a macro call, it is the next form that is expanded on. -/
theorem callsBefore_succ_iff {next : Value} {k : Nat} (hcall : s.registry.IsMacroCall env form)
    (honce : expandOnce l ev env form s = .value next u) :
    CallsBefore l ev env form s (k + 1) ↔ CallsBefore l ev env next u k := by
  have htimes (j : Nat) : expandTimes l ev env (j + 1) form s = expandTimes l ev env j next u :=
    bind_of_value honce
  constructor
  · intro h j hj
    obtain ⟨form', u', hform', hcall'⟩ := h (j + 1) (by omega)
    exact ⟨form', u', (htimes j).symm.trans hform', hcall'⟩
  · intro h j hj
    cases j with
    | zero => exact ⟨form, s, rfl, hcall⟩
    | succ j =>
      obtain ⟨form', u', hform', hcall'⟩ := h j (by omega)
      exact ⟨form', u', (htimes j).trans hform', hcall'⟩

/-- Up to `n` expansions lead to a form that is no macro call if some smaller number of single ones
does. The induction is on `n`. -/
theorem expandFully_eq_value_iff {n : Nat} :
    expandFully l ev env n form s = .value r t ↔
      ∃ k < n, expandTimes l ev env k form s = .value r t ∧ CallsBefore l ev env form s k ∧
        ¬ t.registry.IsMacroCall env r := by
  induction n generalizing form s with
  | zero =>
    constructor
    · intro h
      cases h
    · rintro ⟨k, hk, -⟩
      cases hk
  | succ n ih =>
    cases hcall : s.registry.macroCall? env form with
    | none =>
      have hnot := Registry.macroCall?_eq_none_iff.1 hcall
      rw [expandFully_of_none hcall]
      constructor
      · rintro ⟨⟩
        exact ⟨0, n.succ_pos, rfl, nofun, hnot⟩
      · rintro ⟨k, -, htimes, hbefore, -⟩
        cases k with
        | zero => exact htimes
        | succ k =>
          obtain ⟨form', u, hform', hcall'⟩ := hbefore 0 k.succ_pos
          cases hform'
          exact absurd hcall' hnot
    | some call =>
      have hmacro := Registry.isMacroCall_of_eq_some hcall
      have honce : expandOnce l ev env form s = invoke l ev call.1 call.2 s :=
        expandOnce_of_macroCall hcall
      rw [expandFully_of_macroCall hcall, bind_eq_value_iff]
      constructor
      · rintro ⟨next, u, hinvoke, hrest⟩
        obtain ⟨k, hk, htimes, hbefore, hstop⟩ := ih.1 hrest
        have hnext := honce.trans hinvoke
        exact ⟨k + 1, by omega, (bind_of_value hnext).trans htimes,
          (callsBefore_succ_iff hmacro hnext).2 hbefore, hstop⟩
      · rintro ⟨k, hk, htimes, hbefore, hstop⟩
        cases k with
        | zero =>
          cases htimes
          exact absurd hmacro hstop
        | succ k =>
          obtain ⟨next, u, hnext, hrest⟩ := bind_eq_value_iff.1 htimes
          refine ⟨next, u, honce.symm.trans hnext, ih.2 ⟨k, by omega, hrest, ?_, hstop⟩⟩
          exact (callsBefore_succ_iff hmacro hnext).1 hbefore

/-- Full expansion has at least as much fuel as the expansions that it makes and their macros. -/
theorem ends_expandFully_of_eq_value {n k : Nat}
    (h : expandFully l (eval l n) env k form s = .value r t) :
    Ends (fun n => expandFully l (eval l n) env n form) s (.value r t) := by
  have hev : ∀ env v, Approximates (fun _ => False) (eval l n env v) (eval l (max n k) env v) :=
    fun env v => grows_eval l env v (Nat.le_max_left n k)
  have hmore := (compatible_fuel l).expandFully hev (Nat.le_max_right n k) (fun _ => .outOfFuel)
    env form
  have hsame := hmore.eq_of_ne (s := s) (by simp [h])
  exact ⟨nofun, max n k, hsame.trans h⟩

/-- A form that is no macro call is expanded to itself, and nothing else happens. -/
theorem expand_of_not_isMacroCall (h : ¬ s.registry.IsMacroCall env form) (l : Option Nat)
    (ev : Evaluator) (n : Nat) :
    expandFully l ev env (n + 1) form s = .value form s ∧
      expandOnce l ev env form s = .value form s := by
  have hnone := Registry.macroCall?_eq_none_iff.2 h
  exact ⟨expandFully_of_none hnone n, expandOnce_of_none hnone⟩

/-- Full expansion of a form ends with `r` exactly if for some `k` expanding it `k` times ends with
`r`, each form on the way is a macro call in the state reached with it, and `r` is none in the last
state. From this state on, expanding `r` once or fully ends with `r` and leaves the state as it
is. -/
theorem ends_expandFully_iff_expandTimes (l : Option Nat) (env : Env Value) (form r : Value)
    (s t : State) :
    let times k form := fun n => expandTimes l (eval l n) env k form
    let fully form := fun n => expandFully l (eval l n) env n form
    (Ends (fully form) s (.value r t) ↔
      ∃ k, Ends (times k form) s (.value r t) ∧
        (∀ j < k, ∃ form' u, Ends (times j form) s (.value form' u) ∧
          u.registry.IsMacroCall env form') ∧
        ¬ t.registry.IsMacroCall env r) ∧
    (Ends (fully form) s (.value r t) →
      Ends (fully r) t (.value r t) ∧
      Ends (fun n => expandOnce l (eval l n) env r) t (.value r t)) := by
  intro times fully
  constructor
  · constructor
    · rintro ⟨-, n, hfully⟩
      obtain ⟨k, -, htimes, hbefore, hstop⟩ := expandFully_eq_value_iff.1 hfully
      refine ⟨k, ⟨nofun, n, htimes⟩, fun j hj => ?_, hstop⟩
      obtain ⟨form', u, hform', hcall⟩ := hbefore j hj
      exact ⟨form', u, ⟨nofun, n, hform'⟩, hcall⟩
    · rintro ⟨k, ⟨-, n, htimes⟩, hbefore, hstop⟩
      -- the forms on the way may have been found with other fuel, but they are the same
      have hcalls : CallsBefore l (eval l n) env form s k := by
        intro j hj
        obtain ⟨i, rfl⟩ := Nat.exists_eq_add_of_le (Nat.le_of_lt hj)
        have hsplit : expandTimes l (eval l n) env (j + i) form s = .value r t := htimes
        rw [expandTimes_add] at hsplit
        obtain ⟨form', u, hform', -⟩ := bind_eq_value_iff.1 hsplit
        obtain ⟨form'', u', hends, hcall⟩ := hbefore j hj
        have hends' : Ends (times j form) s (.value form' u) := ⟨nofun, n, hform'⟩
        cases (grows_expandTimes l env j form).ends_unique hends hends'
        exact ⟨form', u, hform', hcall⟩
      have hfully := expandFully_eq_value_iff.2 ⟨k, k.lt_succ_self, htimes, hcalls, hstop⟩
      exact ends_expandFully_of_eq_value hfully
  · rintro ⟨-, n, hfully⟩
    obtain ⟨-, -, -, -, hstop⟩ := expandFully_eq_value_iff.1 hfully
    have hstays := expand_of_not_isMacroCall hstop l
    exact ⟨⟨nofun, 1, (hstays (eval l 1) 0).1⟩, ⟨nofun, 0, (hstays (eval l 0) 0).2⟩⟩

/-- A macro that expands to the call of another one, which defines its own name as a number and
expands to a list with that name, so that its second call is none any more. -/
theorem ends_expandFully_iff_expandTimes_redefined :
    let quoted (v : Value) := Value.list [.symbol "quote", v]
    let expander (id : Nat) (name : String) (body : List Value) : String × Value :=
      (name, .closure ⟨.expander, id, some name, [⟨⟨[], none⟩, body⟩], .empty⟩)
    let r := Value.list [.symbol "inner"]
    let outer := expander 0 "outer" [quoted r]
    let inner := expander 1 "inner" [.list [.symbol "def", .symbol "inner", .int 3], quoted r]
    let call := Value.list [.symbol "outer"]
    let s : State := { registry := { cells := [outer, inner] } }
    let t : State := { registry := { cells := [outer, ("inner", .int 3)] } }
    let times k form := fun n => expandTimes none (eval none n) .empty k form
    let fully form := fun n => expandFully none (eval none n) .empty n form
    Ends (fully call) s (.value r t) ∧
      (∃ k, Ends (times k call) s (.value r t) ∧
        (∀ j < k, ∃ form' u, Ends (times j call) s (.value form' u) ∧
          u.registry.IsMacroCall .empty form') ∧
        ¬ t.registry.IsMacroCall .empty r) ∧
      Ends (fully r) t (.value r t) ∧
      Ends (fun n => expandOnce none (eval none n) .empty r) t (.value r t) := by
  intro quoted expander r outer inner call s t times fully
  have hends : Ends (fully call) s (.value r t) := ⟨nofun, 3, rfl⟩
  have hboth := ends_expandFully_iff_expandTimes none .empty call r s t
  exact ⟨hends, hboth.1.1 hends, hboth.2 hends⟩

end Eval

end Lisp
