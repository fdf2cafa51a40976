import Lisp.Proofs.Eval.Bounds

/-!
# Expansion keeps the meaning of a form

The evaluator and the expander recognise macro calls in different ways: one evaluates the head of a
list and looks at the value, the other looks the head up if it is a symbol. Where the expander finds
a call, the evaluator makes the same call from the same state and goes on with the expansion. Where
it finds none, it leaves the form alone. So a form and what it expands to mean the same, through any
number of expansions, each of which may define, print and generate names.
-/

namespace Lisp

theorem Registry.macroCall?_eq_some {r : Registry} {env : Env Value} {form : Value}
    {c : Closure Value} {args : List Value} (h : r.macroCall? env form = some (c, args)) :
    ∃ name, form = .list (.symbol name :: args) ∧ SpecialForm.ofName? name = none ∧
      r.resolve? env name = some (.closure c) ∧ c.role = .expander := by
  unfold Registry.macroCall? at h
  split at h
  · rename_i name rest
    split at h
    · cases h
    · rename_i hname
      split at h
      · rename_i d hres
        split at h
        · rename_i hrole
          cases h
          exact ⟨name, rfl, by simpa using hname, hres, hrole⟩
        · cases h
      · cases h
  · cases h

namespace Eval

variable {l : Option Nat} {env : Env Value} {form : Value} {s : State} {c : Closure Value}
  {args : List Value} {x : Outcome Value}

/-- Where the expander finds a macro call, the evaluator makes that call and evaluates the
expansion. -/
theorem eval_of_macroCall (h : s.registry.macroCall? env form = some (c, args)) (n : Nat) :
    eval l (n + 2) env form s =
      (invoke l (eval l (n + 1)) c args >>= eval l (n + 1) env) s := by
  obtain ⟨name, rfl, hname, hres, hrole⟩ := Registry.macroCall?_eq_some h
  have hhead : eval l (n + 1) env (.symbol name) s = .value (.closure c) s := by
    change resolve env name s = _
    rw [resolve, hres]
  have hspecial : (Value.symbol name).special? = none := hname
  calc eval l (n + 2) env (.list (.symbol name :: args)) s
      = evalCall l (eval l (n + 1)) env (.symbol name) args s := by
        rw [eval, step, hspecial]
    _ = (invoke l (eval l (n + 1)) c args >>= eval l (n + 1) env) s := by
        rw [evalCall, bind_of_value hhead]
        simp only [hrole]

/-- How a run goes on after an expansion: the form that came out is evaluated, and a fault stays. -/
def GoesOn (l : Option Nat) (env : Env Value) : Outcome Value → Outcome Value → Prop
  | .value r t, o => Ends (fun n => eval l n env r) t o
  | .fault e t, o => o = .fault e t
  | .outOfFuel, _ => False

/-- One call of a macro: evaluation of the form goes on from where the call ended. -/
theorem ends_eval_iff_of_invoke (h : s.registry.macroCall? env form = some (c, args))
    (hx : Ends (fun n => invoke l (eval l n) c args) s x) (o : Outcome Value) :
    Ends (fun n => eval l n env form) s o ↔ GoesOn l env x o := by
  have hcall := grows_invoke l c args
  have hboth := hcall.bind (grows_eval l env)
  calc Ends (fun n => eval l n env form) s o
      ↔ Ends (fun n => eval l (n + 2) env form) s o :=
        ((grows_eval l env form).ends_add_iff 2).symm
    _ ↔ Ends (fun n => invoke l (eval l (n + 1)) c args >>= eval l (n + 1) env) s o := by
        simp only [Ends, eval_of_macroCall h]
    _ ↔ Ends (fun n => invoke l (eval l n) c args >>= eval l n env) s o := hboth.ends_add_iff 1
    _ ↔ GoesOn l env x o := by
        cases x with
        | value r t => exact hcall.ends_bind_iff_of_value (grows_eval l env) hx
        | fault e t => exact hcall.ends_bind_iff_of_fault (grows_eval l env) hx
        | outOfFuel => exact absurd rfl hx.1

theorem expandOnce_of_macroCall {ev : Evaluator}
    (h : s.registry.macroCall? env form = some (c, args)) :
    expandOnce l ev env form s = invoke l ev c args s := by
  rw [expandOnce, bind_of_value (rfl : registry s = .value s.registry s), h]

theorem expandOnce_of_none {ev : Evaluator} (h : s.registry.macroCall? env form = none) :
    expandOnce l ev env form s = .value form s := by
  rw [expandOnce, bind_of_value (rfl : registry s = .value s.registry s), h]
  rfl

theorem expandFully_of_macroCall {ev : Evaluator}
    (h : s.registry.macroCall? env form = some (c, args)) (n : Nat) :
    expandFully l ev env (n + 1) form s = (invoke l ev c args >>= expandFully l ev env n) s := by
  rw [expandFully, bind_of_value (rfl : registry s = .value s.registry s), h]

theorem expandFully_of_none {ev : Evaluator} (h : s.registry.macroCall? env form = none)
    (n : Nat) : expandFully l ev env (n + 1) form s = .value form s := by
  rw [expandFully, bind_of_value (rfl : registry s = .value s.registry s), h]
  rfl

/-- Any number of calls. The induction is on the number of expansions that the expander may make,
while the macros themselves run with fuel `m`. -/
theorem ends_eval_iff_of_expandFully {n m : Nat}
    (hx : expandFully l (eval l m) env n form s = x) (hend : x ≠ .outOfFuel) (o : Outcome Value) :
    Ends (fun n => eval l n env form) s o ↔ GoesOn l env x o := by
  induction n generalizing form s with
  | zero => exact absurd hx.symm hend
  | succ n ih =>
    cases hcall : s.registry.macroCall? env form with
    | none =>
      rw [expandFully_of_none hcall] at hx
      subst hx
      exact Iff.rfl
    | some call =>
      rw [expandFully_of_macroCall hcall] at hx
      cases hinvoke : invoke l (eval l m) call.1 call.2 s with
      | value next t =>
        have hends : Ends (fun n => invoke l (eval l n) call.1 call.2) s (.value next t) :=
          ⟨nofun, m, hinvoke⟩
        rw [bind_of_value hinvoke] at hx
        rw [ends_eval_iff_of_invoke hcall hends o]
        exact ih hx
      | fault e t =>
        have hends : Ends (fun n => invoke l (eval l n) call.1 call.2) s (.fault e t) :=
          ⟨nofun, m, hinvoke⟩
        rw [bind_of_fault hinvoke] at hx
        subst hx
        exact ends_eval_iff_of_invoke hcall hends o
      | outOfFuel =>
        rw [bind_of_outOfFuel hinvoke] at hx
        exact absurd hx.symm hend

/-- If expanding a form once, or fully, ends with a form, then evaluating the first form ends as
evaluating the second one does from the state that expansion left. If it ends with a fault,
evaluating the form ends with that fault in that state. -/
theorem ends_eval_iff_of_expansion (l : Option Nat) (env : Env Value) (form : Value) (s : State) :
    (∀ x, Ends (fun n => expandOnce l (eval l n) env form) s x →
      ∀ o, Ends (fun n => eval l n env form) s o ↔ GoesOn l env x o) ∧
    (∀ x, Ends (fun n => expandFully l (eval l n) env n form) s x →
      ∀ o, Ends (fun n => eval l n env form) s o ↔ GoesOn l env x o) := by
  constructor
  · intro x hx o
    cases hcall : s.registry.macroCall? env form with
    | none =>
      obtain ⟨hend, n, rfl⟩ := hx
      simp only [expandOnce_of_none hcall]
      exact Iff.rfl
    | some call =>
      simp only [Ends, expandOnce_of_macroCall hcall] at hx
      exact ends_eval_iff_of_invoke hcall hx o
  · rintro x ⟨hend, n, hx⟩ o
    exact ends_eval_iff_of_expandFully hx hend o

/-- A macro that expands to a call of another one, which prints and expands to a number. -/
theorem ends_eval_iff_of_expansion_twice :
    let expander (id : Nat) (name : String) (body : List Value) : String × Value :=
      (name, .closure ⟨.expander, id, some name, [⟨⟨[], none⟩, body⟩], .empty⟩)
    let registry : Registry := { cells := [
      ("print", .builtin .print),
      expander 0 "outer" [.list [.symbol "quote", .list [.symbol "inner"]]],
      expander 1 "inner" [.list [.symbol "print", .str "once"], .int 5]] }
    let call := Value.list [.symbol "outer"]
    let after : Outcome Value := .value (.int 5) { registry, output := "once" }
    Ends (fun n => expandFully none (eval none n) .empty n call) { registry } after ∧
      Ends (fun n => eval none n .empty call) { registry } after := by
  intro expander registry call after
  have hx : Ends (fun n => expandFully none (eval none n) .empty n call) { registry } after :=
    ⟨nofun, 4, rfl⟩
  refine ⟨hx, ((ends_eval_iff_of_expansion none .empty call { registry }).2 after hx after).2 ?_⟩
  exact ⟨nofun, 1, rfl⟩

end Eval

end Lisp
