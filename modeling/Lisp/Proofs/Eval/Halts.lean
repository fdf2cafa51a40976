import Lisp.Proofs.Eval.Reach
import Lisp.Proofs.Eval.Turns

/-!
# Computations that end and meet no macro

A computation halts at a depth if it ends from every state at that depth whose definitions are free
of macros, and stays among such states. Computations that halt can be put together, and the rules of
the evaluator that evaluate no part of a form halt by themselves.
-/

namespace Lisp

variable {α β : Type}

theorem Registry.MacroFree.macroCall?_eq_none {r : Registry} (hr : r.MacroFree) {env : Env Value}
    (henv : env.MacroFree) (form : Value) : r.macroCall? env form = none := by
  cases hcall : r.macroCall? env form with
  | none => rfl
  | some call =>
    obtain ⟨name, -, -, hresolve, hrole⟩ := Registry.macroCall?_eq_some hcall
    have hplain := (hr.resolve henv hresolve).isPlain
    rw [hplain.role] at hrole
    cases hrole

/-- A run ended, with a fault or, at depth `d` and with definitions free of macros, with a value of
which `P` holds. -/
def Outcome.Keeps (d : Nat) (P : α → Prop) : Outcome α → Prop
  | .value a t => t.depth = d ∧ t.registry.MacroFree ∧ P a
  | .fault _ _ => True
  | .outOfFuel => False

namespace Eval

/-- From every state at depth `d` with definitions free of macros, a computation ends, and it ends in
such a state if it ends with a value. -/
structure Halts (d : Nat) (x : Eval α) (P : α → Prop) : Prop where
  keeps (s : State) (hdepth : s.depth = d) (hregistry : s.registry.MacroFree) : (x s).Keeps d P

namespace Halts

variable {n d : Nat} {x : Eval α} {f : α → Eval β} {P : α → Prop} {Q : β → Prop} {ev : Evaluator}
  {env : Env Value}

theorem pure {a : α} (h : P a) : Halts d (pure a) P :=
  ⟨fun _ hdepth hregistry => ⟨hdepth, hregistry, h⟩⟩

theorem bind (hx : Halts d x P) (hf : ∀ a, P a → Halts d (f a) Q) : Halts d (x >>= f) Q := by
  constructor
  intro s hdepth hregistry
  have hkeeps := hx.keeps s hdepth hregistry
  cases hxs : x s with
  | value a t =>
    rw [hxs] at hkeeps
    obtain ⟨hdepth', hregistry', ha⟩ := hkeeps
    rw [bind_of_value hxs]
    exact (hf a ha).keeps t hdepth' hregistry'
  | fault e t =>
    rw [bind_of_fault hxs]
    trivial
  | outOfFuel =>
    rw [hxs] at hkeeps
    exact hkeeps.elim

theorem fail (c : Cause) : Halts d (fail c) P :=
  ⟨fun _ _ _ => trivial⟩

theorem ofCause {r : Except Cause α} (h : Gives P r) : Halts d (ofCause r) P := by
  cases r with
  | ok a => exact pure h
  | error c => exact fail c

theorem ofMalformed (f : SpecialForm) {r : Except Malformation α} (h : Gives P r) :
    Halts d (ofMalformed f r) P :=
  ofCause (h.mapError _)

theorem within (h : Halts d x P) (label : String) : Halts d (within label x) P := by
  constructor
  intro s hdepth hregistry
  have hkeeps := h.keeps s hdepth hregistry
  cases hxs : x s <;> simp_all [Eval.within, mapFault, Outcome.Keeps]

/-- A nested computation is one call deeper if it runs at all. -/
theorem nested (h : d < n → Halts (d + 1) x P) : Halts d (nested (some n) x) P := by
  constructor
  intro s hdepth hregistry
  subst hdepth
  by_cases hlimit : s.depth < n
  · have hfilter : (some n).filter (· < s.depth + 1) = none := by
      simp [Option.filter, Nat.not_lt.2 hlimit]
    have hkeeps := (h hlimit).keeps { s with depth := s.depth + 1 } rfl hregistry
    simp only [Eval.nested, hfilter]
    cases hxs : x { s with depth := s.depth + 1 } with
    | value a t =>
      rw [hxs] at hkeeps
      obtain ⟨hdepth, hkept⟩ := hkeeps
      exact ⟨by simp [hdepth], hkept⟩
    | fault e t => trivial
    | outOfFuel =>
      rw [hxs] at hkeeps
      exact hkeeps.elim
  · rw [nested_of_limit_le x (Nat.not_lt.1 hlimit)]
    trivial

theorem registry : Halts d registry Registry.MacroFree :=
  ⟨fun _ hdepth hregistry => ⟨hdepth, hregistry, hregistry⟩⟩

theorem define (name : String) {v : Value} (hv : v.MacroFree) :
    Halts d (define name v) fun _ => True :=
  ⟨fun _ hdepth hregistry => ⟨hdepth, hregistry.define hv name, trivial⟩⟩

theorem freshName (base : String) : Halts d (freshName base) fun _ => True :=
  ⟨fun _ hdepth hregistry => ⟨hdepth, hregistry, trivial⟩⟩

theorem freshId : Halts d freshId fun _ => True :=
  ⟨fun _ hdepth hregistry => ⟨hdepth, hregistry, trivial⟩⟩

theorem write (text : String) : Halts d (write text) fun _ => True :=
  ⟨fun _ hdepth hregistry => ⟨hdepth, hregistry, trivial⟩⟩

theorem emit (v : Value) : Halts d (emit v) fun _ => True :=
  ⟨fun _ hdepth hregistry => ⟨hdepth, hregistry, trivial⟩⟩

theorem consult (f : Native) (args : List Native.Shown) :
    Halts d (consult f args) fun _ => True :=
  ⟨fun _ hdepth hregistry => ⟨hdepth, hregistry, trivial⟩⟩

theorem resolve (henv : env.MacroFree) (name : String) :
    Halts d (resolve env name) Value.MacroFree := by
  constructor
  intro s hdepth hregistry
  unfold Eval.resolve
  split
  · exact ⟨hdepth, hregistry, hregistry.resolve henv ‹_›⟩
  · trivial

theorem each {forms : List Value}
    (h : ∀ form ∈ forms, Halts d (ev env form) Value.MacroFree) :
    Halts d (each ev env forms) fun vs => ∀ v ∈ vs, v.MacroFree := by
  induction forms with
  | nil => exact pure nofun
  | cons form forms ih =>
    rw [List.forall_mem_cons] at h
    apply h.1.bind
    intro v hv
    apply (ih h.2).bind
    intro vs hvs
    exact pure (List.forall_mem_cons.2 ⟨hv, hvs⟩)

theorem body {forms : List Value}
    (h : ∀ form ∈ forms, Halts d (ev env form) Value.MacroFree) :
    Halts d (body ev env forms) Value.MacroFree := by
  induction forms with
  | nil => exact pure (Value.macroFree_atom _)
  | cons form forms ih =>
    rw [List.forall_mem_cons] at h
    cases forms with
    | nil => exact h.1
    | cons next rest => exact h.1.bind fun _ _ => ih h.2

theorem runNative (f : Native) {args : List Value} (hargs : ∀ v ∈ args, v.MacroFree) :
    Halts d (Builtin.runNative f args) Value.MacroFree := by
  apply (consult f _).bind
  intro answer _
  cases answer with
  | refuse message => exact fail _
  | datum form => exact pure form.macroFree_toValue
  | keep i =>
    apply (ofCause ((Builtin.argument_macroFree _ hargs i).mapError _)).bind
    intro v hv
    exact (emit v).bind fun _ _ => pure hv

theorem run (b : Builtin) {args : List Value} (hargs : ∀ v ∈ args, v.MacroFree) :
    Halts d (b.run args) Value.MacroFree := by
  unfold Builtin.run
  split
  · exact (freshName _).bind fun _ _ => pure (Value.macroFree_atom _)
  · apply (ofCause (Gives.any _)).bind
    intro base _
    exact (freshName _).bind fun _ _ => pure (Value.macroFree_atom _)
  · exact (write _).bind fun _ _ => pure (Value.macroFree_atom _)
  · exact (write _).bind fun _ _ => pure (Value.macroFree_atom _)
  · exact runNative _ hargs
  · exact ofCause ((Builtin.compute_macroFree _ hargs).mapError _)

theorem callBuiltin (b : Builtin) {args : List Value} (hargs : ∀ v ∈ args, v.MacroFree) :
    Halts d (callBuiltin b args) Value.MacroFree := by
  unfold Eval.callBuiltin
  split
  · exact (run b hargs).within _
  · exact fail _

theorem operand (f : SpecialForm) {items : List Value} {P : Value → Prop}
    (hitems : ∀ v ∈ items, P v) : Halts d (operand f items) P := by
  unfold Eval.operand
  split
  · exact pure (hitems _ (by simp))
  · exact fail _

theorem spliced {v : Value} (hv : v.MacroFree) :
    Halts d (spliced v) fun items => ∀ w ∈ items, w.MacroFree := by
  unfold Eval.spliced
  split
  · exact pure fun w hw => hv.of_mem hw
  · exact pure nofun
  · exact fail _

theorem rename (base name : String) (names : Renaming) :
    Halts d (rename base name names) fun _ => True := by
  unfold Eval.rename
  split
  · exact pure trivial
  · exact (freshName base).bind fun _ _ => pure trivial

theorem expandOnce (henv : env.MacroFree) {form : Value} (hform : form.MacroFree) :
    Halts d (expandOnce (some n) ev env form) Value.MacroFree := by
  apply registry.bind
  intro r hr
  rw [hr.macroCall?_eq_none henv form]
  exact pure hform

theorem expandFully (henv : env.MacroFree) (k : Nat) {form : Value} (hform : form.MacroFree) :
    Halts d (expandFully (some n) ev env (k + 1) form) Value.MacroFree := by
  apply registry.bind
  intro r hr
  rw [hr.macroCall?_eq_none henv form]
  exact pure hform

theorem closure (henv : env.MacroFree) (name : Option String) {clauses : List (Clause Value)}
    (hclauses : ∀ clause ∈ clauses, clause.IsCode) :
    Halts d (closure .function name clauses env) Value.MacroFree :=
  freshId.bind fun _ _ => pure (Value.macroFree_closure rfl henv hclauses)

theorem evalDefineClosure (f : SpecialForm) (henv : env.MacroFree) {args : List Value}
    (hargs : ∀ v ∈ args, v.IsCode) :
    Halts d (evalDefineClosure f .function env args) Value.MacroFree := by
  apply (ofMalformed f (splitName_subset args)).bind
  intro named htail
  apply (ofMalformed f (Clause.parse_isCode fun v hv => hargs v (htail hv))).bind
  intro clauses hclauses
  apply (closure henv _ hclauses).bind
  intro v hv
  exact (define _ hv).bind fun _ _ => pure hv

theorem evalFunction (henv : env.MacroFree) {args : List Value}
    (hargs : ∀ v ∈ args, v.IsCode) : Halts d (evalFunction env args) Value.MacroFree := by
  have htail : ∀ v ∈ (splitOptionalName args).2, v.IsCode :=
    fun v hv => hargs v (splitOptionalName_subset args hv)
  apply (ofMalformed _ (Clause.parse_isCode htail)).bind
  intro clauses hclauses
  exact closure henv _ hclauses

end Halts

end Eval

end Lisp
