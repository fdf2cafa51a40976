import Lisp.Proofs.Eval.Moment
import Lisp.Proofs.Eval.Quiet
import Lisp.Proofs.Program.Forms

/-!
# The definitions that a run makes

A form that defines a name makes a definition when it has a value: the name is defined as this value.
The definitions that a run makes are listed here from the forms that are evaluated and from their
values alone. The global definitions at the end of a run are those at its start, with the listed ones
made one after the other, whether the run ends with a value or with a fault.
-/

namespace Lisp

variable {α β : Type}

abbrev Definition := String × Value

def Registry.defineAll (r : Registry) (ds : List Definition) : Registry :=
  ds.foldl (fun r d => r.define d.1 d.2) r

theorem Registry.defineAll_append (r : Registry) (ds ds' : List Definition) :
    r.defineAll (ds ++ ds') = (r.defineAll ds).defineAll ds' :=
  List.foldl_append

def Value.definition (form : Value) : Outcome Value → List Definition
  | .value v _ => (form.definedName?.map (·, v)).toList
  | _ => []

def Outcome.thenDefinitions (o : Outcome α) (next : α → State → List Definition) :
    List Definition :=
  match o with
  | .value a t => next a t
  | _ => []

/-- The definitions that evaluations make, each of a form in an environment from a state. -/
abbrev Listing := Env Value → Value → State → List Definition

section

variable (l : Option Nat) (ev : Evaluator) (made : Listing)

/-- The definitions that forms make which are evaluated one after the other. -/
def Eval.bodyDefinitions (env : Env Value) : List Value → State → List Definition
  | [], _ => []
  | form :: forms, s =>
    made env form s ++ (ev env form s).thenDefinitions fun _ t => bodyDefinitions env forms t

/-- The definitions one call deeper, unless the limit refuses the call. -/
def Eval.nestedDefinitions (ds : State → List Definition) (s : State) : List Definition :=
  match l.filter (· < s.depth + 1) with
  | some _ => []
  | none => ds { s with depth := s.depth + 1 }

def Eval.callDefinitions (c : Closure Value) (args : List Value) : State → List Definition :=
  nestedDefinitions l <|
    match Clause.select? c.clauses args.length with
    | some clause => bodyDefinitions ev made (callEnv c clause.params args) clause.body
    | none => fun _ => []

def Eval.expansionDefinitions (env : Env Value) : Nat → Value → State → List Definition
  | 0, _, _ => []
  | k + 1, form, s =>
    match s.registry.macroCall? env form with
    | some (c, args) =>
      callDefinitions l ev made c args s ++
        (invoke l ev c args s).thenDefinitions fun next t => expansionDefinitions env k next t
    | none => []

def Job.definitions (k : Nat) : Job → State → List Definition
  | eval env form => made env form
  | expand env form => Eval.expansionDefinitions l ev made env k form
  | call c args => Eval.callDefinitions l ev made c args

def Plan.definitions (k : Nat) : Plan α → State → List Definition
  | done _, _ => []
  | fail _ _, _ => []
  | ask job next, s =>
    job.definitions l ev made k s ++
      (job.run l ev k s).thenDefinitions fun v t => (next v).definitions k t
  | native b args next, s => (b.run args s).thenDefinitions fun v t => (next v).definitions k t
  | update f _ next, s => (next s).definitions k (f s)

end

/-- The definitions that the evaluation of a form makes: those of its parts, and then its own. -/
def evalDefinitions (l : Option Nat) : Nat → Listing
  | 0, _, _, _ => []
  | fuel + 1, env, form, s =>
    (Plan.step env form).definitions l (eval l fuel) (evalDefinitions l fuel) fuel s ++
      form.definition (eval l (fuel + 1) env form s)

def Request.definitions (l : Option Nat) (fuel : Nat) (q : Request) : State → List Definition :=
  q.plan.definitions l (Lisp.eval l fuel) (evalDefinitions l fuel) fuel

/-- The definitions that a text makes: those of the forms that can be read, one after the other. -/
def Program.definitions (l : Option Nat) (fuel : Nat) (text : String) : State → List Definition :=
  Eval.bodyDefinitions (eval l fuel) (evalDefinitions l fuel) .empty
    ((Source.Cursor.ofString text).forms.1.map Form.toValue)

/-- A run that ended left this registry. -/
def Outcome.Leaves (r : Registry) : Outcome α → Prop
  | .value _ t => t.registry = r
  | .fault _ t => t.registry = r
  | .outOfFuel => True

namespace Eval

/-- A computation makes the listed definitions and changes nothing else in the registry. -/
def Makes (x : Eval α) (ds : State → List Definition) : Prop :=
  ∀ s, (x s).Leaves (s.registry.defineAll (ds s))

variable {x : Eval α} {f : α → Eval β} {ds : State → List Definition}
  {next : α → State → List Definition}

@[simp] theorem thenDefinitions_nil (o : Outcome α) : o.thenDefinitions (fun _ _ => []) = [] := by
  cases o <;> rfl

@[simp] theorem thenDefinitions_mapFault (g : Fault → Fault) (s : State) :
    (x.mapFault g s).thenDefinitions next = (x s).thenDefinitions next := by
  rw [mapFault]
  cases x s <;> rfl

namespace Makes

theorem pure (a : α) : Makes (pure a) fun _ => [] := fun _ => rfl

theorem fail (c : Cause) : Makes (fail c : Eval α) fun _ => [] := fun _ => rfl

theorem bind (hx : Makes x ds) (hf : ∀ a, Makes (f a) (next a)) :
    Makes (x >>= f) fun s => ds s ++ (x s).thenDefinitions next := by
  intro s
  have hxs := hx s
  dsimp only
  cases h : x s with
  | value a t =>
    rw [h] at hxs
    have hregistry : t.registry = s.registry.defineAll (ds s) := hxs
    rw [bind_of_value h, Registry.defineAll_append, ← hregistry]
    exact hf a t
  | fault e t =>
    rw [h] at hxs
    rw [bind_of_fault h]
    exact (List.append_nil (ds s)).symm ▸ hxs
  | outOfFuel =>
    rw [bind_of_outOfFuel h]
    trivial

theorem mapFault (hx : Makes x ds) (g : Fault → Fault) : Makes (x.mapFault g) ds := by
  intro s
  have hxs := hx s
  rw [Eval.mapFault]
  cases h : x s <;> simp_all [Outcome.Leaves]

theorem nested (hx : Makes x ds) (l : Option Nat) :
    Makes (nested l x) (nestedDefinitions l ds) := by
  intro s
  have hxs := hx { s with depth := s.depth + 1 }
  rw [Eval.nested, nestedDefinitions]
  cases l.filter (· < s.depth + 1) with
  | some n => rfl
  | none =>
    dsimp only
    cases h : x { s with depth := s.depth + 1 } <;> simp_all [Outcome.Leaves]

end Makes

theorem makes_runNative (f : Native) (args : List Value) :
    Makes (Builtin.runNative f args) fun _ => [] := by
  intro s
  change (Builtin.comply f args (s.natives f _) s).Leaves s.registry
  generalize s.natives f _ = answer
  cases answer with
  | refuse message => rfl
  | datum form => rfl
  | keep i =>
    rw [Builtin.comply]
    cases Builtin.argument (.native f) args i <;> rfl

/-- A built-in function defines nothing. -/
theorem makes_builtin (b : Builtin) (args : List Value) : Makes (b.run args) fun _ => [] := by
  unfold Builtin.run
  split
  · exact fun _ => rfl
  · rename_i v vs
    cases Builtin.textOf .gensym v <;> exact fun _ => rfl
  · exact fun _ => rfl
  · exact fun _ => rfl
  · exact makes_runNative _ _
  · cases b.compute args <;> exact fun _ => rfl

variable {l : Option Nat} {ev : Evaluator} {made : Listing}

theorem makes_body (heval : ∀ env form, Makes (ev env form) (made env form)) (env : Env Value)
    (forms : List Value) : Makes (body ev env forms) (bodyDefinitions ev made env forms) := by
  induction forms with
  | nil => exact .pure _
  | cons form forms ih =>
    cases forms with
    | nil =>
      have hlast (s : State) : bodyDefinitions ev made env [form] s = made env form s := by
        simp [bodyDefinitions]
      intro s
      rw [hlast]
      exact heval env form s
    | cons next rest => exact (heval env form).bind fun _ => ih

theorem makes_invoke (heval : ∀ env form, Makes (ev env form) (made env form)) (c : Closure Value)
    (args : List Value) : Makes (invoke l ev c args) (callDefinitions l ev made c args) := by
  apply Makes.mapFault
  apply Makes.nested
  rw [Clause.choose]
  cases Clause.select? c.clauses args.length with
  | some clause => exact makes_body heval _ _
  | none => exact .fail _

/-- The induction is on the number of expansions. -/
theorem makes_expandFully (heval : ∀ env form, Makes (ev env form) (made env form))
    (env : Env Value) (k : Nat) (form : Value) :
    Makes (expandFully l ev env k form) (expansionDefinitions l ev made env k form) := by
  induction k generalizing form with
  | zero => exact fun _ => trivial
  | succ k ih =>
    intro s
    rw [expandFully, bind_of_value (rfl : registry s = _), expansionDefinitions]
    cases s.registry.macroCall? env form with
    | none => rfl
    | some call => exact (makes_invoke heval call.1 call.2).bind ih s

end Eval

open Eval

variable {l : Option Nat} {ev : Evaluator} {made : Listing}

theorem Job.makes_run (heval : ∀ env form, Makes (ev env form) (made env form)) (k : Nat)
    (job : Job) : Makes (job.run l ev k) (job.definitions l ev made k) := by
  cases job with
  | eval env form => exact heval env form
  | expand env form => exact makes_expandFully heval env k form
  | call c args => exact makes_invoke heval c args

/-- A plan that defines nothing itself makes the definitions of its jobs. -/
theorem Plan.Quiet.makes_run (heval : ∀ env form, Makes (ev env form) (made env form)) {k : Nat}
    {p : Plan α} (hp : p.Quiet) : Makes (p.run l ev k) (p.definitions l ev made k) := by
  induction p with
  | done a => exact .pure a
  | fail c h => exact .fail c
  | ask job next ih => exact (job.makes_run heval k).bind fun v => ih v (hp v)
  | native b args next ih =>
    have hcall := (makes_builtin b args).mapFault (·.leave ⟨b.label, none⟩)
    have hrun := hcall.bind fun v => ih v (hp v)
    simp only [List.nil_append, thenDefinitions_mapFault] at hrun
    exact hrun
  | update f h next ih =>
    intro s
    rw [← hp.1 s]
    exact ih s (hp.2 s) (f s)

/-- To define a name is not one of the jobs. -/
theorem Plan.definitions_thenDefine (k : Nat) (q : Plan Value) (name : String) (s : State) :
    (q.thenDefine name).definitions l ev made k s = q.definitions l ev made k s := by
  change (q.bind _).definitions l ev made k s = _
  induction q generalizing s with
  | done v => rfl
  | fail c h => rfl
  | ask job next ih => simp only [Plan.bind, definitions, ih]
  | native b args next ih => simp only [Plan.bind, definitions, ih]
  | update f h next ih => exact ih s (f s)

/-- A form makes its own definition after those of its parts. -/
theorem Plan.Quiet.makes_run_thenDefine (heval : ∀ env form, Makes (ev env form) (made env form))
    {k : Nat} {q : Plan Value} (hq : q.Quiet) {form : Value} {name : String}
    (hname : form.definedName? = some name) :
    Makes ((q.thenDefine name).run l ev k) fun s =>
      (q.thenDefine name).definitions l ev made k s ++
        form.definition ((q.thenDefine name).run l ev k s) := by
  intro s
  have hqs := hq.makes_run (l := l) (k := k) heval s
  simp only [definitions_thenDefine, run_thenDefine]
  cases h : q.run l ev k s with
  | value v t =>
    rw [h] at hqs
    have hregistry : t.registry = s.registry.defineAll (q.definitions l ev made k s) := hqs
    rw [bind_of_value h, Registry.defineAll_append, ← hregistry]
    simp only [Value.definition, hname]
    rfl
  | fault e t =>
    rw [h] at hqs
    rw [bind_of_fault h]
    simpa [Value.definition] using hqs
  | outOfFuel =>
    rw [bind_of_outOfFuel h]
    trivial

/-- The global definitions after an evaluation are those before it, with the listed ones made. The
induction is on the fuel. -/
theorem makes_eval (l : Option Nat) (fuel : Nat) (env : Env Value) (form : Value) :
    Makes (eval l fuel env form) (evalDefinitions l fuel env form) := by
  induction fuel generalizing env form with
  | zero => exact fun _ => trivial
  | succ fuel ih =>
    have hstep : eval l (fuel + 1) env form = (Plan.step env form).run l (eval l fuel) fuel :=
      (Plan.run_step env form).symm
    cases hname : form.definedName? with
    | none =>
      have hnone (s : State) : evalDefinitions l (fuel + 1) env form s =
          (Plan.step env form).definitions l (eval l fuel) (evalDefinitions l fuel) fuel s := by
        rw [evalDefinitions]
        cases eval l (fuel + 1) env form s <;> simp [Value.definition, hname]
      intro s
      rw [hnone, hstep]
      exact (Plan.quiet_step env hname).makes_run ih s
    | some name =>
      obtain ⟨q, hq, hplan⟩ := Plan.step_eq_thenDefine env hname
      intro s
      rw [evalDefinitions, hstep, hplan]
      exact hq.makes_run_thenDefine ih hname s

theorem Request.makes_run (l : Option Nat) (fuel : Nat) (q : Request) :
    Makes (q.run l fuel) (q.definitions l fuel) := by
  have hquiet : q.plan.Quiet := by
    cases q with
    | eval env form => exact Plan.quiet_ask _
    | body env forms => exact Plan.quiet_body env forms
    | apply callee args => exact Plan.quiet_apply callee args
    | expandMacro c args => exact Plan.quiet_ask _
    | expandOnce env form => exact Plan.quiet_expandOnce env form
    | expandFully env form => exact Plan.quiet_ask _
    | template env v => exact Plan.quiet_template env v
  rw [← q.run_plan]
  exact hquiet.makes_run (makes_eval l fuel)

theorem Program.makes_runForms (l : Option Nat) (fuel : Nat) (name : Option String) (last : Value)
    (fs : List Form) :
    Makes (runForms (eval l fuel) name last fs)
      (bodyDefinitions (eval l fuel) (evalDefinitions l fuel) .empty (fs.map Form.toValue)) := by
  induction fs generalizing last with
  | nil => exact .pure last
  | cons f fs ih =>
    have hform := (makes_eval l fuel .empty f.toValue).mapFault
      fun e => (e.locate f.pos).inFile name
    have hforms := hform.bind ih
    simp only [thenDefinitions_mapFault] at hforms
    exact hforms

/-- A text that cannot be read to its end makes the definitions of the forms before. -/
theorem Program.makes_run (l : Option Nat) (fuel : Nat) (name : Option String) (text : String) :
    Makes (run (eval l fuel) name text) (definitions l fuel text) := by
  have hend (v : Value) (e : Option Fault) : Makes (atEnd name v e) fun _ => [] := by
    cases e <;> exact fun _ => rfl
  have hrun := (makes_runForms l fuel name .nil (Source.Cursor.ofString text).forms.1).bind
    fun v => hend v (Source.Cursor.ofString text).forms.2
  simp only [thenDefinitions_nil, List.append_nil] at hrun
  rw [run, runFrom_eq_runForms]
  exact hrun

end Lisp
