import Lisp.Proofs.Eval.Plan
import Mathlib.Logic.Relation

/-!
# The moments of a run

A run goes from moment to moment. At each of them there is a plan at hand, and below it stand the
jobs that wait for its value. A call that is in progress has its label there from the moment it is
entered until its value is handed on. Runs agree with the evaluator: where it ends with a value, the
run comes to that value, and where it ends with a fault, the run comes to a moment that fails for the
same cause.
-/

namespace Lisp

/-- A job that waits for a value, and the label of the call that ends with this value, if one
does. -/
structure Waiting where
  label : Option String
  next : Value → Plan Value

/-- A moment of a run: what is left of the job at hand, the jobs that wait, the innermost first, and
the state. -/
structure Moment where
  plan : Plan Value
  waiting : List Waiting
  state : State

def Job.IsPart : Job → Prop
  | call _ _ => False
  | _ => True

namespace Moment

def calls (m : Moment) : List String := m.waiting.filterMap (·.label)

/-- One moment follows another under a depth limit. -/
inductive Next (l : Option Nat) : Moment → Moment → Prop
  | part {job : Job} {next : Value → Plan Value} {ws : List Waiting} {s : State}
    (h : job.IsPart) : Next l ⟨.ask job next, ws, s⟩ ⟨job.plan, ⟨none, next⟩ :: ws, s⟩
  | enter {c : Closure Value} {args : List Value} {next : Value → Plan Value} {ws : List Waiting}
    {s : State} (h : ∀ n, l = some n → s.depth < n) :
    Next l ⟨.ask (.call c args) next, ws, s⟩
      ⟨.enter c args, ⟨some c.label, next⟩ :: ws, { s with depth := s.depth + 1 }⟩
  | answer {v : Value} {next : Value → Plan Value} {ws : List Waiting} {s : State} :
    Next l ⟨.done v, ⟨none, next⟩ :: ws, s⟩ ⟨next v, ws, s⟩
  | leave {v : Value} {label : String} {next : Value → Plan Value} {ws : List Waiting}
    {s : State} :
    Next l ⟨.done v, ⟨some label, next⟩ :: ws, s⟩ ⟨next v, ws, { s with depth := s.depth - 1 }⟩
  | native {b : Builtin} {args : List Value} {next : Value → Plan Value} {ws : List Waiting}
    {s t : State} {v : Value} (h : b.run args s = .value v t) :
    Next l ⟨.native b args next, ws, s⟩ ⟨next v, ws, t⟩
  | update {f : State → State} {hf : ∀ s, (f s).depth = s.depth} {next : State → Plan Value}
    {ws : List Waiting} {s : State} : Next l ⟨.update f hf next, ws, s⟩ ⟨next s, ws, f s⟩

/-- A moment fails: by a rule, with the calls in progress, in a built-in function, whose label comes
first, or because the depth limit refuses a call, whose label comes first then. -/
inductive Fails (l : Option Nat) : Moment → Cause → List String → Prop
  | rule {c : Cause} {h : c.kind ≠ .tooDeep} {ws : List Waiting} {s : State} :
    Fails l ⟨.fail c h, ws, s⟩ c (calls ⟨.fail c h, ws, s⟩)
  | native {b : Builtin} {args : List Value} {next : Value → Plan Value} {ws : List Waiting}
    {s t : State} {e : Fault} (h : b.run args s = .fault e t) :
    Fails l ⟨.native b args next, ws, s⟩ e.cause
      (b.label :: calls ⟨.native b args next, ws, s⟩)
  | refused {n : Nat} {c : Closure Value} {args : List Value} {next : Value → Plan Value}
    {ws : List Waiting} {s : State} (hl : l = some n) (h : n ≤ s.depth) :
    Fails l ⟨.ask (.call c args) next, ws, s⟩ (.tooDeep n)
      (c.label :: calls ⟨.ask (.call c args) next, ws, s⟩)

abbrev Reaches (l : Option Nat) : Moment → Moment → Prop := Relation.ReflTransGen (Next l)

variable {l : Option Nat} {m m₁ m₂ : Moment}

/-- A run goes one way. -/
theorem Next.unique (h₁ : Next l m m₁) (h₂ : Next l m m₂) : m₁ = m₂ := by
  cases h₁ with
  | part hjob =>
    cases h₂ with
    | part => rfl
    | enter => exact hjob.elim
  | enter =>
    cases h₂ with
    | part hjob => exact hjob.elim
    | enter => rfl
  | answer => cases h₂; rfl
  | leave => cases h₂; rfl
  | native h =>
    cases h₂ with
    | native h' =>
      cases h.symm.trans h'
      rfl
  | update => cases h₂; rfl

/-- Nothing follows a moment that fails. -/
theorem Fails.not_next {c : Cause} {labels : List String} (h : Fails l m c labels) :
    ¬ Next l m m₁ := by
  intro hnext
  cases h with
  | rule => cases hnext
  | native hrun =>
    cases hnext with
    | native hrun' => cases hrun.symm.trans hrun'
  | refused hl hlimit =>
    cases hnext with
    | part hjob => exact hjob
    | enter hallowed => exact absurd (hallowed _ hl) (Nat.not_lt.2 hlimit)

/-- A run fails at one moment at most. -/
theorem Fails.moment_unique {c c' : Cause} {labels labels' : List String}
    (h₁ : Fails l m₁ c labels) (hm₁ : m.Reaches l m₁) (h₂ : Fails l m₂ c' labels')
    (hm₂ : m.Reaches l m₂) : m₁ = m₂ := by
  induction hm₁ using Relation.ReflTransGen.head_induction_on with
  | refl =>
    rcases hm₂.cases_head with heq | ⟨_, hnext, -⟩
    · exact heq
    · exact absurd hnext h₁.not_next
  | head hnext _ ih =>
    rcases hm₂.cases_head with rfl | ⟨_, hnext', hm₂'⟩
    · exact absurd hnext h₂.not_next
    · cases hnext.unique hnext'
      exact ih hm₂'

/-- A run from `m` goes as an outcome says: it comes to `after` the value, or it fails for the cause
of the fault, inside the calls that the fault passed and those in progress at `m`, in the state of
the fault, the number of calls apart. -/
def GoesAs (l : Option Nat) (m : Moment) (after : Value → State → Moment) : Outcome Value → Prop
  | .value v t => m.Reaches l (after v t)
  | .fault e t => ∃ m' labels, m.Reaches l m' ∧ m'.Fails l e.cause (labels ++ m.calls) ∧
      e.stack = labels.map (⟨·, none⟩) ∧ { m'.state with depth := t.depth } = t
  | .outOfFuel => True

theorem GoesAs.head {after : Value → State → Moment} {o : Outcome Value} (h : Next l m m₁)
    (hcalls : m₁.calls = m.calls) (hgoes : GoesAs l m₁ after o) : GoesAs l m after o := by
  cases o with
  | value v t => exact Relation.ReflTransGen.head h hgoes
  | fault e t =>
    obtain ⟨m', labels, hreaches, hfails, hstate⟩ := hgoes
    rw [hcalls] at hfails
    exact ⟨m', labels, hreaches.head h, hfails, hstate⟩
  | outOfFuel => trivial

theorem GoesAs.bind {x : Eval Value} {f : Value → Eval Value} {s : State}
    {mid after : Value → State → Moment} (hx : GoesAs l m mid (x s))
    (hcalls : ∀ v t, (mid v t).calls = m.calls)
    (hf : ∀ v t, GoesAs l (mid v t) after (f v t)) : GoesAs l m after ((x >>= f) s) := by
  cases hxs : x s with
  | value v t =>
    rw [hxs] at hx
    rw [Eval.bind_of_value hxs]
    have hgoes := hf v t
    cases hfs : f v t with
    | value w u =>
      rw [hfs] at hgoes
      exact hx.trans hgoes
    | fault e u =>
      rw [hfs] at hgoes
      obtain ⟨m', labels, hreaches, hfails, hstate⟩ := hgoes
      rw [hcalls v t] at hfails
      exact ⟨m', labels, hx.trans hreaches, hfails, hstate⟩
    | outOfFuel => trivial
  | fault e t =>
    rw [hxs] at hx
    rw [Eval.bind_of_fault hxs]
    exact hx
  | outOfFuel =>
    rw [Eval.bind_of_outOfFuel hxs]
    trivial

theorem GoesAs.tail {mid after : Value → State → Moment} {o : Outcome Value}
    (hgoes : GoesAs l m mid o) (h : ∀ v t, Next l (mid v t) (after v t)) : GoesAs l m after o := by
  cases o with
  | value v t => exact Relation.ReflTransGen.tail hgoes (h v t)
  | fault e t => exact hgoes
  | outOfFuel => trivial

end Moment

open Moment

variable {l : Option Nat} {ev : Evaluator} {x : Eval Value}

/-- A run of a plan, whatever waits for its value, goes as a computation. -/
def Plan.Follows (l : Option Nat) (p : Plan Value) (x : Eval Value) : Prop :=
  ∀ ws s, GoesAs l ⟨p, ws, s⟩ (fun v t => ⟨.done v, ws, t⟩) (x s)

/-- A run that asks for a job, whatever is left to do then, goes as a computation. -/
def Job.Follows (l : Option Nat) (job : Job) (x : Eval Value) : Prop :=
  ∀ next ws s, GoesAs l ⟨.ask job next, ws, s⟩ (fun v t => ⟨next v, ws, t⟩) (x s)

theorem Fault.stack_leave (e : Fault) (p : Passed) : (e.leave p).stack = e.stack ++ [p] := by
  simp [stack, leave]

namespace Builtin

variable {s t : State} {e : Fault} {args : List Value}

/-- What can only fail before it does anything fails with the cause. -/
theorem ofCause_bind_eq_fault {α : Type} {r : Except BuiltinError α} {f : α → Eval Value}
    (hf : ∀ a u, ∃ v w, f a u = .value v w)
    (h : (Eval.ofCause (r.mapError .builtin) >>= f) s = .fault e t) :
    t = s ∧ e.stack = [] ∧ e.kind = .native := by
  cases r with
  | ok a =>
    obtain ⟨v, u, hv⟩ := hf a s
    cases hv.symm.trans h
  | error c =>
    cases h
    exact ⟨rfl, rfl, rfl⟩

/-- Whatever the embedding program answers, its functions fail with native faults of their own. -/
theorem runNative_eq_fault {f : Native} (h : runNative f args s = .fault e t) :
    t = s ∧ e.stack = [] ∧ e.kind = .native := by
  change comply f args (s.natives f _) s = .fault e t at h
  generalize s.natives f _ = answer at h
  cases answer with
  | refuse message =>
    cases h
    exact ⟨rfl, rfl, rfl⟩
  | datum form => cases h
  | keep i => exact ofCause_bind_eq_fault (fun _ _ => ⟨_, _, rfl⟩) h

/-- A built-in function that fails has done nothing, and its fault is its own. -/
theorem run_eq_fault {b : Builtin} (h : b.run args s = .fault e t) :
    t = s ∧ e.stack = [] ∧ e.kind = .native := by
  unfold Builtin.run at h
  split at h
  · cases h
  · exact ofCause_bind_eq_fault (fun _ _ => ⟨_, _, rfl⟩) h
  · cases h
  · cases h
  · exact runNative_eq_fault h
  · rw [← bind_pure (Eval.ofCause _)] at h
    exact ofCause_bind_eq_fault (fun _ _ => ⟨_, _, rfl⟩) h

end Builtin

/-- A built-in function that fails adds its label to the calls in progress. -/
theorem Moment.goesAs_native (l : Option Nat) (b : Builtin) (args : List Value)
    (next : Value → Plan Value) (ws : List Waiting) (s : State) :
    GoesAs l ⟨.native b args next, ws, s⟩ (fun v t => ⟨next v, ws, t⟩)
      (Eval.within b.label (b.run args) s) := by
  rw [Eval.within, Eval.mapFault]
  cases hrun : b.run args s with
  | value v t => exact .single (.native hrun)
  | fault e t =>
    obtain ⟨rfl, hstack, -⟩ := Builtin.run_eq_fault hrun
    have hfails : Fails l ⟨.native b args next, ws, t⟩ e.cause _ := .native hrun
    refine ⟨_, [b.label], .refl, hfails, ?_, rfl⟩
    rw [Fault.stack_leave, hstack]
    rfl
  | outOfFuel => trivial

/-- A plan goes as the computation that it stands for, if its jobs do. -/
theorem Plan.follows_run {k : Nat} (hjobs : ∀ job : Job, job.Follows l (job.run l ev k))
    (p : Plan Value) : p.Follows l (p.run l ev k) := by
  -- what waits and the state stay general, since each job leaves them changed
  induction p with
  | done v => exact fun ws s => .refl
  | fail c h => exact fun ws s => ⟨_, [], .refl, .rule, rfl, rfl⟩
  | ask job next ih =>
    intro ws s
    exact GoesAs.bind (hjobs job next ws s) (fun _ _ => rfl) fun v t => ih v ws t
  | native b args next ih =>
    intro ws s
    exact GoesAs.bind (goesAs_native l b args next ws s) (fun _ _ => rfl) fun v t => ih v ws t
  | update f h next ih => exact fun ws s => (ih s ws (f s)).head .update rfl

theorem Job.follows_of_isPart (job : Job) (hjob : job.IsPart) (h : job.plan.Follows l x) :
    job.Follows l x :=
  fun next ws s => ((h (⟨none, next⟩ :: ws) s).tail fun _ _ => .answer).head (.part hjob) rfl

/-- A call goes as its plan, one call deeper, unless the limit refuses it. -/
theorem Job.follows_call {c : Closure Value} {args : List Value}
    (h : (Plan.enter c args).Follows l x) :
    (Job.call c args).Follows l (Eval.within c.label (Eval.nested l x)) := by
  intro next ws s
  rw [Eval.within, Eval.mapFault, Eval.nested]
  cases hlimit : l.filter (· < s.depth + 1) with
  | some n =>
    obtain ⟨hl, hn⟩ := Option.filter_eq_some_iff.1 hlimit
    have hdepth : n ≤ s.depth := Nat.le_of_lt_succ (by simpa using hn)
    exact ⟨_, [c.label], .refl, .refused hl hdepth, rfl, rfl⟩
  | none =>
    have hallowed (n : Nat) (hl : l = some n) : s.depth < n := by
      subst hl
      have hnot : ¬ n < s.depth + 1 := by simpa using hlimit
      omega
    have hgoes := h (⟨some c.label, next⟩ :: ws) { s with depth := s.depth + 1 }
    dsimp only
    cases hx : x { s with depth := s.depth + 1 } with
    | value v t =>
      rw [hx] at hgoes
      exact Relation.ReflTransGen.head (.enter hallowed) (Relation.ReflTransGen.tail hgoes .leave)
    | fault e t =>
      rw [hx] at hgoes
      obtain ⟨m, labels, hreaches, hfails, hstack, hstate⟩ := hgoes
      -- the label that the fault gets on its way out is the innermost one that was waiting
      refine ⟨m, labels ++ [c.label], .head (.enter hallowed) hreaches, ?_, ?_, ?_⟩
      · simpa [calls, Fault.leave] using hfails
      · simp [Fault.stack_leave, hstack]
      · exact congrArg (fun u : State => { u with depth := t.depth - 1 }) hstate
    | outOfFuel => trivial

theorem Plan.follows_body (heval : ∀ env form, (Job.eval env form).Follows l (ev env form))
    (env : Env Value) (forms : List Value) :
    (body env forms).Follows l (Eval.body ev env forms) := by
  induction forms with
  | nil => exact fun ws s => .refl
  | cons form forms ih =>
    cases forms with
    | nil => exact fun ws s => heval env form done ws s
    | cons next rest =>
      intro ws s
      exact GoesAs.bind (heval env form (fun _ => body env (next :: rest)) ws s) (fun _ _ => rfl)
        fun _ t => ih ws t

theorem Plan.follows_look {next : State → Plan Value}
    (h : ∀ ws s, GoesAs l ⟨next s, ws, s⟩ (fun v t => ⟨.done v, ws, t⟩) (x s)) :
    (look >>= next).Follows l x :=
  fun ws s => (h ws s).head .update rfl

/-- If evaluations go as they should, so do calls. -/
theorem Job.follows_invoke (heval : ∀ env form, (Job.eval env form).Follows l (ev env form))
    (c : Closure Value) (args : List Value) :
    (Job.call c args).Follows l (Eval.invoke l ev c args) := by
  rw [Plan.invoke_eq_run_enter (k := 0)]
  apply Job.follows_call
  rw [Plan.enter]
  cases Clause.select? c.clauses args.length with
  | some clause =>
    rw [Plan.run_body]
    exact Plan.follows_body heval _ _
  | none => exact fun ws s => ⟨_, [], .refl, .rule, rfl, rfl⟩

/-- If evaluations go as they should, so do expansions. -/
theorem Job.follows_expandFully (heval : ∀ env form, (Job.eval env form).Follows l (ev env form))
    (env : Env Value) (k : Nat) (form : Value) :
    (Job.expand env form).Follows l (Eval.expandFully l ev env k form) := by
  induction k generalizing form with
  | zero => exact fun _ _ _ => trivial
  | succ k ih =>
    refine follows_of_isPart (.expand env form) trivial (Plan.follows_look fun ws s => ?_)
    rw [← Plan.run_expand, Plan.expand, Plan.run_look]
    dsimp only
    cases s.registry.macroCall? env form with
    | none => exact .refl
    | some call =>
      simp only [Plan.run_bind, Plan.run_call, Plan.run_ask]
      exact GoesAs.bind (follows_invoke heval call.1 call.2 _ ws s) (fun _ _ => rfl)
        fun next t => ih next .done ws t

theorem Job.follows_run (heval : ∀ env form, (Job.eval env form).Follows l (ev env form))
    (k : Nat) (job : Job) : job.Follows l (job.run l ev k) := by
  cases job with
  | eval env form => exact heval env form
  | expand env form => exact follows_expandFully heval env k form
  | call c args => exact follows_invoke heval c args

/-- The runs of the evaluator. The induction is on its fuel. -/
theorem Job.follows_eval (l : Option Nat) (fuel : Nat) (env : Env Value) (form : Value) :
    (Job.eval env form).Follows l (Lisp.eval l fuel env form) := by
  induction fuel generalizing env form with
  | zero => exact fun _ _ _ => trivial
  | succ fuel ih =>
    apply follows_of_isPart (.eval env form) trivial
    rw [Lisp.eval, ← Plan.run_step]
    exact Plan.follows_run (fun job => follows_run ih fuel job) _

/-- What an evaluator can be asked for from outside. -/
inductive Request where
  | eval (env : Env Value) (form : Value)
  | body (env : Env Value) (forms : List Value)
  | apply (callee : Value) (args : List Value)
  | expandMacro (c : Closure Value) (args : List Value)
  | expandOnce (env : Env Value) (form : Value)
  | expandFully (env : Env Value) (form : Value)
  | template (env : Env Value) (v : Value)

namespace Request

def run (l : Option Nat) (fuel : Nat) : Request → Eval Value
  | eval env form => Lisp.eval l fuel env form
  | body env forms => Eval.body (Lisp.eval l fuel) env forms
  | apply callee args => Eval.apply l (Lisp.eval l fuel) callee args
  | expandMacro c args => Eval.invoke l (Lisp.eval l fuel) c args
  | expandOnce env form => Eval.expandOnce l (Lisp.eval l fuel) env form
  | expandFully env form => Eval.expandFully l (Lisp.eval l fuel) env fuel form
  | template env v => Eval.template (Lisp.eval l fuel) env v

def plan : Request → Plan Value
  | eval env form => .eval env form
  | body env forms => .body env forms
  | apply callee args => .apply callee args
  | expandMacro c args => .call c args
  | expandOnce env form => .expandOnce env form
  | expandFully env form => .ask (.expand env form) .done
  | template env v => .template env v

theorem run_plan (l : Option Nat) (fuel : Nat) (q : Request) :
    q.plan.run l (Lisp.eval l fuel) fuel = q.run l fuel := by
  cases q <;> simp [plan, run, Job.run]

def start (q : Request) (s : State) : Moment := ⟨q.plan, [], s⟩

/-- The run that answers a request comes to its value, or fails for the cause of its fault. -/
theorem goesAs (l : Option Nat) (fuel : Nat) (q : Request) (s : State) :
    GoesAs l (q.start s) (fun v t => ⟨.done v, [], t⟩) (q.run l fuel s) := by
  have hjobs (job : Job) : job.Follows l (job.run l (Lisp.eval l fuel) fuel) :=
    Job.follows_run (Job.follows_eval l fuel) fuel job
  rw [← run_plan]
  exact Plan.follows_run hjobs q.plan [] s

end Request

end Lisp
