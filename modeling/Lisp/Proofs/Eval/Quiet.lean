import Lisp.Proofs.Eval.Plan

/-!
# Rules that define names

Three special forms define a name, and they do so last: the name is defined as the value of the form.
Every other rule leaves the global definitions as they are, apart from what the jobs do that it asks
for.
-/

namespace Lisp

variable {α β : Type}

namespace Plan

/-- A plan that leaves the global definitions as they are, whatever its jobs do to them. -/
def Quiet : Plan α → Prop
  | done _ => True
  | fail _ _ => True
  | ask _ next => ∀ v, (next v).Quiet
  | native _ _ next => ∀ v, (next v).Quiet
  | update f _ next => (∀ s, (f s).registry = s.registry) ∧ ∀ s, (next s).Quiet

theorem Quiet.bind {p : Plan α} {f : α → Plan β} (hp : p.Quiet) (hf : ∀ a, (f a).Quiet) :
    (p >>= f).Quiet := by
  change (p.bind f).Quiet
  induction p with
  | done a => exact hf a
  | fail c h => trivial
  | ask job next ih => exact fun v => ih v (hp v)
  | native b args next ih => exact fun v => ih v (hp v)
  | update g h next ih => exact ⟨hp.1, fun s => ih s (hp.2 s)⟩

theorem quiet_ask (job : Job) : (ask job done).Quiet := fun _ => trivial

theorem quiet_look : look.Quiet := ⟨fun _ => rfl, fun _ => trivial⟩

theorem quiet_freshName (base : String) : (freshName base).Quiet := ⟨fun _ => rfl, fun _ => trivial⟩

theorem quiet_freshId : freshId.Quiet := ⟨fun _ => rfl, fun _ => trivial⟩

theorem quiet_resolve (env : Env Value) (name : String) : (resolve env name).Quiet := by
  apply quiet_look.bind
  intro s
  cases s.registry.resolve? env name <;> trivial

theorem quiet_ofMalformed (f : SpecialForm) (r : Except Malformation α) :
    (ofMalformed f r).Quiet := by
  cases r <;> trivial

theorem quiet_each (env : Env Value) (forms : List Value) : (each env forms).Quiet := by
  induction forms with
  | nil => trivial
  | cons form forms ih => exact (quiet_ask _).bind fun _ => ih.bind fun _ => trivial

theorem quiet_body (env : Env Value) (forms : List Value) : (body env forms).Quiet := by
  induction forms with
  | nil => trivial
  | cons form forms ih =>
    cases forms with
    | nil => exact quiet_ask _
    | cons next rest => exact (quiet_ask _).bind fun _ => ih

theorem quiet_apply (callee : Value) (args : List Value) : (apply callee args).Quiet := by
  cases callee with
  | closure c =>
    simp only [apply]
    cases c.role with
    | function => exact quiet_ask _
    | expander => trivial
  | builtin b =>
    simp only [apply, callBuiltin]
    split
    · exact fun _ => trivial
    · trivial
  | atom a => trivial
  | seq b items => trivial

theorem quiet_operand (f : SpecialForm) (items : List Value) : (operand f items).Quiet := by
  unfold operand
  split <;> trivial

theorem quiet_spliced (v : Value) : (spliced v).Quiet := by
  unfold spliced
  split <;> trivial

theorem quiet_rename (base name : String) (names : Renaming) : (rename base name names).Quiet := by
  unfold rename
  split
  · trivial
  · exact (quiet_freshName base).bind fun _ => trivial

mutual

theorem quiet_fill (env : Env Value) (names : Renaming) (v : Value) :
    (fill env names v).Quiet := by
  cases v with
  | atom a =>
    cases a with
    | symbol name =>
      simp only [fill]
      split
      · exact (quiet_rename _ _ _).bind fun _ => trivial
      · trivial
    | _ => trivial
  | seq b items =>
    cases b with
    | list =>
      simp only [fill]
      split
      · exact (quiet_operand _ _).bind fun _ => (quiet_ask _).bind fun _ => trivial
      · split
        · trivial
        · split
          · trivial
          · exact (quiet_fillItems env names items).bind fun _ => trivial
    | vector =>
      simp only [fill]
      exact (quiet_fillItems env names items).bind fun _ => trivial
  | closure c => trivial
  | builtin b => trivial

theorem quiet_fillItems (env : Env Value) (names : Renaming) (items : List Value) :
    (fillItems env names items).Quiet := by
  cases items with
  | nil => trivial
  | cons item rest =>
    simp only [fillItems]
    split
    · apply (quiet_operand _ _).bind
      intro form
      apply (quiet_ask _).bind
      intro v
      apply (quiet_spliced v).bind
      intro now
      exact (quiet_fillItems env names rest).bind fun _ => trivial
    · apply (quiet_fill env names item).bind
      intro filled
      exact (quiet_fillItems env filled.2 rest).bind fun _ => trivial

end

theorem quiet_template (env : Env Value) (v : Value) : (template env v).Quiet :=
  (quiet_fill env [] v).bind fun _ => trivial

theorem quiet_expandOnce (env : Env Value) (form : Value) : (expandOnce env form).Quiet := by
  apply quiet_look.bind
  intro s
  cases s.registry.macroCall? env form with
  | none => trivial
  | some call => exact quiet_ask _

theorem quiet_closure (role : Role) (name : Option String) (clauses : List (Clause Value))
    (env : Env Value) : (closure role name clauses env).Quiet :=
  quiet_freshId.bind fun _ => trivial

theorem quiet_bindAll (env : Env Value) (items : List Value) : (bindAll env items).Quiet := by
  fun_induction bindAll env items with
  | case1 env target form rest h => trivial
  | case2 env target form rest name h ih => exact (quiet_ask _).bind ih
  | case3 items env h => trivial

theorem quiet_evalLet (env : Env Value) (args : List Value) : (evalLet env args).Quiet := by
  unfold evalLet
  split
  · trivial
  · split
    · trivial
    · split
      · exact (quiet_bindAll _ _).bind fun inner => quiet_body inner _
      · trivial

theorem quiet_evalBranch (env : Env Value) (args : List Value) : (evalBranch env args).Quiet := by
  unfold evalBranch
  split
  · apply (quiet_ask _).bind
    intro test
    split
    · exact quiet_ask _
    · trivial
  · apply (quiet_ask _).bind
    intro test
    split <;> exact quiet_ask _
  · trivial

theorem quiet_evalCall (env : Env Value) (head : Value) (args : List Value) :
    (evalCall env head args).Quiet := by
  apply (quiet_ask _).bind
  intro callee
  cases callee with
  | closure c =>
    simp only
    cases c.role with
    | expander => exact (quiet_ask _).bind fun _ => quiet_ask _
    | function => exact (quiet_each env args).bind fun vs => quiet_apply _ vs
  | builtin b => exact (quiet_each env args).bind fun vs => quiet_apply _ vs
  | atom a => trivial
  | seq b items => trivial

end Plan

def SpecialForm.isDefinition : SpecialForm → Bool
  | define | defineFunction | defineMacro => true
  | _ => false

def Value.definedName? : Value → Option String
  | .list (head :: args) =>
    if head.special?.any (·.isDefinition) then args.head?.bind symbol? else none
  | _ => none

namespace Plan

/-- Defines a name as the value that a plan comes to, which stays the value. -/
def thenDefine (q : Plan Value) (name : String) : Plan Value := do
  let v ← q
  define name v
  return v

theorem run_thenDefine {l : Option Nat} {ev : Evaluator} {k : Nat} (q : Plan Value)
    (name : String) :
    (q.thenDefine name).run l ev k = q.run l ev k >>= fun v => do
      Eval.define name v
      return v := by
  simp [thenDefine]

theorem evalDefine_eq_thenDefine (env : Env Value) {target : Value} {rest : List Value}
    {name : String} (h : target.symbol? = some name) :
    ∃ q : Plan Value, q.Quiet ∧ evalDefine env (target :: rest) = q.thenDefine name := by
  rcases rest with _ | ⟨form, _ | ⟨next, rest⟩⟩
  · exact ⟨wrongCount .define 2 [target], trivial, rfl⟩
  · refine ⟨eval env form, quiet_ask _, ?_⟩
    simp only [evalDefine, h]
    rfl
  · exact ⟨wrongCount .define 2 (target :: form :: next :: rest), trivial, rfl⟩

theorem quiet_evalDefine (env : Env Value) {args : List Value}
    (h : args.head?.bind Value.symbol? = none) : (evalDefine env args).Quiet := by
  rcases args with _ | ⟨target, _ | ⟨form, _ | ⟨next, rest⟩⟩⟩
  case cons.cons.nil =>
    have htarget : target.symbol? = none := h
    simp only [evalDefine, htarget]
    trivial
  all_goals trivial

theorem splitName_symbol {target : Value} {name : String} (h : target.symbol? = some name)
    (rest : List Value) : ∃ tail, splitName (target :: rest) = .ok (name, tail) := by
  unfold Value.symbol? at h
  split at h
  · cases h
    unfold splitName
    split
    · rename_i hargs
      cases hargs
    · rename_i hargs
      cases hargs
      exact ⟨_, rfl⟩
    · rename_i hargs
      cases hargs
      exact ⟨_, rfl⟩
    · rename_i hsymbol hargs
      cases hargs
      exact absurd rfl (hsymbol _)
  · cases h

theorem evalDefineClosure_eq_thenDefine (f : SpecialForm) (role : Role) (env : Env Value)
    {target : Value} {rest : List Value} {name : String} (h : target.symbol? = some name) :
    ∃ q : Plan Value, q.Quiet ∧
      evalDefineClosure f role env (target :: rest) = q.thenDefine name := by
  obtain ⟨tail, htail⟩ := splitName_symbol h rest
  refine ⟨ofMalformed f (Clause.parse tail) >>= fun clauses => closure role (some name) clauses env,
    (quiet_ofMalformed f _).bind fun clauses => quiet_closure _ _ clauses env, ?_⟩
  rw [evalDefineClosure, htail]
  change (ofMalformed f (Clause.parse tail) >>= fun clauses =>
    (closure role (some name) clauses env).thenDefine name) = _
  cases Clause.parse tail <;> rfl

theorem quiet_evalDefineClosure (f : SpecialForm) (role : Role) (env : Env Value)
    {args : List Value} (h : args.head?.bind Value.symbol? = none) :
    (evalDefineClosure f role env args).Quiet := by
  have hname : ∃ e, splitName args = .error e := by
    unfold splitName
    split <;> simp_all [Value.symbol?]
  obtain ⟨e, he⟩ := hname
  rw [evalDefineClosure, he]
  trivial

theorem quiet_evalSpecial (env : Env Value) {f : SpecialForm} {args : List Value}
    (h : f.isDefinition = true → args.head?.bind Value.symbol? = none) :
    (evalSpecial env f args).Quiet := by
  cases f <;> simp only [evalSpecial]
  case define => exact quiet_evalDefine env (h rfl)
  case defineFunction => exact quiet_evalDefineClosure _ _ env (h rfl)
  case function => exact (quiet_ofMalformed _ _).bind fun clauses => quiet_closure _ _ clauses env
  case bindLocals => exact quiet_evalLet env args
  case branch => exact quiet_evalBranch env args
  case sequence => exact quiet_body env args
  case defineMacro => exact quiet_evalDefineClosure _ _ env (h rfl)
  case quote => split <;> trivial
  case template =>
    split
    · exact quiet_template env _
    · trivial
  case unquote => trivial
  case splice => trivial
  case expandOnce =>
    split
    · exact (quiet_ask _).bind fun form => quiet_expandOnce env form
    · trivial
  case expandFully =>
    split
    · exact (quiet_ask _).bind fun form => quiet_ask _
    · trivial
  case evaluate =>
    split
    · exact (quiet_ask _).bind fun form => quiet_ask _
    · trivial

/-- A form that is no definition changes the global definitions only through its parts. -/
theorem quiet_step (env : Env Value) {form : Value} (h : form.definedName? = none) :
    (step env form).Quiet := by
  cases form with
  | atom a =>
    cases a with
    | symbol name => exact quiet_resolve env name
    | _ => trivial
  | seq b items =>
    cases b with
    | list =>
      cases items with
      | nil => trivial
      | cons head args =>
        simp only [step]
        cases hhead : head.special? with
        | none => exact quiet_evalCall env head args
        | some f =>
          apply quiet_evalSpecial env
          intro hf
          simpa [Value.definedName?, hhead, hf] using h
    | vector => exact (quiet_each env items).bind fun _ => trivial
  | closure c => trivial
  | builtin b => trivial

/-- A form that defines a name does so last, as its value. -/
theorem step_eq_thenDefine (env : Env Value) {form : Value} {name : String}
    (h : form.definedName? = some name) :
    ∃ q : Plan Value, q.Quiet ∧ step env form = q.thenDefine name := by
  unfold Value.definedName? at h
  split at h
  · rename_i head args
    obtain ⟨hhead, htarget⟩ := Option.ite_none_right_eq_some.1 h
    obtain ⟨target, rest, rfl⟩ : ∃ target rest, args = target :: rest := by
      cases args with
      | nil => cases htarget
      | cons target rest => exact ⟨target, rest, rfl⟩
    have hname : target.symbol? = some name := htarget
    cases hf : head.special? with
    | none =>
      rw [hf] at hhead
      cases hhead
    | some f =>
      rw [hf] at hhead
      simp only [step, hf]
      cases f
      case define => exact evalDefine_eq_thenDefine env hname
      case defineFunction => exact evalDefineClosure_eq_thenDefine _ _ env hname
      case defineMacro => exact evalDefineClosure_eq_thenDefine _ _ env hname
      all_goals cases hhead
  · cases h

end Plan

end Lisp
