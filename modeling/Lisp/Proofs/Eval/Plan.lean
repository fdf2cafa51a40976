import Lisp.Eval

/-!
# The rules of evaluation as plans

A plan spells out what a rule does: the jobs that it asks for, the built-in functions that it calls,
what it does to the state, and where it fails. It is a tree, so a run of it can be stopped anywhere
and looked at. Read as computations, the plans of this module are the rules of the evaluator.
-/

namespace Lisp

/-- Work that a rule leaves to another rule: to evaluate a form, to expand it fully, or to run a
closure. -/
inductive Job where
  | eval (env : Env Value) (form : Value)
  | expand (env : Env Value) (form : Value)
  | call (c : Closure Value) (args : List Value)

/-- What is left to do. No plan fails because calls nest too deep, and none changes their number:
both belong to the jobs. -/
inductive Plan (α : Type) where
  | done (a : α)
  | fail (c : Cause) (h : c.kind ≠ .tooDeep)
  | ask (job : Job) (next : Value → Plan α)
  | native (b : Builtin) (args : List Value) (next : Value → Plan α)
  | update (f : State → State) (h : ∀ s, (f s).depth = s.depth) (next : State → Plan α)

namespace Plan

variable {α β : Type}

/-- What follows a plan takes the place of its end. -/
protected def bind : Plan α → (α → Plan β) → Plan β
  | done a, k => k a
  | fail c h, _ => fail c h
  | ask job next, k => ask job fun v => (next v).bind k
  | native b args next, k => native b args fun v => (next v).bind k
  | update f h next, k => update f h fun s => (next s).bind k

instance : Monad Plan where
  pure := done
  bind := Plan.bind

def look : Plan State := update id (fun _ => rfl) done

def define (name : String) (v : Value) : Plan Unit :=
  update (fun s => { s with registry := s.registry.define name v }) (fun _ => rfl) fun _ => done ()

def freshName (base : String) : Plan String :=
  update (fun s => { s with drawn := s.drawn + 1 }) (fun _ => rfl) fun s =>
    done (base ++ "__" ++ Decimal.ofNat s.drawn)

def freshId : Plan Nat :=
  update (fun s => { s with born := s.born + 1 }) (fun _ => rfl) fun s => done s.born

def resolve (env : Env Value) (name : String) : Plan Value := do
  match (← look).registry.resolve? env name with
  | some v => return v
  | none => fail (.unbound name) nofun

def ofMalformed (f : SpecialForm) : Except Malformation α → Plan α
  | .ok a => done a
  | .error e => fail (.malformed f e) nofun

def wrongCount (f : SpecialForm) (n : Nat) (args : List Value) : Plan α :=
  fail (.malformed f (.argumentCount n args.length)) nofun

/-! ## Calls -/

def eval (env : Env Value) (form : Value) : Plan Value := ask (.eval env form) done

def call (c : Closure Value) (args : List Value) : Plan Value := ask (.call c args) done

def each (env : Env Value) : List Value → Plan (List Value)
  | [] => pure []
  | form :: forms => do
    let v ← eval env form
    return v :: (← each env forms)

def body (env : Env Value) : List Value → Plan Value
  | [] => pure .nil
  | [form] => eval env form
  | form :: forms => do
    let _ ← eval env form
    body env forms

/-- The plan of a call that the depth limit allows. -/
def enter (c : Closure Value) (args : List Value) : Plan Value :=
  match Clause.select? c.clauses args.length with
  | some clause => body (Eval.callEnv c clause.params args) clause.body
  | none => fail (.arity c.label args.length (Clause.describe c.clauses)) nofun

def callBuiltin (b : Builtin) (args : List Value) : Plan Value :=
  if b.arity.accepts args.length then native b args done
  else fail (.arity b.label args.length b.arity.text) nofun

def apply (callee : Value) (args : List Value) : Plan Value :=
  match callee with
  | .closure c =>
    match c.role with
    | .function => call c args
    | .expander => fail (.badCallee callee.display callee.typeName) nofun
  | .builtin b => callBuiltin b args
  | _ => fail (.badCallee callee.display callee.typeName) nofun

def operand (f : SpecialForm) : List Value → Plan Value
  | [_, v] => pure v
  | items => fail (.malformed f (.operandCount (items.length - 1))) nofun

def spliced : Value → Plan (List Value)
  | .seq _ items => pure items
  | .nil => pure []
  | v => fail (.malformed .splice (.badSplice v.typeName)) nofun

def rename (base name : String) (names : Renaming) : Plan (String × Renaming) :=
  match names.lookup name with
  | some fresh => pure (fresh, names)
  | none => do
    let fresh ← freshName base
    return (fresh, (name, fresh) :: names)

mutual

def fill (env : Env Value) (names : Renaming) : Value → Plan (Value × Renaming)
  | .symbol name =>
    match autoBase? name with
    | some base => do
      let (fresh, names) ← rename base name names
      return (.symbol fresh, names)
    | none => return (.symbol name, names)
  | .seq .list items =>
    if headIs .unquote items then do
      let form ← operand .unquote items
      return (← eval env form, names)
    else if headIs .splice items then fail (.malformed .splice .spliceAlone) nofun
    else if headIs .template items then return (.list items, names)
    else do
      let (filled, names) ← fillItems env names items
      return (.list filled, names)
  | .seq .vector items => do
    let (filled, names) ← fillItems env names items
    return (.vector filled, names)
  | v => return (v, names)

def fillItems (env : Env Value) (names : Renaming) : List Value → Plan (List Value × Renaming)
  | [] => return ([], names)
  | item :: rest =>
    match spliceList? item with
    | some items => do
      let form ← operand .splice items
      let now ← spliced (← eval env form)
      let (later, names) ← fillItems env names rest
      return (now ++ later, names)
    | none => do
      let (now, names) ← fill env names item
      let (later, names) ← fillItems env names rest
      return (now :: later, names)

end

def template (env : Env Value) (v : Value) : Plan Value := do
  return (← fill env [] v).1

def expandOnce (env : Env Value) (form : Value) : Plan Value := do
  match (← look).registry.macroCall? env form with
  | some (c, args) => call c args
  | none => return form

/-- One expansion, after which the job is asked for again. -/
def expand (env : Env Value) (form : Value) : Plan Value := do
  match (← look).registry.macroCall? env form with
  | some (c, args) => do
    let next ← call c args
    ask (.expand env next) done
  | none => return form

def closure (role : Role) (name : Option String) (clauses : List (Clause Value))
    (env : Env Value) : Plan Value := do
  return .closure ⟨role, ← freshId, name, clauses, env⟩

def evalDefine (env : Env Value) : List Value → Plan Value
  | [target, form] =>
    match target.symbol? with
    | none => fail (.malformed .define (.badName target.display)) nofun
    | some name => do
      let v ← eval env form
      define name v
      return v
  | args => wrongCount .define 2 args

def evalDefineClosure (f : SpecialForm) (role : Role) (env : Env Value) (args : List Value) :
    Plan Value := do
  let (name, tail) ← ofMalformed f (splitName args)
  let clauses ← ofMalformed f (Clause.parse tail)
  let v ← closure role (some name) clauses env
  define name v
  return v

def evalFunction (env : Env Value) (args : List Value) : Plan Value := do
  let (name, tail) := Eval.splitOptionalName args
  let clauses ← ofMalformed .function (Clause.parse tail)
  closure .function name clauses env

def bindAll (env : Env Value) : List Value → Plan (Env Value)
  | target :: form :: rest =>
    match target.symbol? with
    | none => fail (.malformed .bindLocals (.badBindingName target.display)) nofun
    | some name => do
      let v ← eval env form
      bindAll (env.set name v) rest
  | _ => return env

def evalLet (env : Env Value) : List Value → Plan Value
  | [] => fail (.malformed .bindLocals .missingBindings) nofun
  | bindings :: forms =>
    match bindings.items? with
    | none => fail (.malformed .bindLocals (.badBindings bindings.display)) nofun
    | some items =>
      if items.length % 2 = 0 then do
        let inner ← bindAll env.child items
        body inner forms
      else fail (.malformed .bindLocals .oddBindings) nofun

def evalBranch (env : Env Value) : List Value → Plan Value
  | [test, yes] => do
    if (← eval env test).truthy then eval env yes else return .nil
  | [test, yes, no] => do
    if (← eval env test).truthy then eval env yes else eval env no
  | args => fail (.malformed .branch (.branchCount args.length)) nofun

def evalSpecial (env : Env Value) (f : SpecialForm) (args : List Value) : Plan Value :=
  match f with
  | .define => evalDefine env args
  | .defineFunction => evalDefineClosure f .function env args
  | .function => evalFunction env args
  | .bindLocals => evalLet env args
  | .branch => evalBranch env args
  | .sequence => body env args
  | .defineMacro => evalDefineClosure f .expander env args
  | .quote =>
    match args with
    | [v] => return v
    | _ => wrongCount f 1 args
  | .template =>
    match args with
    | [v] => template env v
    | _ => wrongCount f 1 args
  | .unquote | .splice => fail (.malformed f .outsideTemplate) nofun
  | .expandOnce =>
    match args with
    | [form] => do expandOnce env (← eval env form)
    | _ => wrongCount f 1 args
  | .expandFully =>
    match args with
    | [form] => do ask (.expand env (← eval env form)) done
    | _ => wrongCount f 1 args
  | .evaluate =>
    match args with
    | [form] => do eval .empty (← eval env form)
    | _ => wrongCount f 1 args

def evalCall (env : Env Value) (head : Value) (args : List Value) : Plan Value := do
  let callee ← eval env head
  match callee with
  | .closure c =>
    match c.role with
    | .expander => do
      let expansion ← call c args
      eval env expansion
    | .function => do
      let vs ← each env args
      apply callee vs
  | .builtin _ => do
    let vs ← each env args
    apply callee vs
  | _ =>
    fail (.badOperator callee.display callee.typeName (Value.list (head :: args)).display) nofun

def step (env : Env Value) : Value → Plan Value
  | .symbol name => resolve env name
  | .vector items => do return .vector (← each env items)
  | .list [] => return .list []
  | .list (head :: args) =>
    match head.special? with
    | some f => evalSpecial env f args
    | none => evalCall env head args
  | v => return v

end Plan

def Job.plan : Job → Plan Value
  | eval env form => Plan.step env form
  | expand env form => Plan.expand env form
  | call c args => Plan.enter c args

/-! ## Plans as computations -/

/-- A job as the rules of the evaluator do it. Up to `k` expansions are made. -/
def Job.run (l : Option Nat) (ev : Evaluator) (k : Nat) : Job → Eval Value
  | eval env form => ev env form
  | expand env form => Eval.expandFully l ev env k form
  | call c args => Eval.invoke l ev c args

namespace Plan

variable {α β : Type} {l : Option Nat} {ev : Evaluator} {k : Nat}

def run (l : Option Nat) (ev : Evaluator) (k : Nat) : Plan α → Eval α
  | done a => pure a
  | fail c _ => Eval.fail c
  | ask job next => job.run l ev k >>= fun v => (next v).run l ev k
  | native b args next => Eval.within b.label (b.run args) >>= fun v => (next v).run l ev k
  | update f _ next => fun s => (next s).run l ev k (f s)

@[simp] theorem run_pure (a : α) : (pure a : Plan α).run l ev k = pure a := rfl

@[simp] theorem run_fail (c : Cause) (h : c.kind ≠ .tooDeep) :
    (fail c h : Plan α).run l ev k = Eval.fail c := rfl

@[simp] theorem run_bind (p : Plan α) (f : α → Plan β) :
    (p >>= f).run l ev k = p.run l ev k >>= fun a => (f a).run l ev k := by
  change (p.bind f).run l ev k = _
  induction p with
  | done a => rfl
  | fail c h => rfl
  | ask job next ih => simp only [Plan.bind, run, ih, bind_assoc]
  | native b args next ih => simp only [Plan.bind, run, ih, bind_assoc]
  | update g h next ih =>
    funext s
    exact congrFun (ih s) (g s)

@[simp] theorem run_ask (job : Job) : (ask job done).run l ev k = job.run l ev k :=
  bind_pure _

@[simp] theorem run_eval (env : Env Value) (form : Value) :
    (eval env form).run l ev k = ev env form := run_ask _

@[simp] theorem run_call (c : Closure Value) (args : List Value) :
    (call c args).run l ev k = Eval.invoke l ev c args := run_ask _

@[simp] theorem run_define (name : String) (v : Value) :
    (define name v).run l ev k = Eval.define name v := rfl

@[simp] theorem run_freshName (base : String) :
    (freshName base).run l ev k = Eval.freshName base := rfl

@[simp] theorem run_freshId : freshId.run l ev k = Eval.freshId := rfl

@[simp] theorem run_resolve (env : Env Value) (name : String) :
    (resolve env name).run l ev k = Eval.resolve env name := by
  funext s
  change (match s.registry.resolve? env name with
    | some v => (pure v : Plan Value)
    | none => fail (.unbound name) nofun).run l ev k s = _
  rw [Eval.resolve]
  cases s.registry.resolve? env name <;> rfl

@[simp] theorem run_ofMalformed (f : SpecialForm) (r : Except Malformation α) :
    (ofMalformed f r).run l ev k = Eval.ofMalformed f r := by
  cases r <;> rfl

@[simp] theorem run_wrongCount (f : SpecialForm) (n : Nat) (args : List Value) :
    (wrongCount f n args : Plan α).run l ev k = Eval.wrongCount f n args := rfl

@[simp] theorem run_each (env : Env Value) (forms : List Value) :
    (each env forms).run l ev k = Eval.each ev env forms := by
  induction forms with
  | nil => rfl
  | cons form forms ih => simp [each, Eval.each, ih]

@[simp] theorem run_body (env : Env Value) (forms : List Value) :
    (body env forms).run l ev k = Eval.body ev env forms := by
  induction forms with
  | nil => rfl
  | cons form forms ih =>
    cases forms with
    | nil => simp [body, Eval.body]
    | cons next rest => simp [body, Eval.body, ih]

/-- A call is its plan, one call deeper, in which faults record that they left it. -/
theorem invoke_eq_run_enter (c : Closure Value) (args : List Value) :
    Eval.invoke l ev c args =
      Eval.within c.label (Eval.nested l ((enter c args).run l ev k)) := by
  have henter : (enter c args).run l ev k =
      Eval.ofCause (Clause.choose c.label c.clauses args.length) >>= fun clause =>
        Eval.body ev (Eval.callEnv c clause.params args) clause.body := by
    rw [enter, Clause.choose]
    cases Clause.select? c.clauses args.length with
    | some clause => simp [Eval.ofCause]; rfl
    | none => rfl
  rw [henter]
  rfl

@[simp] theorem run_callBuiltin (b : Builtin) (args : List Value) :
    (callBuiltin b args).run l ev k = Eval.callBuiltin b args := by
  rw [callBuiltin, Eval.callBuiltin]
  split
  · exact bind_pure _
  · rfl

@[simp] theorem run_apply (callee : Value) (args : List Value) :
    (apply callee args).run l ev k = Eval.apply l ev callee args := by
  cases callee with
  | closure c =>
    simp only [apply, Eval.apply]
    cases c.role <;> simp
  | builtin b => exact run_callBuiltin b args
  | atom a => rfl
  | seq b items => rfl

@[simp] theorem run_operand (f : SpecialForm) (items : List Value) :
    (operand f items).run l ev k = Eval.operand f items := by
  rcases items with _ | ⟨head, _ | ⟨v, _ | ⟨next, rest⟩⟩⟩ <;> rfl

@[simp] theorem run_spliced (v : Value) : (spliced v).run l ev k = Eval.spliced v := by
  cases v with
  | atom a => cases a <;> rfl
  | _ => rfl

@[simp] theorem run_rename (base name : String) (names : Renaming) :
    (rename base name names).run l ev k = Eval.rename base name names := by
  rw [rename, Eval.rename]
  cases names.lookup name <;> simp

mutual

theorem run_fill (env : Env Value) (names : Renaming) (v : Value) :
    (fill env names v).run l ev k = Eval.fill ev env names v := by
  cases v with
  | atom a =>
    cases a with
    | symbol name =>
      simp only [fill, Eval.fill]
      cases autoBase? name <;> simp
    | _ => rfl
  | seq b items =>
    cases b with
    | list =>
      simp only [fill, Eval.fill]
      split
      · simp
      · split
        · rfl
        · split
          · rfl
          · simp [run_fillItems env names items]
    | vector => simp [fill, Eval.fill, run_fillItems env names items]
  | closure c => rfl
  | builtin b => rfl

theorem run_fillItems (env : Env Value) (names : Renaming) (items : List Value) :
    (fillItems env names items).run l ev k = Eval.fillItems ev env names items := by
  cases items with
  | nil => rfl
  | cons item rest =>
    have hrest (names : Renaming) := run_fillItems env names rest
    simp only [fillItems, Eval.fillItems]
    cases spliceList? item <;> simp [run_fill env names item, hrest]

end

@[simp] theorem run_template (env : Env Value) (v : Value) :
    (template env v).run l ev k = Eval.template ev env v := by
  simp [template, Eval.template, run_fill]

theorem run_look (f : State → Plan α) :
    (look >>= f).run l ev k = fun s => (f s).run l ev k s := rfl

@[simp] theorem run_expandOnce (env : Env Value) (form : Value) :
    (expandOnce env form).run l ev k = Eval.expandOnce l ev env form := by
  funext s
  rw [expandOnce, run_look, Eval.expandOnce, Eval.bind_of_value (rfl : Eval.registry s = _)]
  dsimp only
  cases s.registry.macroCall? env form <;> simp

theorem run_expand (env : Env Value) (form : Value) :
    (expand env form).run l ev k = Eval.expandFully l ev env (k + 1) form := by
  funext s
  rw [expand, run_look, Eval.expandFully, Eval.bind_of_value (rfl : Eval.registry s = _)]
  dsimp only
  cases s.registry.macroCall? env form <;> simp [Job.run]

@[simp] theorem run_closure (role : Role) (name : Option String) (clauses : List (Clause Value))
    (env : Env Value) :
    (closure role name clauses env).run l ev k = Eval.closure role name clauses env := by
  simp [closure, Eval.closure]

theorem run_evalDefine (env : Env Value) (args : List Value) :
    (evalDefine env args).run l ev k = Eval.evalDefine ev env args := by
  rcases args with _ | ⟨target, _ | ⟨form, _ | ⟨next, rest⟩⟩⟩
  case cons.cons.nil =>
    simp only [evalDefine, Eval.evalDefine]
    cases target.symbol? <;> simp
  all_goals rfl

theorem run_evalDefineClosure (f : SpecialForm) (role : Role) (env : Env Value)
    (args : List Value) :
    (evalDefineClosure f role env args).run l ev k = Eval.evalDefineClosure f role env args := by
  simp [evalDefineClosure, Eval.evalDefineClosure]

theorem run_evalFunction (env : Env Value) (args : List Value) :
    (evalFunction env args).run l ev k = Eval.evalFunction env args := by
  simp [evalFunction, Eval.evalFunction]

theorem run_bindAll (env : Env Value) (items : List Value) :
    (bindAll env items).run l ev k = Eval.bindAll ev env items := by
  fun_induction bindAll env items with
  | case1 env target form rest h => simp [Eval.bindAll, h]
  | case2 env target form rest name h ih => simp [Eval.bindAll, h, ih]
  | case3 items env h =>
    unfold Eval.bindAll
    split
    · exact absurd rfl (h _ _ _)
    · rfl

theorem run_evalLet (env : Env Value) (args : List Value) :
    (evalLet env args).run l ev k = Eval.evalLet ev env args := by
  cases args with
  | nil => rfl
  | cons bindings forms =>
    simp only [evalLet, Eval.evalLet]
    cases bindings.items? with
    | none => rfl
    | some items => by_cases h : items.length % 2 = 0 <;> simp [h, run_bindAll]

theorem run_evalBranch (env : Env Value) (args : List Value) :
    (evalBranch env args).run l ev k = Eval.evalBranch ev env args := by
  rcases args with _ | ⟨test, _ | ⟨yes, _ | ⟨no, _ | ⟨next, rest⟩⟩⟩⟩
  case cons.cons.nil => simp [evalBranch, Eval.evalBranch, apply_ite (run l ev k)]
  case cons.cons.cons.nil => simp [evalBranch, Eval.evalBranch, apply_ite (run l ev k)]
  all_goals rfl

theorem run_evalSpecial (env : Env Value) (f : SpecialForm) (args : List Value) :
    (evalSpecial env f args).run l ev k = Eval.evalSpecial l k ev env f args := by
  cases f <;> simp only [evalSpecial, Eval.evalSpecial]
  case define => exact run_evalDefine env args
  case defineFunction => exact run_evalDefineClosure _ _ env args
  case function => exact run_evalFunction env args
  case bindLocals => exact run_evalLet env args
  case branch => exact run_evalBranch env args
  case sequence => exact run_body env args
  case defineMacro => exact run_evalDefineClosure _ _ env args
  case unquote => rfl
  case splice => rfl
  all_goals
    rcases args with _ | ⟨form, _ | ⟨next, rest⟩⟩ <;> simp [Job.run]

theorem run_evalCall (env : Env Value) (head : Value) (args : List Value) :
    (evalCall env head args).run l ev k = Eval.evalCall l ev env head args := by
  simp only [evalCall, Eval.evalCall, run_bind, run_eval]
  congr 1
  funext callee
  cases callee with
  | closure c =>
    simp only
    cases c.role <;> simp
  | builtin b => simp
  | atom a => rfl
  | seq b items => rfl

/-- The plan of an evaluation is the step of the evaluator. -/
theorem run_step (env : Env Value) (form : Value) :
    (step env form).run l ev k = Eval.step l k ev env form := by
  cases form with
  | atom a =>
    cases a with
    | symbol name => exact run_resolve env name
    | _ => rfl
  | seq b items =>
    cases b with
    | list =>
      cases items with
      | nil => rfl
      | cons head args =>
        simp only [step, Eval.step]
        cases head.special? with
        | some f => exact run_evalSpecial env f args
        | none => exact run_evalCall env head args
    | vector => simp [step, Eval.step]
  | closure c => rfl
  | builtin b => rfl

end Plan

end Lisp
