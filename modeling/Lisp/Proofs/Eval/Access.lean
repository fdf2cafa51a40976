import Lisp.Eval
import Lisp.Line
import Lisp.Proofs.Builtin.Access

/-!
# An evaluator that asks for everything by its place

The rules look at the arguments of a special form by their places, cut the last character off a
symbol, and bind names to the arguments with the same places. Here each rule asks for what it needs
and goes wrong if that is not there, in whatever way it likes. It never goes wrong: the checks that
come first see to it.
-/

namespace Lisp

namespace Line

/-- The first characters, as many as take just so many bytes. There are none such if the last byte
is inside a character or beyond the end. -/
def takeBytes? : List Char → Nat → Option (List Char)
  | _, 0 => some []
  | [], _ + 1 => none
  | c :: cs, n + 1 =>
    if c.utf8Size ≤ n + 1 then (takeBytes? cs (n + 1 - c.utf8Size)).map (c :: ·) else none

theorem byteSize_append (cs ds : List Char) : byteSize (cs ++ ds) = byteSize cs + byteSize ds := by
  induction cs with
  | nil => simp [byteSize]
  | cons c cs ih => simp [byteSize, ih, Nat.add_assoc]

theorem takeBytes?_byteSize_append (cs rest : List Char) :
    takeBytes? (cs ++ rest) (byteSize cs) = some cs := by
  induction cs with
  | nil => cases rest <;> rfl
  | cons c cs ih =>
    have hc := c.utf8Size_pos
    obtain ⟨n, hn⟩ : ∃ n, c.utf8Size + byteSize cs = n + 1 :=
      ⟨c.utf8Size + byteSize cs - 1, by omega⟩
    rw [byteSize, hn, List.cons_append, takeBytes?, if_pos (by omega),
      show n + 1 - c.utf8Size = byteSize cs by omega, ih, Option.map_some]

end Line

namespace Eval.Access

variable {α : Type}

/-- Binds each name to the argument at the same place, and the last name to the list of those from
the next place on. -/
def bind? (p : Params) (env : Env Value) (args : List Value) : Option (Env Value) := do
  let named ← p.names.zipIdx.foldlM (fun e b => return e.set b.1 (← args[b.2]?)) env
  match p.rest with
  | some name => return named.set name (.list (← partFrom p.names.length args))
  | none => return named

/-- Whether a symbol stands for a generated name: something comes before the mark at its end. -/
def isAuto (name : String) : Bool :=
  1 < Line.byteSize name.toList && name.toList.getLast? == some '#'

/-- A symbol without the byte at its end. -/
def dropMark? (name : String) : Option String :=
  (Line.takeBytes? name.toList (Line.byteSize name.toList - 1)).map String.ofList

variable (stop : Eval Empty)

/-- Something that has to be there. -/
def demand : Option α → Eval α
  | some a => pure a
  | none => stop >>= Empty.elim

/-- Runs a closure: takes the clause that fits and evaluates its body. -/
def invoke (limit : Option Nat) (ev : Evaluator) (c : Closure Value) (args : List Value) :
    Eval Value :=
  within c.label <| nested limit do
    let clause ← ofCause (Clause.choose c.label c.clauses args.length)
    let env := c.scope.child
    let env := match c.name with
      | some name => env.set name (.closure c)
      | none => env
    body ev (← demand stop (bind? clause.params env args)) clause.body

def perform (b : Builtin) (args : List Value) : Eval Value :=
  match b with
  | .gensym | .print | .println | .native _ => b.run args
  | b => do ofCause ((← demand stop (b.use args).run).mapError .builtin)

def callBuiltin (b : Builtin) (args : List Value) : Eval Value :=
  if b.arity.accepts args.length then within b.label (perform stop b args)
  else fail (.arity b.label args.length b.arity.text)

def apply (limit : Option Nat) (ev : Evaluator) (callee : Value) (args : List Value) :
    Eval Value :=
  match callee with
  | .closure c =>
    match c.role with
    | .function => invoke stop limit ev c args
    | .expander => fail (.badCallee callee.display callee.typeName)
  | .builtin b => callBuiltin stop b args
  | _ => fail (.badCallee callee.display callee.typeName)

def expandOnce (limit : Option Nat) (ev : Evaluator) (env : Env Value) (form : Value) :
    Eval Value := do
  match (← registry).macroCall? env form with
  | some (c, args) => invoke stop limit ev c args
  | none => return form

def expandFully (limit : Option Nat) (ev : Evaluator) (env : Env Value) : Nat → Value → Eval Value
  | 0, _ => outOfFuel
  | fuel + 1, form => do
    match (← registry).macroCall? env form with
    | some (c, args) => do
      let next ← invoke stop limit ev c args
      expandFully limit ev env fuel next
    | none => return form

/-- The generated name for a symbol. The mark is cut off when the name is drawn. -/
def rename (name : String) (names : Renaming) : Eval (String × Renaming) :=
  match names.lookup name with
  | some fresh => pure (fresh, names)
  | none => do
    let fresh ← freshName (← demand stop (dropMark? name))
    return (fresh, (name, fresh) :: names)

mutual

def fill (ev : Evaluator) (env : Env Value) (names : Renaming) : Value → Eval (Value × Renaming)
  | .symbol name =>
    if isAuto name then do
      let (fresh, names) ← rename stop name names
      return (.symbol fresh, names)
    else return (.symbol name, names)
  | .seq .list items =>
    if headIs .unquote items then do
      let form ← operand .unquote items
      return (← ev env form, names)
    else if headIs .splice items then fail (.malformed .splice .spliceAlone)
    else if headIs .template items then return (.list items, names)
    else do
      let (filled, names) ← fillItems ev env names items
      return (.list filled, names)
  | .seq .vector items => do
    let (filled, names) ← fillItems ev env names items
    return (.vector filled, names)
  | v => return (v, names)

def fillItems (ev : Evaluator) (env : Env Value) (names : Renaming) :
    List Value → Eval (List Value × Renaming)
  | [] => return ([], names)
  | item :: rest =>
    match spliceList? item with
    | some items => do
      let form ← operand .splice items
      let now ← spliced (← ev env form)
      let (later, names) ← fillItems ev env names rest
      return (now ++ later, names)
    | none => do
      let (now, names) ← fill ev env names item
      let (later, names) ← fillItems ev env names rest
      return (now :: later, names)

end

def template (ev : Evaluator) (env : Env Value) (v : Value) : Eval Value := do
  return (← fill stop ev env [] v).1

def expect (f : SpecialForm) (n : Nat) (args : List Value) : Eval Unit :=
  if args.length = n then pure () else wrongCount f n args

def only (f : SpecialForm) (args : List Value) : Eval Value := do
  expect f 1 args
  demand stop args[0]?

def evalDefine (ev : Evaluator) (env : Env Value) (args : List Value) : Eval Value := do
  expect .define 2 args
  match (← demand stop args[0]?).symbol? with
  | none => fail (.malformed .define (.badName (← demand stop args[0]?).display))
  | some name => do
    let v ← ev env (← demand stop args[1]?)
    define name v
    return v

def parse (f : SpecialForm) (items : List Value) : Eval (List (Clause Value)) :=
  match items.head? with
  | none => ofMalformed f (.error .missingParams)
  | some v =>
    if Clause.opens v then ofMalformed f (Clause.ofValues items)
    else do
      let params ← ofMalformed f (Params.ofValue v)
      return [⟨params, ← demand stop (partFrom 1 items)⟩]

def evalDefineClosure (f : SpecialForm) (role : Role) (env : Env Value) (args : List Value) :
    Eval Value := do
  let (name, tail) ← ofMalformed f (splitName args)
  let clauses ← parse stop f tail
  let v ← closure role (some name) clauses env
  define name v
  return v

def evalFunction (env : Env Value) (args : List Value) : Eval Value := do
  let (name, tail) := splitOptionalName args
  let clauses ← parse stop .function tail
  closure .function name clauses env

/-- Evaluates one of two forms. A second one that is not there counts as `nil`. -/
def evalBranch (ev : Evaluator) (env : Env Value) (args : List Value) : Eval Value :=
  if 2 ≤ args.length ∧ args.length ≤ 3 then do
    if (← ev env (← demand stop args[0]?)).truthy then do ev env (← demand stop args[1]?)
    else match args[2]? with
      | some no => ev env no
      | none => return .nil
  else fail (.malformed .branch (.branchCount args.length))

def evalSpecial (limit : Option Nat) (fuel : Nat) (ev : Evaluator) (env : Env Value)
    (f : SpecialForm) (args : List Value) : Eval Value :=
  match f with
  | .define => evalDefine stop ev env args
  | .defineFunction => evalDefineClosure stop f .function env args
  | .function => evalFunction stop env args
  | .bindLocals => evalLet ev env args
  | .branch => evalBranch stop ev env args
  | .sequence => body ev env args
  | .defineMacro => evalDefineClosure stop f .expander env args
  | .quote => only stop f args
  | .template => do template stop ev env (← only stop f args)
  | .unquote | .splice => fail (.malformed f .outsideTemplate)
  | .expandOnce => do expandOnce stop limit ev env (← ev env (← only stop f args))
  | .expandFully => do expandFully stop limit ev env fuel (← ev env (← only stop f args))
  | .evaluate => do ev .empty (← ev env (← only stop f args))

/-- Calls what the head of a list means: a macro with the forms, a function with their values. -/
def evalCall (limit : Option Nat) (ev : Evaluator) (env : Env Value) (head : Value)
    (args : List Value) : Eval Value := do
  let callee ← ev env head
  match callee with
  | .closure c =>
    match c.role with
    | .expander => do
      let expansion ← invoke stop limit ev c args
      ev env expansion
    | .function => do
      let vs ← each ev env args
      apply stop limit ev callee vs
  | .builtin _ => do
    let vs ← each ev env args
    apply stop limit ev callee vs
  | _ =>
    fail (.badOperator callee.display callee.typeName (Value.list (head :: args)).display)

/-- One step of evaluation. The parts of the form are left to `ev`. -/
def step (limit : Option Nat) (fuel : Nat) (ev : Evaluator) (env : Env Value) :
    Value → Eval Value
  | .symbol name => resolve env name
  | .vector items => do return .vector (← each ev env items)
  | .list [] => return .list []
  | .list (head :: args) =>
    match head.special? with
    | some f => evalSpecial stop limit fuel ev env f args
    | none => evalCall stop limit ev env head args
  | v => return v

def eval (limit : Option Nat) : Nat → Evaluator
  | 0 => fun _ _ => outOfFuel
  | fuel + 1 => step stop limit fuel (eval limit fuel)

/-! ## Everything is there -/

theorem demand_some (a : α) : demand stop (some a) = pure a := rfl

/-- The names stand at the places after the arguments that were bound before them. -/
theorem foldlM_zipIdx_set (names : List String) (env : Env Value) (before args : List Value)
    (h : names.length ≤ args.length) :
    ((names.zipIdx before.length).foldlM
      (fun e b => return e.set b.1 (← (before ++ args)[b.2]?)) env : Option (Env Value)) =
      some ((names.zip args).foldl (fun e b => e.set b.1 b.2) env) := by
  induction names generalizing env before args with
  | nil => rfl
  | cons name names ih =>
    cases args with
    | nil => simp at h
    | cons v args =>
      have hrest := ih (env.set name v) (before ++ [v]) args (by simpa using h)
      simpa using hrest

theorem bind?_eq {p : Params} {args : List Value} (h : p.names.length ≤ args.length)
    (env : Env Value) : bind? p env args = some (p.bind .list env args) := by
  have hnamed := foldlM_zipIdx_set p.names env [] args h
  rw [bind?, Params.bind]
  simp only [List.length_nil, List.nil_append] at hnamed
  rw [hnamed]
  cases p.rest with
  | none => rfl
  | some name => simp [partFrom_of_le h]

theorem length_le_of_choose {label : String} {clauses : List (Clause Value)} {n : Nat}
    {clause : Clause Value} (h : Clause.choose label clauses n = .ok clause) :
    clause.params.names.length ≤ n := by
  rw [Clause.choose] at h
  split at h
  · rename_i hselect
    cases h
    obtain ⟨i, hi, hclause⟩ := Option.bind_eq_some_iff.1 hselect
    rw [Clause.selectIdx?] at hi
    split at hi
    · rename_i hfixed
      cases hi
      have hfits := List.of_findIdx?_eq_some hfixed
      simp only [hclause, Bool.and_eq_true, beq_iff_eq] at hfits
      exact Nat.le_of_eq hfits.2
    · have hfits := List.of_findIdx?_eq_some hi
      simp only [hclause, Bool.and_eq_true, decide_eq_true_eq] at hfits
      exact hfits.2
  · cases h

/-- The clause that a call takes has no more names than there are arguments. -/
theorem invoke_eq (limit : Option Nat) (ev : Evaluator) (c : Closure Value) (args : List Value) :
    invoke stop limit ev c args = Eval.invoke limit ev c args := by
  rw [invoke, Eval.invoke]
  cases h : Clause.choose c.label c.clauses args.length with
  | error e => rfl
  | ok clause =>
    change within c.label (nested limit (demand stop (bind? clause.params _ args) >>= fun env =>
      body ev env clause.body)) = _
    rw [bind?_eq (length_le_of_choose h)]
    rfl

theorem perform_eq {b : Builtin} {args : List Value} (h : b.arity.accepts args.length = true) :
    perform stop b args = b.run args := by
  have huse := Builtin.use_eq h
  cases b with
  | gensym | print | println | native => rfl
  | _ =>
    -- the functions without effects
    simp only [perform]
    rw [huse]
    rfl

theorem callBuiltin_eq (b : Builtin) (args : List Value) :
    callBuiltin stop b args = Eval.callBuiltin b args := by
  rw [callBuiltin, Eval.callBuiltin]
  split
  · rename_i haccepts
    rw [perform_eq stop haccepts]
  · rfl

theorem apply_eq (limit : Option Nat) (ev : Evaluator) (callee : Value) (args : List Value) :
    apply stop limit ev callee args = Eval.apply limit ev callee args := by
  cases callee with
  | closure c =>
    simp only [apply, invoke_eq]
    rfl
  | builtin b => exact callBuiltin_eq stop b args
  | atom a => rfl
  | seq b items => rfl

theorem expandOnce_eq (limit : Option Nat) (ev : Evaluator) (env : Env Value) (form : Value) :
    expandOnce stop limit ev env form = Eval.expandOnce limit ev env form := by
  simp only [expandOnce, invoke_eq]
  rfl

theorem expandFully_eq (limit : Option Nat) (ev : Evaluator) (env : Env Value) (fuel : Nat)
    (form : Value) :
    expandFully stop limit ev env fuel form = Eval.expandFully limit ev env fuel form := by
  induction fuel generalizing form with
  | zero => rfl
  | succ fuel ih =>
    simp only [expandFully, invoke_eq, ih]
    rfl

/-- A symbol stands for a generated name by its last byte exactly if it does by its last character,
and then the byte can be cut off. -/
theorem isAuto_cases (name : String) :
    (isAuto name = false ∧ autoBase? name = none) ∨
    ∃ base, isAuto name = true ∧ autoBase? name = some base ∧ dropMark? name = some base := by
  rw [isAuto, autoBase?, dropMark?]
  generalize name.toList = cs
  obtain rfl | ⟨cs, c, rfl⟩ := List.eq_nil_or_concat' cs
  · exact Or.inl ⟨rfl, rfl⟩
  · rw [List.getLast?_concat, List.reverse_concat]
    by_cases hc : c = '#'
    · subst hc
      have hsize : Line.byteSize (cs ++ ['#']) = Line.byteSize cs + 1 := Line.byteSize_append _ _
      rw [hsize, Nat.add_sub_cancel, Line.takeBytes?_byteSize_append]
      obtain rfl | ⟨ds, d, rfl⟩ := List.eq_nil_or_concat' cs
      · exact Or.inl ⟨rfl, rfl⟩
      · have hpos : 0 < Line.byteSize (ds ++ [d]) := by
          rw [Line.byteSize_append]
          exact Nat.add_pos_right _ (Nat.add_pos_left d.utf8Size_pos _)
        exact Or.inr ⟨String.ofList (ds ++ [d]), by simp [hpos], by simp, rfl⟩
    · refine Or.inl ⟨by simp [hc], ?_⟩
      split
      · simp_all
      · rfl

theorem rename_eq {name base : String} (hdrop : dropMark? name = some base) (names : Renaming) :
    rename stop name names = Eval.rename base name names := by
  rw [rename, Eval.rename, hdrop]
  rfl

mutual

theorem fill_eq (ev : Evaluator) (env : Env Value) (names : Renaming) (v : Value) :
    fill stop ev env names v = Eval.fill ev env names v := by
  cases v with
  | atom a =>
    cases a with
    | symbol name =>
      rw [fill, Eval.fill]
      obtain ⟨hauto, hbase⟩ | ⟨base, hauto, hbase, hdrop⟩ := isAuto_cases name
      · rw [hauto, hbase]
        rfl
      · rw [hauto, hbase, rename_eq stop hdrop]
        rfl
    | _ => rfl
  | seq b items =>
    cases b with
    | list =>
      rw [fill, Eval.fill, fillItems_eq ev env names items]
    | vector =>
      rw [fill, Eval.fill, fillItems_eq ev env names items]
  | closure c => rfl
  | builtin b => rfl

theorem fillItems_eq (ev : Evaluator) (env : Env Value) (names : Renaming) (items : List Value) :
    fillItems stop ev env names items = Eval.fillItems ev env names items := by
  cases items with
  | nil => rfl
  | cons item rest =>
    have hrest := fun names => fillItems_eq ev env names rest
    rw [fillItems, Eval.fillItems]
    cases spliceList? item with
    | some marked => simp only [hrest]
    | none => simp only [hrest, fill_eq ev env names item]

end

theorem template_eq (ev : Evaluator) (env : Env Value) (v : Value) :
    template stop ev env v = Eval.template ev env v := by
  rw [template, Eval.template, fill_eq]

theorem only_bind (f : SpecialForm) (args : List Value) (rule : Value → Eval Value) :
    only stop f args >>= rule = match args with
      | [v] => rule v
      | _ => wrongCount f 1 args := by
  match args with
  | [] | [_] => rfl
  | v :: w :: rest =>
    rw [only, expect, if_neg (by simp)]
    rfl

theorem evalDefine_eq (ev : Evaluator) (env : Env Value) (args : List Value) :
    evalDefine stop ev env args = Eval.evalDefine ev env args := by
  match args with
  | [target, form] => rfl
  | [] | [_] => rfl
  | v :: w :: u :: rest =>
    rw [evalDefine, expect, if_neg (by simp)]
    rfl

theorem parse_eq (f : SpecialForm) (items : List Value) :
    parse stop f items = ofMalformed f (Clause.parse items) := by
  cases items with
  | nil => rfl
  | cons v vs =>
    simp only [parse, Clause.parse, partFrom_one_cons, List.head?_cons]
    split
    · rfl
    · cases Params.ofValue v <;> rfl

theorem evalDefineClosure_eq (f : SpecialForm) (role : Role) (env : Env Value)
    (args : List Value) :
    evalDefineClosure stop f role env args = Eval.evalDefineClosure f role env args := by
  simp only [evalDefineClosure, parse_eq]
  rfl

theorem evalFunction_eq (env : Env Value) (args : List Value) :
    evalFunction stop env args = Eval.evalFunction env args := by
  simp only [evalFunction, parse_eq]
  rfl

theorem evalBranch_eq (ev : Evaluator) (env : Env Value) (args : List Value) :
    evalBranch stop ev env args = Eval.evalBranch ev env args := by
  match args with
  | [] | [_] => rfl
  | [test, yes] => rfl
  | [test, yes, no] => rfl
  | _ :: _ :: _ :: _ :: rest =>
    rw [evalBranch, if_neg (by simp)]
    rfl

theorem evalSpecial_eq (limit : Option Nat) (fuel : Nat) (ev : Evaluator) (env : Env Value)
    (f : SpecialForm) (args : List Value) :
    evalSpecial stop limit fuel ev env f args = Eval.evalSpecial limit fuel ev env f args := by
  cases f with
  | define => exact evalDefine_eq stop ev env args
  | defineFunction => exact evalDefineClosure_eq stop _ _ env args
  | function => exact evalFunction_eq stop env args
  | bindLocals | sequence | unquote | splice => rfl
  | branch => exact evalBranch_eq stop ev env args
  | defineMacro => exact evalDefineClosure_eq stop _ _ env args
  | quote => exact (bind_pure _).symm.trans (only_bind stop _ args pure)
  | template =>
    simp only [evalSpecial, template_eq]
    exact only_bind stop _ args _
  | expandOnce =>
    simp only [evalSpecial, expandOnce_eq]
    exact only_bind stop _ args _
  | expandFully =>
    simp only [evalSpecial, expandFully_eq]
    exact only_bind stop _ args _
  | evaluate => exact only_bind stop _ args _

theorem evalCall_eq (limit : Option Nat) (ev : Evaluator) (env : Env Value) (head : Value)
    (args : List Value) :
    evalCall stop limit ev env head args = Eval.evalCall limit ev env head args := by
  simp only [evalCall, invoke_eq, apply_eq]
  rfl

theorem step_eq (limit : Option Nat) (fuel : Nat) (ev : Evaluator) (env : Env Value)
    (form : Value) : step stop limit fuel ev env form = Eval.step limit fuel ev env form := by
  unfold step
  simp only [evalSpecial_eq, evalCall_eq]
  rfl

/-- Nothing that the evaluator asks for is missing. -/
theorem eval_eq (limit : Option Nat) (fuel : Nat) :
    eval stop limit fuel = Lisp.eval limit fuel := by
  induction fuel with
  | zero => rfl
  | succ fuel ih =>
    funext env form
    rw [eval, ih]
    exact step_eq stop limit fuel _ env form

end Eval.Access

end Lisp
