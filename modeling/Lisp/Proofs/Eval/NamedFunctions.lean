import Lisp.Proofs.Eval.Bounds
import Lisp.Proofs.Registry.History

/-!
# Functions that are defined under their own names

A name is defined as a function in one step, or as the value of a form that makes a function of that
name. The two ways split their forms differently, since only the first lets a text describe the
function. Without such a text they make the same function and define the same name, or find the same
thing wrong with the clauses and define nothing.
-/

namespace Lisp

/-- The definition of a function in one step, with what comes after its name. -/
def Value.functionDefinition (name : String) (items : List Value) : Value :=
  .list (.symbol "defn" :: .symbol name :: items)

/-- The definition of a name as the function that a form of this name makes. -/
def Value.definitionOfFunction (name : String) (items : List Value) : Value :=
  .list [.symbol "def", .symbol name, .list (.symbol "fn" :: .symbol name :: items)]

/-- A registry after a definition: the name has the value, and nothing else is changed. The cells
that were there keep their numbers, and the only name that can be new is the defined one. -/
structure Registry.AfterDefinition (r r' : Registry) (name : String) (v : Value) : Prop where
  value : r'.get? name = some v
  others : ∀ k, k ≠ name → r'.get? k = r.get? k
  cells : ∀ k cell, r.cell? k = some cell → r'.cell? k = some cell
  keys : ∀ k, k ∈ r'.keys ↔ k = name ∨ k ∈ r.keys
  coreInstalled : r'.coreInstalled = r.coreInstalled

theorem Registry.afterDefinition_define (r : Registry) (name : String) (v : Value) :
    r.AfterDefinition (r.define name v) name v := by
  refine ⟨?_, fun k hk => ?_, fun k cell => cell?_of_isPrefix (keys_isPrefix_define r name v),
    fun k => ?_, rfl⟩
  · rw [get?_define, if_pos rfl]
  · rw [get?_define, if_neg hk]
  · rw [keys_define]
    split
    · rename_i hname
      constructor
      · exact Or.inr
      · rintro (rfl | hk)
        · exact hname
        · exact hk
    · simp [or_comm]

/-- The name is split off, and no text after it, if the rest does not begin with one. -/
theorem splitName_of_not_str (name : String) {items : List Value}
    (h : ∀ text, items.head? ≠ some (.str text)) :
    splitName (.symbol name :: items) = .ok (name, items) := by
  unfold splitName
  split
  · rename_i hargs
    cases hargs
  · rename_i hargs
    cases hargs
    exact absurd rfl (h _)
  · rename_i hargs
    cases hargs
    rfl
  · rename_i hsymbol hargs
    cases hargs
    exact absurd rfl (hsymbol _)

/-- A text after the name is split off with it, if something follows. -/
theorem splitName_str (name doc : String) {items : List Value} (h : items ≠ []) :
    splitName (.symbol name :: .str doc :: items) = .ok (name, items) := by
  obtain ⟨v, vs, rfl⟩ := List.exists_cons_of_ne_nil h
  rfl

namespace Eval

variable {limit : Option Nat} {env : Env Value} {name : String} {items : List Value} {s : State}

/-- Makes a function or macro of some name from its clauses, and defines the name as it. What is
wrong with the clauses is said of the form `f`. -/
def defineNamed (f : SpecialForm) (role : Role) (env : Env Value) (name : String)
    (items : List Value) : Eval Value := do
  let clauses ← ofMalformed f (Clause.parse items)
  let v ← closure role (some name) clauses env
  define name v
  return v

theorem evalDefineClosure_of_splitName (f : SpecialForm) (role : Role) {args : List Value}
    (h : splitName args = .ok (name, items)) :
    evalDefineClosure f role env args = defineNamed f role env name items := by
  rw [evalDefineClosure, h]
  rfl

theorem defineNamed_of_ok (f : SpecialForm) (role : Role) {clauses : List (Clause Value)}
    (h : Clause.parse items = .ok clauses) :
    let v := Value.closure ⟨role, s.born, some name, clauses, env⟩
    defineNamed f role env name items s =
      .value v { s with registry := s.registry.define name v, born := s.born + 1 } := by
  rw [defineNamed, h]
  rfl

theorem defineNamed_of_error (f : SpecialForm) (role : Role) {m : Malformation}
    (h : Clause.parse items = .error m) :
    defineNamed f role env name items s = .fault { cause := .malformed f m } s := by
  rw [defineNamed, h]
  rfl

theorem eval_functionDefinition (fuel : Nat) (h : ∀ text, items.head? ≠ some (.str text)) :
    eval limit (fuel + 1) env (.functionDefinition name items) =
      defineNamed .defineFunction .function env name items :=
  evalDefineClosure_of_splitName _ _ (splitName_of_not_str name h)

/-- The form that makes the function takes its name off without looking at what follows. -/
theorem eval_definitionOfFunction (fuel : Nat) :
    eval limit (fuel + 2) env (.definitionOfFunction name items) =
      defineNamed .function .function env name items := by
  -- the form in the form is evaluated with what fuel is left
  change (do
    let v ← evalFunction env (.symbol name :: items)
    define name v
    return v) = _
  rw [evalFunction, splitOptionalName, defineNamed, bind_assoc]

/-- A text that describes the function changes nothing. -/
theorem eval_functionDefinition_str (fuel : Nat) (doc : String) (hne : items ≠ [])
    (h : ∀ text, items.head? ≠ some (.str text)) :
    eval limit fuel env (.functionDefinition name (.str doc :: items)) =
      eval limit fuel env (.functionDefinition name items) := by
  cases fuel with
  | zero => rfl
  | succ fuel =>
    rw [eval_functionDefinition fuel h]
    exact evalDefineClosure_of_splitName _ _ (splitName_str name doc hne)

/-- A function that is defined in one step, and a name that is defined as a function of this name,
end alike where no text describes the function. Either the clauses can be read, and both have the
same function as their value, with these clauses and the environment at hand. Then the name is
defined as it, and nothing else is changed but for the number that the function is told by. Or
both fail because of the clauses, for the same reason, and change nothing. A text after the name
that something follows makes no difference. -/
theorem ends_functionDefinition (limit : Option Nat) (env : Env Value) (s : State) (name : String)
    (items : List Value) (h : ∀ text, items.head? ≠ some (.str text)) :
    let oneStep := fun fuel => eval limit fuel env (.functionDefinition name items)
    let twoSteps := fun fuel => eval limit fuel env (.definitionOfFunction name items)
    ((∃ c t, c.role = .function ∧ c.name = some name ∧ Clause.parse items = .ok c.clauses ∧
        c.scope = env ∧ s.registry.AfterDefinition t.registry name (.closure c) ∧
        t = { s with registry := t.registry, born := s.born + 1 } ∧
        Ends oneStep s (.value (.closure c) t) ∧ Ends twoSteps s (.value (.closure c) t)) ∨
      ∃ m, Clause.parse items = .error m ∧
        Ends oneStep s (.fault { cause := .malformed .defineFunction m } s) ∧
        Ends twoSteps s (.fault { cause := .malformed .function m } s)) ∧
    ∀ doc, items ≠ [] → ∀ fuel,
      eval limit fuel env (.functionDefinition name (.str doc :: items)) = oneStep fuel := by
  intro oneStep twoSteps
  have hone : oneStep 1 = defineNamed .defineFunction .function env name items :=
    eval_functionDefinition 0 h
  have htwo : twoSteps 2 = defineNamed .function .function env name items :=
    eval_definitionOfFunction 0
  refine ⟨?_, fun doc hne fuel => eval_functionDefinition_str fuel doc hne h⟩
  cases hparse : Clause.parse items with
  | ok clauses =>
    let c : Closure Value := ⟨.function, s.born, some name, clauses, env⟩
    let t : State :=
      { s with registry := s.registry.define name (.closure c), born := s.born + 1 }
    refine Or.inl ⟨c, t, rfl, rfl, rfl, rfl, s.registry.afterDefinition_define name (.closure c),
      rfl, ⟨nofun, 1, ?_⟩, ⟨nofun, 2, ?_⟩⟩
    · rw [hone, defineNamed_of_ok _ _ hparse]
    · rw [htwo, defineNamed_of_ok _ _ hparse]
  | error m =>
    refine Or.inr ⟨m, rfl, ⟨nofun, 1, ?_⟩, ⟨nofun, 2, ?_⟩⟩
    · rw [hone, defineNamed_of_error _ _ hparse]
    · rw [htwo, defineNamed_of_error _ _ hparse]

/-- A function with a parameter of its own name, and one whose parameters are no list. -/
theorem ends_functionDefinition_hidden :
    let items : List Value := [.vector [.symbol "f"], .symbol "f"]
    (∃ c t, Ends (fun fuel => eval none fuel .empty (.functionDefinition "f" items)) {}
        (.value (.closure c) t) ∧
      Ends (fun fuel => eval none fuel .empty (.definitionOfFunction "f" items)) {}
        (.value (.closure c) t) ∧
      c.clauses = [⟨⟨["f"], none⟩, [.symbol "f"]⟩] ∧ t.registry.get? "f" = some (.closure c)) ∧
    ∃ m, Ends (fun fuel => eval none fuel .empty (.functionDefinition "f" [.int 1])) {}
        (.fault { cause := .malformed .defineFunction m } {}) ∧
      Ends (fun fuel => eval none fuel .empty (.definitionOfFunction "f" [.int 1])) {}
        (.fault { cause := .malformed .function m } {}) := by
  intro items
  have hitems : Clause.parse items = .ok [⟨⟨["f"], none⟩, [.symbol "f"]⟩] := rfl
  have hbad : Clause.parse [.int 1] = .error (.badParams (Value.int 1).display) := rfl
  constructor
  · obtain ⟨c, t, -, -, hparse, -, hafter, -, hone, htwo⟩ | ⟨m, hparse, -⟩ :=
      (ends_functionDefinition none .empty {} "f" items nofun).1
    · have hclauses := Except.ok.inj (hparse.symm.trans hitems)
      exact ⟨c, t, hone, htwo, hclauses, hafter.value⟩
    · cases hitems.symm.trans hparse
  · obtain ⟨c, t, -, -, hparse, -⟩ | ⟨m, -, hone, htwo⟩ :=
      (ends_functionDefinition none .empty {} "f" [.int 1] nofun).1
    · cases hbad.symm.trans hparse
    · exact ⟨m, hone, htwo⟩

end Eval

end Lisp
