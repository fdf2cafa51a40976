import Lisp.Eval
import Mathlib.Logic.Relation

/-!
# What a value gives access to

A list or vector gives access to its elements, and a closure to what its scope binds and to the forms
of its body. A value is free of macros if every closure that can be reached from it, however long the
way, is a function whose body names neither `eval` nor `defmacro`. Everything that a program makes of
such values, without these two, is free of macros again.
-/

namespace Lisp

namespace Value

/-- A value gives direct access to another one. -/
inductive Holds : Value → Value → Prop
  | item {b : Bracket} {items : List Value} {w : Value} (h : w ∈ items) : Holds (seq b items) w
  | bound {c : Closure Value} {name : String} {w : Value} (h : c.scope.get? name = some w) :
    Holds (closure c) w
  | code {c : Closure Value} {clause : Clause Value} {w : Value} (hclause : clause ∈ c.clauses)
    (h : w ∈ clause.body) : Holds (closure c) w

abbrev Reaches : Value → Value → Prop := Relation.ReflTransGen Holds

/-- A symbol occurs in a form. -/
inductive Mentions (name : String) : Value → Prop
  | symbol : Mentions name (symbol name)
  | item {b : Bracket} {items : List Value} {w : Value} (hw : w ∈ items) (h : Mentions name w) :
    Mentions name (seq b items)

def IsDirect (form : Value) : Prop := ¬ form.Mentions "eval" ∧ ¬ form.Mentions "defmacro"

end Value

structure Closure.IsPlain (c : Closure Value) : Prop where
  role : c.role = .function
  body {clause : Clause Value} (hclause : clause ∈ c.clauses) {form : Value}
    (h : form ∈ clause.body) : form.IsDirect

/-- Every closure that can be reached is plain. -/
def Value.MacroFree (v : Value) : Prop := ∀ c, v.Reaches (.closure c) → c.IsPlain

def Env.MacroFree (env : Env Value) : Prop := ∀ name v, env.get? name = some v → v.MacroFree

def Registry.MacroFree (r : Registry) : Prop := ∀ name v, r.get? name = some v → v.MacroFree

namespace Value

theorem MacroFree.of_holds {v w : Value} (h : v.MacroFree) (hw : v.Holds w) : w.MacroFree :=
  fun c hc => h c (hc.head hw)

/-- A value is free of macros if it is itself no closure but a plain one and all that it holds is
free of macros. -/
theorem macroFree_of_holds {v : Value} (hplain : ∀ c, v = closure c → c.IsPlain)
    (hholds : ∀ w, v.Holds w → w.MacroFree) : v.MacroFree := by
  intro c hc
  rcases hc.cases_head with heq | ⟨w, hw, hwc⟩
  · exact hplain c heq
  · exact hholds w hw c hwc

@[simp] theorem macroFree_atom (a : Atom) : (atom a).MacroFree :=
  macroFree_of_holds nofun nofun

@[simp] theorem macroFree_builtin (b : Builtin) : (builtin b).MacroFree :=
  macroFree_of_holds nofun nofun

@[simp] theorem macroFree_seq_iff {b : Bracket} {items : List Value} :
    (seq b items).MacroFree ↔ ∀ v ∈ items, v.MacroFree := by
  constructor
  · exact fun h v hv => h.of_holds (.item hv)
  · intro h
    refine macroFree_of_holds nofun ?_
    rintro w ⟨hw⟩
    exact h w hw

@[simp] theorem mentions_atom_iff {name : String} {a : Atom} :
    (atom a).Mentions name ↔ a = .symbol name := by
  constructor
  · rintro ⟨⟩
    rfl
  · rintro rfl
    exact .symbol

@[simp] theorem mentions_seq_iff {name : String} {b : Bracket} {items : List Value} :
    (seq b items).Mentions name ↔ ∃ w ∈ items, w.Mentions name := by
  constructor
  · intro h
    cases h with
    | item hw hname => exact ⟨_, hw, hname⟩
  · rintro ⟨w, hw, hname⟩
    exact .item hw hname

theorem MacroFree.of_mem {b : Bracket} {items : List Value} {w : Value}
    (h : (seq b items).MacroFree) (hw : w ∈ items) : w.MacroFree :=
  macroFree_seq_iff.1 h w hw

theorem MacroFree.isPlain {c : Closure Value} (h : (closure c).MacroFree) : c.IsPlain :=
  h c .refl

theorem MacroFree.scope {c : Closure Value} (h : (closure c).MacroFree) : c.scope.MacroFree :=
  fun _ _ hget => h.of_holds (.bound hget)

/-- A form whose evaluation meets no macro and no computed form. -/
structure IsCode (form : Value) : Prop where
  macroFree : form.MacroFree
  isDirect : form.IsDirect

theorem IsCode.of_mem {b : Bracket} {items : List Value} {w : Value} (h : (seq b items).IsCode)
    (hw : w ∈ items) : w.IsCode :=
  ⟨h.macroFree.of_mem hw, fun hm => h.isDirect.1 (.item hw hm), fun hm => h.isDirect.2 (.item hw hm)⟩

theorem MacroFree.isCode {c : Closure Value} (h : (closure c).MacroFree) {clause : Clause Value}
    (hclause : clause ∈ c.clauses) {form : Value} (hform : form ∈ clause.body) : form.IsCode :=
  ⟨h.of_holds (.code hclause hform), h.isPlain.body hclause hform⟩

theorem macroFree_closure {c : Closure Value} (hrole : c.role = .function)
    (hscope : c.scope.MacroFree)
    (hbody : ∀ clause ∈ c.clauses, ∀ form ∈ clause.body, form.IsCode) :
    (closure c).MacroFree := by
  refine macroFree_of_holds ?_ fun w hw => ?_
  · rintro _ ⟨⟩
    exact ⟨hrole, fun hclause _ hform => (hbody _ hclause _ hform).isDirect⟩
  · cases hw with
    | bound hget => exact hscope _ _ hget
    | code hclause hform => exact (hbody _ hclause _ hform).macroFree

end Value

mutual

/-- Data are free of macros. -/
theorem Form.macroFree_toValue : (f : Form) → f.toValue.MacroFree
  | .atom _ _ => by simp [toValue]
  | .seq _ _ items => by simpa [toValue] using macroFree_toValues items

theorem Form.macroFree_toValues : (fs : List Form) → ∀ v ∈ toValues fs, v.MacroFree
  | [] => by simp [toValues]
  | f :: fs => by simpa [toValues] using ⟨macroFree_toValue f, macroFree_toValues fs⟩

end

theorem Env.macroFree_empty : (Env.empty : Env Value).MacroFree := nofun

theorem Env.MacroFree.child {env : Env Value} (h : env.MacroFree) : env.child.MacroFree := by
  intro name v hget
  rw [Env.get?_child] at hget
  exact h name v hget

theorem Env.MacroFree.set {env : Env Value} (h : env.MacroFree) {v : Value} (hv : v.MacroFree)
    (name : String) : (env.set name v).MacroFree := by
  intro k w hget
  rw [Env.get?_set] at hget
  split at hget
  · cases hget
    exact hv
  · exact h k w hget

theorem Registry.macroFree_of_cells {r : Registry} (h : ∀ cell ∈ r.cells, cell.2.MacroFree) :
    r.MacroFree := by
  intro name v hget
  obtain ⟨before, after, hcells, -⟩ := List.lookup_eq_some_iff.1 hget
  exact h (name, v) (by simp [hcells])

theorem Registry.MacroFree.define {r : Registry} (h : r.MacroFree) {v : Value} (hv : v.MacroFree)
    (name : String) : (r.define name v).MacroFree := by
  intro k w hget
  rw [Registry.get?_define] at hget
  split at hget
  · cases hget
    exact hv
  · exact h k w hget

theorem Registry.MacroFree.resolve {r : Registry} (h : r.MacroFree) {env : Env Value}
    (henv : env.MacroFree) {name : String} {v : Value} (hv : r.resolve? env name = some v) :
    v.MacroFree := by
  rw [Registry.resolve?, Option.or_eq_some_iff] at hv
  rcases hv with hlocal | ⟨-, hglobal⟩
  · exact henv name v hlocal
  · exact h name v hglobal

theorem Params.macroFree_bind (p : Params) {env : Env Value} (henv : env.MacroFree)
    {args : List Value} (hargs : ∀ v ∈ args, v.MacroFree) :
    (p.bind .list env args).MacroFree := by
  have hnamed (bs : List (String × Value)) (hbs : ∀ b ∈ bs, b.2.MacroFree) {env : Env Value}
      (henv : env.MacroFree) : (bs.foldl (fun e b => e.set b.1 b.2) env).MacroFree := by
    induction bs generalizing env with
    | nil => exact henv
    | cons b bs ih =>
      apply ih
      · exact fun b hb => hbs b (.tail _ hb)
      · exact henv.set (hbs b (.head _)) b.1
  have hzip : ∀ b ∈ p.names.zip args, b.2.MacroFree :=
    fun b hb => hargs b.2 (List.of_mem_zip hb).2
  unfold Params.bind
  cases p.rest with
  | none => exact hnamed _ hzip henv
  | some name =>
    refine (hnamed _ hzip henv).set (Value.macroFree_seq_iff.2 fun v hv => ?_) name
    exact hargs v (List.mem_of_mem_drop hv)

theorem Eval.macroFree_callEnv {c : Closure Value} (hc : (Value.closure c).MacroFree) (p : Params)
    {args : List Value} (hargs : ∀ v ∈ args, v.MacroFree) : (callEnv c p args).MacroFree := by
  unfold callEnv
  apply Params.macroFree_bind _ _ hargs
  split
  · exact hc.scope.child.set hc _
  · exact hc.scope.child

/-- A result that is no error is as `P` says. -/
def Gives {ε α : Type} (P : α → Prop) : Except ε α → Prop
  | .ok a => P a
  | .error _ => True

namespace Gives

variable {ε ε' α β : Type} {P : α → Prop} {Q : β → Prop} {r : Except ε α}

theorem ok {a : α} (h : P a) : Gives P (.ok a : Except ε α) := h

theorem error (e : ε) : Gives P (.error e : Except ε α) := True.intro

theorem any (r : Except ε α) : Gives (fun _ => True) r := by
  cases r <;> trivial

theorem bind {f : α → Except ε β} (hr : Gives P r) (hf : ∀ a, P a → Gives Q (f a)) :
    Gives Q (r >>= f) := by
  cases r with
  | ok a => exact hf a hr
  | error e => exact error e

theorem map {f : α → β} (hr : Gives P r) (hf : ∀ a, P a → Q (f a)) : Gives Q (f <$> r) := by
  cases r with
  | ok a => exact hf a hr
  | error e => exact error e

theorem mapError (hr : Gives P r) (f : ε → ε') : Gives P (r.mapError f) := by
  cases r with
  | ok a => exact hr
  | error e => exact error (f e)

end Gives

namespace Clause

/-- All forms of the body are code. -/
def IsCode (clause : Clause Value) : Prop := ∀ form ∈ clause.body, form.IsCode

theorem choose_mem (label : String) (clauses : List (Clause Value)) (n : Nat) :
    Gives (· ∈ clauses) (choose label clauses n) := by
  unfold choose
  split
  · rename_i clause hselect
    obtain ⟨i, -, hi⟩ := Option.bind_eq_some_iff.1 hselect
    exact .ok (List.mem_of_getElem? hi)
  · exact .error _

theorem ofValue_isCode {v : Value} (hv : v.IsCode) : Gives IsCode (ofValue v) := by
  unfold ofValue
  split
  · exact .error _
  · exact .error _
  · rename_i params body hitems
    obtain ⟨b, rfl⟩ := Value.items?_eq_some hitems
    apply (Gives.any _).bind
    intro p _
    exact .ok fun form hform => hv.of_mem (.tail _ hform)

theorem ofValues_isCode {vs : List Value} (hvs : ∀ v ∈ vs, v.IsCode) :
    Gives (fun clauses => ∀ clause ∈ clauses, clause.IsCode) (ofValues vs) := by
  induction vs with
  | nil => exact .ok nofun
  | cons v vs ih =>
    rw [List.forall_mem_cons] at hvs
    apply (ofValue_isCode hvs.1).bind
    intro clause hclause
    apply (ih hvs.2).bind
    intro clauses hclauses
    exact .ok (List.forall_mem_cons.2 ⟨hclause, hclauses⟩)

/-- The bodies of a function are forms of its definition. -/
theorem parse_isCode {forms : List Value} (hforms : ∀ v ∈ forms, v.IsCode) :
    Gives (fun clauses => ∀ clause ∈ clauses, clause.IsCode) (parse forms) := by
  unfold parse
  split
  · exact .error _
  · split
    · exact ofValues_isCode hforms
    · apply (Gives.any _).bind
      intro p _
      rw [List.forall_mem_cons] at hforms
      exact .ok (List.forall_mem_singleton.2 hforms.2)

end Clause

theorem splitName_subset (args : List Value) : Gives (·.2 ⊆ args) (splitName args) := by
  unfold splitName
  split
  · exact .error _
  · exact .ok (by simp)
  · exact .ok (by simp)
  · exact .error _

theorem Eval.splitOptionalName_subset (args : List Value) :
    (splitOptionalName args).2 ⊆ args := by
  unfold splitOptionalName
  split <;> simp

namespace Builtin

theorem itemsOf_macroFree (op : Builtin) {v : Value} (hv : v.MacroFree) :
    Gives (fun items => ∀ w ∈ items, w.MacroFree) (itemsOf op v) := by
  unfold itemsOf
  split
  · exact .ok fun w hw => hv.of_mem hw
  · exact .ok nofun
  · exact .error _

theorem concatItems_macroFree (op : Builtin) {vs : List Value} (hvs : ∀ v ∈ vs, v.MacroFree) :
    Gives (fun items => ∀ w ∈ items, w.MacroFree) (concatItems op vs) := by
  induction vs with
  | nil => exact .ok nofun
  | cons v vs ih =>
    rw [List.forall_mem_cons] at hvs
    apply (itemsOf_macroFree op hvs.1).bind
    intro items hitems
    apply (ih hvs.2).bind
    intro rest hrest
    exact .ok (List.forall_mem_append.2 ⟨hitems, hrest⟩)

theorem element_macroFree (op : Builtin) {v : Value} (hv : v.MacroFree) (index : Value)
    {otherwise : Option Value} (hother : ∀ w, otherwise = some w → w.MacroFree) :
    Gives Value.MacroFree (element op v index otherwise) := by
  apply (itemsOf_macroFree op hv).bind
  intro items hitems
  apply (Gives.any _).bind
  intro i _
  split
  · rename_i w hw
    rw [Option.or_eq_some_iff] at hw
    rcases hw with hat | ⟨-, hw⟩
    · exact .ok (hitems w (List.mem_of_getElem? hat))
    · exact .ok (hother w hw)
  · exact .error _

theorem argument_macroFree (op : Builtin) {args : List Value} (hargs : ∀ v ∈ args, v.MacroFree)
    (i : Nat) : Gives Value.MacroFree (argument op args i) := by
  unfold argument
  split
  · rename_i v hv
    exact .ok (hargs v (List.mem_of_getElem? hv))
  · exact .error _

theorem toValue_macroFree (x : Number) : x.toValue.MacroFree := by
  cases x <;> exact Value.macroFree_atom _

theorem compare_macroFree (op : Builtin) (c : Comparison) (args : List Value) :
    Gives Value.MacroFree (compare op c args) :=
  (Gives.any _).bind fun _ _ => .ok (Value.macroFree_atom _)

/-- The functions without effects make numbers, truth values, texts and symbols, pick an element out
of an argument, or put elements of arguments together. -/
theorem compute_macroFree (op : Builtin) {args : List Value} (hargs : ∀ v ∈ args, v.MacroFree) :
    Gives Value.MacroFree (compute op args) := by
  have hnumber (r : Except BuiltinError Number) : Gives Value.MacroFree (Number.toValue <$> r) :=
    (Gives.any r).map fun x _ => toValue_macroFree x
  have hatom (a : Atom) : Gives Value.MacroFree (.ok (.atom a) : Except BuiltinError Value) :=
    .ok (Value.macroFree_atom a)
  have hseq (b : Bracket) {items : List Value} (h : ∀ v ∈ items, v.MacroFree) :
      Gives Value.MacroFree (.ok (.seq b items) : Except BuiltinError Value) :=
    .ok (Value.macroFree_seq_iff.2 h)
  unfold compute
  split
  · exact hnumber _
  · exact hnumber _
  · exact (Gives.any _).bind fun x _ => hnumber (x.negate _)
  · exact (Gives.any _).bind fun x _ => hnumber (Operation.difference.fold _ 1 x _)
  · exact hnumber _
  · exact (Gives.any _).bind fun x _ => hnumber (Number.divideBy _ 2 x _)
  · exact hnumber _
  · exact (Gives.any _).bind fun x _ => hnumber (Operation.difference.fold _ 1 x _)
  · exact hatom _
  · exact compare_macroFree _ _ _
  · exact compare_macroFree _ _ _
  · exact compare_macroFree _ _ _
  · exact compare_macroFree _ _ _
  · exact hatom _
  · exact hseq _ hargs
  · exact hseq _ hargs
  · rw [List.forall_mem_cons, List.forall_mem_singleton] at hargs
    exact (itemsOf_macroFree _ hargs.2).bind fun items hitems =>
      hseq _ (List.forall_mem_cons.2 ⟨hargs.1, hitems⟩)
  · rw [List.forall_mem_singleton] at hargs
    apply (itemsOf_macroFree _ hargs).bind
    intro items hitems
    cases items with
    | nil => exact hatom _
    | cons v vs => exact hitems v (.head _)
  · rw [List.forall_mem_singleton] at hargs
    exact (itemsOf_macroFree _ hargs).bind fun items hitems =>
      hseq _ fun v hv => hitems v (List.mem_of_mem_tail hv)
  · exact (Gives.any _).bind fun n _ => hatom _
  · exact (concatItems_macroFree _ hargs).map fun items hitems => Value.macroFree_seq_iff.2 hitems
  · rw [List.forall_mem_cons, List.forall_mem_singleton] at hargs
    exact element_macroFree _ hargs.1 _ nofun
  · rw [List.forall_mem_cons, List.forall_mem_cons, List.forall_mem_singleton] at hargs
    apply element_macroFree _ hargs.1
    rintro w ⟨⟩
    exact hargs.2.2
  · exact hatom _
  · exact hatom _
  · exact hatom _
  · exact hatom _
  · exact hatom _
  · exact (Gives.any _).map fun name _ => Value.macroFree_atom _
  · exact .error _

end Builtin

end Lisp
