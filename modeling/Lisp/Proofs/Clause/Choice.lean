import Lisp.Eval
import Lisp.Proofs.Value.Alike

/-!
# The clause of a call and what it binds

A call takes the first clause with exactly as many names as there are arguments, or else the first one
that takes the further arguments as a list. The frame of the call binds the name of the closure, the
names of the clause and the name for the further arguments, in this order, and a name that comes twice
means what it was bound to last. So no argument is lost unless a name hides another.
-/

namespace Lisp

namespace Clause

variable {α : Type} {clauses : List (Clause α)} {clause : Clause α} {n i : Nat}

/-- The clause takes exactly `n` arguments. -/
def IsFixed (n : Nat) (clause : Clause α) : Prop :=
  clause.params.rest = none ∧ clause.params.names.length = n

/-- The clause takes `n` arguments and would take more. -/
def IsOpen (n : Nat) (clause : Clause α) : Prop :=
  clause.params.rest ≠ none ∧ clause.params.names.length ≤ n

/-- The first clause with a property, and its place. -/
def IsFirst (P : Clause α → Prop) (clauses : List (Clause α)) (i : Nat) (clause : Clause α) : Prop :=
  clauses[i]? = some clause ∧ P clause ∧ ∀ j < i, ∀ d, clauses[j]? = some d → ¬P d

theorem isFixed_iff (clause : Clause α) :
    (!clause.params.isVariadic && clause.params.names.length == n) = true ↔ clause.IsFixed n := by
  simp [IsFixed, Params.isVariadic]

theorem isOpen_iff (clause : Clause α) :
    (clause.params.isVariadic && decide (clause.params.names.length ≤ n)) = true ↔
      clause.IsOpen n := by
  simp [IsOpen, Params.isVariadic, Option.isSome_iff_ne_none]

theorem accepts_iff : clause.params.accepts n = true ↔ clause.IsFixed n ∨ clause.IsOpen n := by
  obtain ⟨⟨names, rest⟩, body⟩ := clause
  cases rest with
  | none =>
    simp only [Params.accepts, Params.isVariadic, IsFixed, IsOpen]
    simpa using eq_comm
  | some name => simp [Params.accepts, Params.isVariadic, IsFixed, IsOpen]

theorem findIdx?_eq_some_iff {p : Clause α → Bool} {P : Clause α → Prop}
    (hp : ∀ c, p c = true ↔ P c) :
    clauses.findIdx? p = some i ↔ ∃ clause, IsFirst P clauses i clause := by
  rw [List.findIdx?_eq_some_iff_getElem]
  constructor
  · rintro ⟨hi, hfirst, hbefore⟩
    refine ⟨clauses[i], List.getElem?_eq_getElem hi, (hp _).mp hfirst, fun j hj d hd => ?_⟩
    obtain ⟨-, rfl⟩ := List.getElem?_eq_some_iff.mp hd
    exact fun hP => hbefore j hj ((hp _).mpr hP)
  · rintro ⟨clause, hclause, hfirst, hbefore⟩
    obtain ⟨hi, rfl⟩ := List.getElem?_eq_some_iff.mp hclause
    refine ⟨hi, (hp _).mpr hfirst, fun j hj hP => ?_⟩
    exact hbefore j hj _ (List.getElem?_eq_getElem (Nat.lt_trans hj hi)) ((hp _).mp hP)

theorem exists_isFirst {p : Clause α → Bool} {P : Clause α → Prop} (hp : ∀ c, p c = true ↔ P c)
    (hclause : clause ∈ clauses) (h : P clause) : ∃ i d, IsFirst P clauses i d := by
  have hsome : (clauses.findIdx? p).isSome = true := by
    rw [List.findIdx?_isSome, List.any_eq_true]
    exact ⟨clause, hclause, (hp _).mpr h⟩
  obtain ⟨i, hi⟩ := Option.isSome_iff_exists.mp hsome
  exact ⟨i, (findIdx?_eq_some_iff hp).mp hi⟩

theorem select?_of_isFixed (h : IsFirst (IsFixed n) clauses i clause) :
    select? clauses n = some clause := by
  have hplace := (findIdx?_eq_some_iff isFixed_iff).mpr ⟨clause, h⟩
  rw [select?, selectIdx?, hplace]
  exact h.1

theorem select?_of_isOpen (hfixed : ∀ d ∈ clauses, ¬d.IsFixed n)
    (h : IsFirst (IsOpen n) clauses i clause) : select? clauses n = some clause := by
  have hnone : clauses.findIdx?
      (fun c => !c.params.isVariadic && c.params.names.length == n) = none :=
    List.findIdx?_eq_none_iff.mpr fun d hd =>
      Bool.eq_false_iff.mpr fun hd' => hfixed d hd ((isFixed_iff d).mp hd')
  have hplace := (findIdx?_eq_some_iff isOpen_iff).mpr ⟨clause, h⟩
  rw [select?, selectIdx?, hnone, hplace]
  exact h.1

/-- A call takes the first clause for exactly its arguments, or else the first open one. -/
theorem select?_eq_some_iff : select? clauses n = some clause ↔
    ∃ i, IsFirst (IsFixed n) clauses i clause ∨
      (∀ d ∈ clauses, ¬d.IsFixed n) ∧ IsFirst (IsOpen n) clauses i clause := by
  constructor
  · intro h
    obtain ⟨i, hi, hclause⟩ := Option.bind_eq_some_iff.mp h
    rw [selectIdx?] at hi
    split at hi
    · rename_i hplace
      cases hi
      obtain ⟨d, hd⟩ := (findIdx?_eq_some_iff isFixed_iff).mp hplace
      cases hd.1.symm.trans hclause
      exact ⟨i, Or.inl hd⟩
    · rename_i hnone
      obtain ⟨d, hd⟩ := (findIdx?_eq_some_iff isOpen_iff).mp hi
      cases hd.1.symm.trans hclause
      refine ⟨i, Or.inr ⟨fun e he hfixed => ?_, hd⟩⟩
      exact absurd ((isFixed_iff e).mpr hfixed) (by simp [List.findIdx?_eq_none_iff.mp hnone e he])
  · rintro ⟨i, hfirst | ⟨hfixed, hfirst⟩⟩
    · exact select?_of_isFixed hfirst
    · exact select?_of_isOpen hfixed hfirst

theorem accepts_of_select? (h : select? clauses n = some clause) :
    clause ∈ clauses ∧ clause.params.accepts n = true := by
  rw [accepts_iff]
  obtain ⟨i, ⟨hclause, hfixed, -⟩ | ⟨-, hclause, hopen, -⟩⟩ := select?_eq_some_iff.mp h
  · exact ⟨List.mem_of_getElem? hclause, Or.inl hfixed⟩
  · exact ⟨List.mem_of_getElem? hclause, Or.inr hopen⟩

theorem isSome_select?_iff : (select? clauses n).isSome = true ↔
    ∃ clause ∈ clauses, clause.params.accepts n = true := by
  constructor
  · intro h
    obtain ⟨clause, hselect⟩ := Option.isSome_iff_exists.mp h
    exact ⟨clause, accepts_of_select? hselect⟩
  · rintro ⟨clause, hclause, haccepts⟩
    by_cases hfixed : ∃ d ∈ clauses, d.IsFixed n
    · obtain ⟨d, hd, hd'⟩ := hfixed
      obtain ⟨i, e, hfirst⟩ := exists_isFirst isFixed_iff hd hd'
      rw [select?_of_isFixed hfirst]
      rfl
    · have hnone : ∀ d ∈ clauses, ¬d.IsFixed n := fun d hd hd' => hfixed ⟨d, hd, hd'⟩
      have hopen := (accepts_iff.mp haccepts).resolve_left (hnone clause hclause)
      obtain ⟨i, e, hfirst⟩ := exists_isFirst isOpen_iff hclause hopen
      rw [select?_of_isOpen hnone hfirst]
      rfl

end Clause

/-- The last value that some bindings give to a name. -/
def IsLastBinding (bs : List (String × Value)) (name : String) (v : Value) : Prop :=
  ∃ before after, bs = before ++ (name, v) :: after ∧ name ∉ after.map Prod.fst

theorem lookup_reverse_eq_some_iff {bs : List (String × Value)} {name : String} {v : Value} :
    bs.reverse.lookup name = some v ↔ IsLastBinding bs name v := by
  rw [List.lookup_eq_some_iff]
  constructor
  · rintro ⟨after, before, hbs, hafter⟩
    refine ⟨before.reverse, after.reverse, ?_, ?_⟩
    · rw [List.reverse_eq_iff.mp hbs]
      simp
    · rintro hmem
      obtain ⟨b, hb, rfl⟩ := List.mem_map.mp hmem
      simpa using hafter b (List.mem_reverse.mp hb)
  · rintro ⟨before, after, rfl, hafter⟩
    refine ⟨after.reverse, before.reverse, by simp, fun b hb => ?_⟩
    rw [bne_iff_ne]
    rintro rfl
    exact hafter (List.mem_map_of_mem (List.mem_reverse.mp hb))

/-- A name that comes once means what it is bound to, whatever is bound before. -/
theorem IsLastBinding.of_nodup {bs : List (String × Value)} {name : String} {v : Value}
    (own : List (String × Value)) (h : (bs.map Prod.fst).Nodup) (hmem : (name, v) ∈ bs) :
    IsLastBinding (own ++ bs) name v := by
  obtain ⟨before, after, rfl⟩ := List.append_of_mem hmem
  refine ⟨own ++ before, after, by simp, fun hafter => ?_⟩
  rw [List.map_append, List.map_cons, List.nodup_append, List.nodup_cons] at h
  exact h.2.1.1 hafter

theorem Env.foldl_set (bs : List (String × Value)) (env : Env Value) :
    bs.foldl (fun e b => e.set b.1 b.2) env =
      ⟨⟨bs.reverse ++ env.inner.bindings⟩, env.outer⟩ := by
  induction bs generalizing env with
  | nil => rfl
  | cons b bs ih =>
    rw [List.foldl_cons, ih, List.reverse_cons, List.append_assoc]
    rfl

namespace Params

variable {p : Params} {args : List Value}

def bindings (p : Params) (args : List Value) : List (String × Value) :=
  p.names.zip args ++ p.rest.toList.map (·, .list (args.drop p.names.length))

theorem bind_eq (p : Params) (env : Env Value) (args : List Value) :
    p.bind .list env args = ⟨⟨(p.bindings args).reverse ++ env.inner.bindings⟩, env.outer⟩ := by
  rw [bind, bindings, Env.foldl_set]
  cases p.rest <;> simp [Env.set, Frame.set]

theorem map_fst_bindings (h : p.names.length ≤ args.length) :
    (p.bindings args).map Prod.fst = p.symbols := by
  rw [bindings, symbols, List.map_append, List.map_fst_zip h]
  cases p.rest <;> rfl

theorem map_snd_zip (h : p.names.length ≤ args.length) :
    (p.names.zip args).map Prod.snd = args.take p.names.length := by
  rw [List.zip_eq_zip_take_min, Nat.min_eq_left h, List.take_length]
  exact List.map_snd_zip (List.length_take_le _ _)

end Params

namespace Eval

/-- What the frame of a call binds, in order: the closure's own name first. -/
def callBindings (c : Closure Value) (p : Params) (args : List Value) : List (String × Value) :=
  c.name.toList.map (·, .closure c) ++ p.bindings args

theorem callEnv_eq (c : Closure Value) (p : Params) (args : List Value) :
    callEnv c p args = ⟨⟨(callBindings c p args).reverse⟩, c.scope.frames⟩ := by
  rw [callEnv, Params.bind_eq, callBindings]
  cases c.name <;> simp [Env.child, Env.set, Frame.set, Frame.empty, Env.frames]

theorem get?_callEnv_eq_some_iff {c : Closure Value} {p : Params} {args : List Value}
    {name : String} {v : Value} :
    (callEnv c p args).inner.get? name = some v ↔ IsLastBinding (callBindings c p args) name v := by
  rw [callEnv_eq]
  exact lookup_reverse_eq_some_iff

/-- If no name comes twice, the names mean the first arguments and the last name a list of the
others. -/
theorem get?_callEnv_of_nodup {c : Closure Value} {p : Params} {args : List Value}
    (hlength : p.names.length ≤ args.length) (hnodup : p.symbols.Nodup) :
    p.names.map (callEnv c p args).inner.get? = (args.take p.names.length).map some ∧
      ∀ name, p.rest = some name →
        (callEnv c p args).inner.get? name = some (.list (args.drop p.names.length)) := by
  have hbinding (b : String × Value) (hb : b ∈ p.bindings args) :
      (callEnv c p args).inner.get? b.1 = some b.2 := by
    rw [get?_callEnv_eq_some_iff]
    refine .of_nodup _ ?_ hb
    rwa [Params.map_fst_bindings hlength]
  constructor
  · rw [← Params.map_snd_zip hlength, List.map_map]
    conv_lhs => rw [← List.map_fst_zip hlength, List.map_map]
    exact List.map_congr_left fun b hb => hbinding b (List.mem_append_left _ hb)
  · intro name hname
    refine hbinding (name, _) (List.mem_append_right _ ?_)
    simp [hname]

/-- A call finds a clause exactly when some clause accepts its arguments. It takes the first clause
for exactly so many arguments, or else the first one that would take more. In its frame a name means
the last thing that it is bound to, and if no parameter comes twice, their values and the elements of
the list of further arguments are the arguments of the call, in order. -/
theorem select?_get?_callEnv (c : Closure Value) (args : List Value) :
    let chosen := Clause.select? c.clauses args.length
    (chosen.isSome = true ↔ ∃ clause ∈ c.clauses, clause.params.accepts args.length = true) ∧
    ∀ clause, chosen = some clause →
      clause.params.accepts args.length = true ∧
      (∃ i, Clause.IsFirst (Clause.IsFixed args.length) c.clauses i clause ∨
        (∀ d ∈ c.clauses, ¬d.IsFixed args.length) ∧
          Clause.IsFirst (Clause.IsOpen args.length) c.clauses i clause) ∧
      let env := callEnv c clause.params args
      (∀ limit ev, invoke limit ev c args =
        within c.label (nested limit (body ev env clause.body))) ∧
      env.parent? = some c.scope ∧
      (∀ name v, env.inner.get? name = some v ↔
        IsLastBinding (callBindings c clause.params args) name v) ∧
      (clause.params.symbols.Nodup → ∃ values others,
        clause.params.names.map env.inner.get? = values.map some ∧
        (∀ name, clause.params.rest = some name → env.inner.get? name = some (.list others)) ∧
        (clause.params.rest = none → others = []) ∧
        values ++ others = args) := by
  refine ⟨Clause.isSome_select?_iff, fun clause hchosen => ?_⟩
  obtain ⟨-, haccepts⟩ := Clause.accepts_of_select? hchosen
  have hcounts := Clause.accepts_iff.mp haccepts
  have hlength : clause.params.names.length ≤ args.length :=
    hcounts.elim (fun hfixed => Nat.le_of_eq hfixed.2) fun hopen => hopen.2
  refine ⟨haccepts, Clause.select?_eq_some_iff.mp hchosen, fun limit ev => ?_, ?_,
    fun name v => get?_callEnv_eq_some_iff, fun hnodup => ?_⟩
  · rw [invoke, Clause.choose, hchosen]
    rfl
  · rw [callEnv_eq]
    rfl
  · obtain ⟨hvalues, hothers⟩ := get?_callEnv_of_nodup (c := c) hlength hnodup
    refine ⟨_, _, hvalues, hothers, fun hrest => ?_, List.take_append_drop _ args⟩
    have hfixed := hcounts.resolve_right fun hopen => hopen.1 hrest
    exact List.drop_eq_nil_of_le (Nat.le_of_eq hfixed.2.symm)

/-- The list of further arguments takes the name of the function itself, and a clause for exactly two
arguments comes before an earlier one that would take more. -/
theorem select?_get?_callEnv_hidden :
    let clauses : List (Clause Value) := [⟨⟨["a"], some "f"⟩, []⟩, ⟨⟨["x", "x"], none⟩, []⟩]
    let c : Closure Value := ⟨.function, 0, some "f", clauses, .empty⟩
    (∃ values others, (callEnv c ⟨["a"], some "f"⟩ [.int 1, .int 2, .int 3]).inner.get? "f" =
        some (.list others) ∧ values ++ others = [.int 1, .int 2, .int 3]) ∧
      (callEnv c ⟨["x", "x"], none⟩ [.int 1, .int 2]).inner.get? "x" = some (.int 2) ∧
      ∃ i, Clause.IsFirst (Clause.IsFixed 2) clauses i ⟨⟨["x", "x"], none⟩, []⟩ ∨
        (∀ d ∈ clauses, ¬d.IsFixed 2) ∧
          Clause.IsFirst (Clause.IsOpen 2) clauses i ⟨⟨["x", "x"], none⟩, []⟩ := by
  intro clauses c
  obtain ⟨-, hthree⟩ := select?_get?_callEnv c [.int 1, .int 2, .int 3]
  obtain ⟨-, htwo⟩ := select?_get?_callEnv c [.int 1, .int 2]
  obtain ⟨-, -, -, -, -, hvalues⟩ := hthree ⟨⟨["a"], some "f"⟩, []⟩ rfl
  obtain ⟨-, hfirst, -, -, hlast, -⟩ := htwo ⟨⟨["x", "x"], none⟩, []⟩ rfl
  obtain ⟨values, others, -, hothers, -, hargs⟩ := hvalues (by decide)
  refine ⟨⟨values, others, hothers "f" rfl, hargs⟩, ?_, hfirst⟩
  exact (hlast "x" (.int 2)).mpr ⟨[("f", .closure c), ("x", .int 1)], [], rfl, by decide⟩

end Eval

end Lisp
