import Lisp.Proofs.Eval.Evaluators

/-!
# Relations that evaluation respects

A relation between computations is a congruence if the primitive computations are related to
themselves and the ways to put computations together keep it. Every rule of the evaluator is put
together in these ways from what it evaluates, so a congruence holds between two evaluations of a
form as soon as it holds between the evaluations of what the rule asks for.

The left side may be a whole family of computations, such as one for each amount of fuel. The two
sides may work under different depth limits. What this costs is said by one field,
`Congruence.nested`.
-/

namespace Lisp

/-- A cause that evaluation can have for a fault. Evaluation reads no text, so it never says that one
cannot be read. -/
def Cause.OfEvaluation (c : Cause) : Prop := ∀ incomplete, c.kind ≠ .parse incomplete

theorem Cause.ofEvaluation_malformed (f : SpecialForm) (m : Malformation) :
    (Cause.malformed f m).OfEvaluation := by
  intro incomplete h
  cases h

namespace Eval

variable {ι : Type}

/-- A relation between families of computations and computations that everything which computations
are made of respects, but for calls. -/
structure Respects (R : ∀ {α : Type}, (ι → Eval α) → Eval α → Prop) : Prop where
  pure {α : Type} (a : α) : R (fun _ => (pure a : Eval α)) (pure a)
  bind {α β : Type} {x : ι → Eval α} {y : Eval α} {f : ι → α → Eval β} {g : α → Eval β} :
    R x y → (∀ a, R (fun i => f i a) (g a)) → R (fun i => x i >>= f i) (y >>= g)
  fail {α : Type} (c : Cause) (hc : c.OfEvaluation) : R (fun _ => (fail c : Eval α)) (fail c)
  outOfFuel {α : Type} : R (fun _ => (outOfFuel : Eval α)) outOfFuel
  within {α : Type} {x : ι → Eval α} {y : Eval α} (label : String) :
    R x y → R (fun i => within label (x i)) (within label y)
  registry : R (fun _ => registry) registry
  define (name : String) (v : Value) : R (fun _ => define name v) (define name v)
  freshName (base : String) : R (fun _ => freshName base) (freshName base)
  freshId : R (fun _ => freshId) freshId
  write (text : String) : R (fun _ => write text) (write text)
  emit (v : Value) : R (fun _ => emit v) (emit v)
  consult (f : Native) (args : List Native.Shown) : R (fun _ => consult f args) (consult f args)
  resolve (env : Env Value) (name : String) : R (fun _ => resolve env name) (resolve env name)

/-- A relation that calls respect, too, on the left side under the limit `l` and on the right side
under `l'`. -/
structure Congruence (l l' : Option Nat) (R : ∀ {α : Type}, (ι → Eval α) → Eval α → Prop) :
    Prop extends Respects R where
  nested {α : Type} {x : ι → Eval α} {y : Eval α} :
    R x y → R (fun i => nested l (x i)) (nested l' y)

/-- What a rule for a form of size `m` asks of evaluators on both sides is related. -/
structure Asked (l l' : Option Nat) (m : Nat)
    (R : ∀ {α : Type}, (ι → Eval α) → Eval α → Prop) (evs : ι → Evaluators) (evs' : Evaluators) :
    Prop where
  part (env : Env Value) {v : Value} (hv : v.size < m) :
    R (fun i => (evs i).part env v) (evs'.part env v)
  call (c : Closure Value) (args : List Value) :
    R (fun i => invoke l (evs i).body c args) (invoke l' evs'.body c args)
  computed (env : Env Value) (v : Value) :
    R (fun i => (evs i).computed env v) (evs'.computed env v)

namespace Respects

variable {l l' : Option Nat} {R : ∀ {α : Type}, (ι → Eval α) → Eval α → Prop}
  {ev : ι → Evaluator} {ev' : Evaluator} {evs : ι → Evaluators} {evs' : Evaluators} {m : Nat}

theorem ofCause (hR : Respects R) {α ε : Type} {f : ε → Cause}
    (hf : ∀ e, (f e).OfEvaluation) (r : Except ε α) :
    R (fun _ => ofCause (r.mapError f)) (ofCause (r.mapError f)) := by
  cases r with
  | ok a => exact hR.pure a
  | error e => exact hR.fail (f e) (hf e)

theorem ofMalformed (hR : Respects R) {α : Type} (f : SpecialForm) (r : Except Malformation α) :
    R (fun _ => ofMalformed f r) (ofMalformed f r) :=
  hR.ofCause (f := .malformed f) (Cause.ofEvaluation_malformed f) r

theorem choose (hR : Respects R) (label : String) (clauses : List (Clause Value)) (n : Nat) :
    R (fun _ => Eval.ofCause (Clause.choose label clauses n))
      (Eval.ofCause (Clause.choose label clauses n)) := by
  rw [Clause.choose]
  cases Clause.select? clauses n with
  | some clause => exact hR.pure clause
  | none => exact hR.fail _ nofun

theorem each (hR : Respects R) (env : Env Value) {forms : List Value}
    (h : ∀ form ∈ forms, R (fun i => ev i env form) (ev' env form)) :
    R (fun i => each (ev i) env forms) (each ev' env forms) := by
  induction forms with
  | nil => exact hR.pure []
  | cons form forms ih =>
    rw [List.forall_mem_cons] at h
    apply hR.bind h.1
    intro v
    apply hR.bind (ih h.2)
    intro vs
    exact hR.pure (v :: vs)

theorem body (hR : Respects R) (env : Env Value) {forms : List Value}
    (h : ∀ form ∈ forms, R (fun i => ev i env form) (ev' env form)) :
    R (fun i => body (ev i) env forms) (body ev' env forms) := by
  induction forms with
  | nil => exact hR.pure Value.nil
  | cons form forms ih =>
    rw [List.forall_mem_cons] at h
    cases forms with
    | nil => exact h.1
    | cons next rest => exact hR.bind h.1 fun _ => ih h.2

theorem runNative (hR : Respects R) (f : Native) (args : List Value) :
    R (fun _ => Builtin.runNative f args) (Builtin.runNative f args) := by
  apply hR.bind (hR.consult f _)
  intro answer
  cases answer with
  | refuse message => exact hR.fail _ nofun
  | datum form => exact hR.pure form.toValue
  | keep i =>
    exact hR.bind (hR.ofCause (f := .builtin) (fun _ => nofun) _) fun v =>
      hR.bind (hR.emit v) fun _ => hR.pure v

theorem run (hR : Respects R) (b : Builtin) (args : List Value) :
    R (fun _ => b.run args) (b.run args) := by
  unfold Builtin.run
  split
  · exact hR.bind (hR.freshName _) fun _ => hR.pure _
  · exact hR.bind (hR.ofCause (f := .builtin) (fun _ => nofun) _) fun _ =>
      hR.bind (hR.freshName _) fun _ => hR.pure _
  · exact hR.bind (hR.write _) fun _ => hR.pure _
  · exact hR.bind (hR.write _) fun _ => hR.pure _
  · exact hR.runNative _ _
  · exact hR.ofCause (f := .builtin) (fun _ => nofun) _

theorem callBuiltin (hR : Respects R) (b : Builtin) (args : List Value) :
    R (fun _ => callBuiltin b args) (callBuiltin b args) := by
  unfold Eval.callBuiltin
  split
  · exact hR.within _ (hR.run b args)
  · exact hR.fail _ nofun

theorem apply (hR : Respects R)
    (hcall : ∀ c args, R (fun i => invoke l (ev i) c args) (invoke l' ev' c args))
    (callee : Value) (args : List Value) :
    R (fun i => apply l (ev i) callee args) (apply l' ev' callee args) := by
  cases callee with
  | closure c =>
    simp only [Eval.apply]
    cases c.role with
    | function => exact hcall c args
    | expander => exact hR.fail _ nofun
  | builtin b => exact hR.callBuiltin b args
  | atom a => exact hR.fail _ nofun
  | seq b items => exact hR.fail _ nofun

/-- The operand of a mark is one of the items, so nothing else is asked for after it. -/
theorem operand_bind (hR : Respects R) {α : Type} (f : SpecialForm) {items : List Value}
    {x : ι → Value → Eval α} {y : Value → Eval α}
    (h : ∀ form ∈ items, R (fun i => x i form) (y form)) :
    R (fun i => operand f items >>= x i) (operand f items >>= y) := by
  unfold operand
  split
  · exact h _ (by simp)
  · exact hR.fail _ (Cause.ofEvaluation_malformed _ _)

theorem spliced (hR : Respects R) (v : Value) : R (fun _ => spliced v) (spliced v) := by
  unfold Eval.spliced
  split
  · exact hR.pure _
  · exact hR.pure _
  · exact hR.fail _ (Cause.ofEvaluation_malformed _ _)

theorem rename (hR : Respects R) (base name : String) (names : Renaming) :
    R (fun _ => rename base name names) (rename base name names) := by
  unfold Eval.rename
  split
  · exact hR.pure _
  · exact hR.bind (hR.freshName base) fun _ => hR.pure _

mutual

theorem fill (hR : Respects R) {env : Env Value}
    (hev : ∀ v, v.size < m → R (fun i => ev i env v) (ev' env v)) (names : Renaming) (v : Value)
    (hv : v.size ≤ m) : R (fun i => fill (ev i) env names v) (fill ev' env names v) := by
  cases v with
  | atom a =>
    cases a with
    | symbol name =>
      simp only [Eval.fill]
      split
      · exact hR.bind (hR.rename _ _ _) fun _ => hR.pure _
      · exact hR.pure _
    | _ => exact hR.pure _
  | seq b items =>
    have hitems : ∀ w ∈ items, w.size < m :=
      fun w hw => Nat.lt_of_lt_of_le (Value.size_lt_of_mem hw) hv
    cases b with
    | list =>
      simp only [Eval.fill]
      split
      · exact hR.operand_bind _ fun form hform => hR.bind (hev form (hitems form hform))
          fun _ => hR.pure _
      · split
        · exact hR.fail _ (Cause.ofEvaluation_malformed _ _)
        · split
          · exact hR.pure _
          · exact hR.bind (fillItems hR hev names items hitems) fun _ => hR.pure _
    | vector =>
      simp only [Eval.fill]
      exact hR.bind (fillItems hR hev names items hitems) fun _ => hR.pure _
  | closure c => exact hR.pure _
  | builtin b => exact hR.pure _

theorem fillItems (hR : Respects R) {env : Env Value}
    (hev : ∀ v, v.size < m → R (fun i => ev i env v) (ev' env v)) (names : Renaming)
    (items : List Value) (hitems : ∀ v ∈ items, v.size < m) :
    R (fun i => fillItems (ev i) env names items) (fillItems ev' env names items) := by
  cases items with
  | nil => exact hR.pure _
  | cons item rest =>
    obtain ⟨hitem, hrest⟩ := List.forall_mem_cons.1 hitems
    simp only [Eval.fillItems]
    split
    · rename_i inner hsplice
      have hinner : ∀ w ∈ inner, w.size < m := by
        rw [spliceList?_eq_some hsplice] at hitem
        exact fun w hw => Nat.lt_trans (Value.size_lt_of_mem hw) hitem
      refine hR.operand_bind _ fun form hform => ?_
      apply hR.bind (hev form (hinner form hform))
      intro v
      apply hR.bind (hR.spliced v)
      intro now
      exact hR.bind (fillItems hR hev names rest hrest) fun _ => hR.pure _
    · apply hR.bind (fill hR hev names item (Nat.le_of_lt hitem))
      intro filled
      exact hR.bind (fillItems hR hev filled.2 rest hrest) fun _ => hR.pure _

end

theorem template (hR : Respects R) {env : Env Value} {v : Value}
    (hev : ∀ w, w.size < v.size → R (fun i => ev i env w) (ev' env w)) :
    R (fun i => template (ev i) env v) (template ev' env v) :=
  hR.bind (hR.fill hev [] v (Nat.le_refl _)) fun _ => hR.pure _

theorem expandOnce (hR : Respects R)
    (hcall : ∀ c args, R (fun i => invoke l (ev i) c args) (invoke l' ev' c args))
    (env : Env Value) (form : Value) :
    R (fun i => expandOnce l (ev i) env form) (expandOnce l' ev' env form) := by
  apply hR.bind hR.registry
  intro r
  cases r.macroCall? env form with
  | none => exact hR.pure form
  | some call => exact hcall call.1 call.2

/-- One more expansion on both sides. -/
theorem expandFully_succ (hR : Respects R)
    (hcall : ∀ c args, R (fun i => invoke l (ev i) c args) (invoke l' ev' c args))
    {env : Env Value} {n : ι → Nat} {m : Nat}
    (hmore : ∀ next,
      R (fun i => expandFully l (ev i) env (n i) next) (expandFully l' ev' env m next))
    (form : Value) :
    R (fun i => expandFully l (ev i) env (n i + 1) form) (expandFully l' ev' env (m + 1) form) := by
  apply hR.bind hR.registry
  intro r
  cases r.macroCall? env form with
  | none => exact hR.pure form
  | some call => exact hR.bind (hcall call.1 call.2) hmore

theorem closure (hR : Respects R) (role : Role) (name : Option String)
    (clauses : List (Clause Value)) (env : Env Value) :
    R (fun _ => closure role name clauses env) (closure role name clauses env) :=
  hR.bind hR.freshId fun _ => hR.pure _

theorem evalDefine (hR : Respects R) (env : Env Value) {args : List Value}
    (h : ∀ v ∈ args, R (fun i => ev i env v) (ev' env v)) :
    R (fun i => evalDefine (ev i) env args) (evalDefine ev' env args) := by
  unfold Eval.evalDefine
  split
  · split
    · exact hR.fail _ (Cause.ofEvaluation_malformed _ _)
    · apply hR.bind (h _ (by simp))
      intro v
      exact hR.bind (hR.define _ v) fun _ => hR.pure v
  · exact hR.fail _ (Cause.ofEvaluation_malformed _ _)

theorem evalDefineClosure (hR : Respects R) (f : SpecialForm) (role : Role) (env : Env Value)
    (args : List Value) :
    R (fun _ => evalDefineClosure f role env args) (evalDefineClosure f role env args) := by
  apply hR.bind (hR.ofMalformed f _)
  intro named
  apply hR.bind (hR.ofMalformed f _)
  intro clauses
  apply hR.bind (hR.closure role _ clauses env)
  intro v
  exact hR.bind (hR.define _ v) fun _ => hR.pure v

theorem evalFunction (hR : Respects R) (env : Env Value) (args : List Value) :
    R (fun _ => evalFunction env args) (evalFunction env args) :=
  hR.bind (hR.ofMalformed _ _) fun clauses => hR.closure _ _ clauses env

theorem bindAll (hR : Respects R) (env : Env Value) {items : List Value}
    (h : ∀ env, ∀ v ∈ items, R (fun i => ev i env v) (ev' env v)) :
    R (fun i => bindAll (ev i) env items) (bindAll ev' env items) := by
  fun_induction Eval.bindAll ev' env items with
  | case1 env target form rest hname =>
    simp only [Eval.bindAll, hname]
    exact hR.fail _ (Cause.ofEvaluation_malformed _ _)
  | case2 env target form rest name hname ih =>
    simp only [Eval.bindAll, hname]
    refine hR.bind (h env form (by simp)) fun v => ih v fun env w hw => h env w (by simp [hw])
  | case3 items env hshort =>
    have hdone (ev : Evaluator) : Eval.bindAll ev env items = Pure.pure env := by
      rw [Eval.bindAll.eq_def]
      split
      · exact absurd rfl (hshort _ _ _)
      · rfl
    simp only [hdone]
    exact hR.pure env

theorem evalLet (hR : Respects R)
    (hev : ∀ env v, v.size < m → R (fun i => ev i env v) (ev' env v)) (env : Env Value)
    {args : List Value} (hargs : ∀ v ∈ args, v.size < m) :
    R (fun i => evalLet (ev i) env args) (evalLet ev' env args) := by
  unfold Eval.evalLet
  split
  · exact hR.fail _ (Cause.ofEvaluation_malformed _ _)
  · rename_i bindings forms
    obtain ⟨hbindings, hforms⟩ := List.forall_mem_cons.1 hargs
    split
    · exact hR.fail _ (Cause.ofEvaluation_malformed _ _)
    · rename_i items hitems
      obtain ⟨b, rfl⟩ := Value.items?_eq_some hitems
      split
      · have hparts : ∀ env, ∀ v ∈ items, R (fun i => ev i env v) (ev' env v) :=
          fun env v hv => hev env v (Nat.lt_trans (Value.size_lt_of_mem hv) hbindings)
        exact hR.bind (hR.bindAll _ hparts) fun inner =>
          hR.body inner fun v hv => hev inner v (hforms v hv)
      · exact hR.fail _ (Cause.ofEvaluation_malformed _ _)

theorem evalBranch (hR : Respects R) (env : Env Value) {args : List Value}
    (h : ∀ v ∈ args, R (fun i => ev i env v) (ev' env v)) :
    R (fun i => evalBranch (ev i) env args) (evalBranch ev' env args) := by
  unfold Eval.evalBranch
  split
  · apply hR.bind (h _ (by simp))
    intro test
    split
    · exact h _ (by simp)
    · exact hR.pure _
  · apply hR.bind (h _ (by simp))
    intro test
    split
    · exact h _ (by simp)
    · exact h _ (by simp)
  · exact hR.fail _ (Cause.ofEvaluation_malformed _ _)

/-- Repeated expansion has fuel of its own, so what relates its two sides is left to the caller. -/
theorem evalSpecial (hR : Respects R) (hasked : Asked l l' m R evs evs') {n : ι → Nat} {k : Nat}
    (hfully : ∀ env form, R (fun i => expandFully l (evs i).body env (n i) form)
      (expandFully l' evs'.body env k form))
    (env : Env Value) (f : SpecialForm) {args : List Value} (hargs : ∀ v ∈ args, v.size < m) :
    R (fun i => (evs i).evalSpecial l (n i) env f args) (evs'.evalSpecial l' k env f args) := by
  have hparts : ∀ v ∈ args, R (fun i => (evs i).part env v) (evs'.part env v) :=
    fun v hv => hasked.part env (hargs v hv)
  cases f <;> simp only [Evaluators.evalSpecial, Eval.evalSpecial]
  case define => exact hR.evalDefine env hparts
  case defineFunction => exact hR.evalDefineClosure _ _ env args
  case function => exact hR.evalFunction env args
  case bindLocals => exact hR.evalLet (fun env _ hv => hasked.part env hv) env hargs
  case branch => exact hR.evalBranch env hparts
  case sequence => exact hR.body env hparts
  case defineMacro => exact hR.evalDefineClosure _ _ env args
  case quote =>
    split
    · exact hR.pure _
    · exact hR.fail _ (Cause.ofEvaluation_malformed _ _)
  case template =>
    split
    · exact hR.template fun w hw => hasked.part env (Nat.lt_trans hw (hargs _ (.head _)))
    · exact hR.fail _ (Cause.ofEvaluation_malformed _ _)
  case unquote => exact hR.fail _ (Cause.ofEvaluation_malformed _ _)
  case splice => exact hR.fail _ (Cause.ofEvaluation_malformed _ _)
  case expandOnce =>
    split
    · exact hR.bind (hparts _ (.head _)) fun form => hR.expandOnce hasked.call env form
    · exact hR.fail _ (Cause.ofEvaluation_malformed _ _)
  case expandFully =>
    split
    · exact hR.bind (hparts _ (.head _)) fun form => hfully env form
    · exact hR.fail _ (Cause.ofEvaluation_malformed _ _)
  case evaluate =>
    split
    · exact hR.bind (hparts _ (.head _)) fun form => hasked.computed .empty form
    · exact hR.fail _ (Cause.ofEvaluation_malformed _ _)

theorem evalCall (hR : Respects R) (hasked : Asked l l' m R evs evs') (env : Env Value)
    {head : Value} {args : List Value} (hhead : head.size < m) (hargs : ∀ v ∈ args, v.size < m) :
    R (fun i => (evs i).evalCall l env head args) (evs'.evalCall l' env head args) := by
  have heach := hR.each env fun v hv => hasked.part env (hargs v hv)
  apply hR.bind (hasked.part env hhead)
  intro callee
  cases callee with
  | closure c =>
    simp only
    cases c.role with
    | expander => exact hR.bind (hasked.call c args) fun expansion => hasked.computed env expansion
    | function => exact hR.bind heach fun vs => hR.apply hasked.call _ vs
  | builtin b => exact hR.bind heach fun vs => hR.apply hasked.call _ vs
  | atom a => exact hR.fail _ nofun
  | seq b items => exact hR.fail _ nofun

theorem step (hR : Respects R) (env : Env Value) {form : Value}
    (hasked : Asked l l' form.size R evs evs') {n : ι → Nat} {k : Nat}
    (hfully : ∀ env form, R (fun i => expandFully l (evs i).body env (n i) form)
      (expandFully l' evs'.body env k form)) :
    R (fun i => (evs i).step l (n i) env form) (evs'.step l' k env form) := by
  have hparts {b : Bracket} {items : List Value} (heq : form = .seq b items) :
      ∀ v ∈ items, v.size < form.size := by
    subst heq
    exact fun v hv => Value.size_lt_of_mem hv
  unfold Evaluators.step
  split
  · exact hR.resolve env _
  · exact hR.bind (hR.each env fun v hv => hasked.part env (hparts rfl v hv)) fun _ => hR.pure _
  · exact hR.pure _
  · obtain ⟨hhead, hargs⟩ := List.forall_mem_cons.1 (hparts rfl)
    split
    · exact hR.evalSpecial hasked hfully env _ hargs
    · exact hR.evalCall hasked env hhead hargs
  · exact hR.pure _

end Respects

namespace Congruence

variable {l l' : Option Nat} {R : ∀ {α : Type}, (ι → Eval α) → Eval α → Prop}
  {ev : ι → Evaluator} {ev' : Evaluator} {evs : ι → Evaluators} {evs' : Evaluators}

theorem invoke (hR : Congruence l l' R) (hev : ∀ env v, R (fun i => ev i env v) (ev' env v))
    (c : Closure Value) (args : List Value) :
    R (fun i => invoke l (ev i) c args) (invoke l' ev' c args) := by
  apply hR.within
  apply hR.nested
  apply hR.bind (hR.choose _ _ _)
  intro clause
  exact hR.body _ fun form _ => hev _ form

/-- Evaluators that are related as a whole are related in all that is asked of them. -/
theorem asked (hR : Congruence l l' R)
    (hpart : ∀ env v, R (fun i => (evs i).part env v) (evs'.part env v))
    (hbody : ∀ env v, R (fun i => (evs i).body env v) (evs'.body env v))
    (hcomputed : ∀ env v, R (fun i => (evs i).computed env v) (evs'.computed env v)) (m : Nat) :
    Asked l l' m R evs evs' :=
  ⟨fun env v _ => hpart env v, hR.invoke hbody, hcomputed⟩

theorem expandFully_succ (hR : Congruence l l' R)
    (hev : ∀ env v, R (fun i => ev i env v) (ev' env v)) {env : Env Value} {n : ι → Nat} {m : Nat}
    (hmore : ∀ next,
      R (fun i => expandFully l (ev i) env (n i) next) (expandFully l' ev' env m next))
    (form : Value) :
    R (fun i => expandFully l (ev i) env (n i + 1) form) (expandFully l' ev' env (m + 1) form) :=
  hR.toRespects.expandFully_succ (hR.invoke hev) hmore form

end Congruence

/-! ## One computation on each side -/

abbrev Compatible (l l' : Option Nat) (R : ∀ {α : Type}, Eval α → Eval α → Prop) : Prop :=
  Congruence l l' fun {α : Type} (x : Unit → Eval α) (y : Eval α) => R (x ()) y

namespace Compatible

variable {l l' : Option Nat} {R : ∀ {α : Type}, Eval α → Eval α → Prop} {ev ev' : Evaluator}

theorem invoke (hR : Compatible l l' R) (hev : ∀ env v, R (ev env v) (ev' env v))
    (c : Closure Value) (args : List Value) : R (invoke l ev c args) (invoke l' ev' c args) :=
  @Congruence.invoke Unit l l' _ (fun _ => ev) ev' hR hev c args

theorem body (hR : Compatible l l' R) (hev : ∀ env v, R (ev env v) (ev' env v)) (env : Env Value)
    (forms : List Value) : R (body ev env forms) (body ev' env forms) :=
  @Respects.body Unit _ (fun _ => ev) ev' hR.toRespects env forms fun v _ => hev env v

theorem bindAll (hR : Compatible l l' R) (hev : ∀ env v, R (ev env v) (ev' env v))
    (env : Env Value) (items : List Value) : R (bindAll ev env items) (bindAll ev' env items) :=
  @Respects.bindAll Unit _ (fun _ => ev) ev' hR.toRespects env items fun env v _ => hev env v

theorem apply (hR : Compatible l l' R) (hev : ∀ env v, R (ev env v) (ev' env v)) (callee : Value)
    (args : List Value) : R (apply l ev callee args) (apply l' ev' callee args) :=
  @Respects.apply Unit l l' _ (fun _ => ev) ev' hR.toRespects (hR.invoke hev) callee args

theorem template (hR : Compatible l l' R) (hev : ∀ env v, R (ev env v) (ev' env v))
    (env : Env Value) (v : Value) : R (template ev env v) (template ev' env v) :=
  @Respects.template Unit _ (fun _ => ev) ev' hR.toRespects env v fun w _ => hev env w

theorem expandOnce (hR : Compatible l l' R) (hev : ∀ env v, R (ev env v) (ev' env v))
    (env : Env Value) (form : Value) : R (expandOnce l ev env form) (expandOnce l' ev' env form) :=
  @Respects.expandOnce Unit l l' _ (fun _ => ev) ev' hR.toRespects (hR.invoke hev) env form

/-- With less fuel on the left side, the end of the fuel has to be related to everything. -/
theorem expandFully (hR : Compatible l l' R) (hev : ∀ env v, R (ev env v) (ev' env v)) {n m : Nat}
    (hnm : n ≤ m) (hcut : n < m → ∀ {β : Type} (y : Eval β), R Eval.outOfFuel y) (env : Env Value)
    (form : Value) : R (expandFully l ev env n form) (expandFully l' ev' env m form) := by
  induction n generalizing m form with
  | zero =>
    cases m with
    | zero => exact hR.outOfFuel
    | succ m => exact hcut (Nat.succ_pos m) _
  | succ n ih =>
    obtain ⟨m, rfl⟩ := Nat.exists_eq_succ_of_ne_zero (Nat.ne_zero_of_lt hnm)
    exact @Congruence.expandFully_succ Unit l l' _ (fun _ => ev) ev' hR hev env (fun _ => n) m
      (ih (Nat.le_of_succ_le_succ hnm) fun h => hcut (Nat.succ_lt_succ h)) form

theorem step (hR : Compatible l l' R) {evs evs' : Evaluators}
    (hpart : ∀ env v, R (evs.part env v) (evs'.part env v))
    (hbody : ∀ env v, R (evs.body env v) (evs'.body env v))
    (hcomputed : ∀ env v, R (evs.computed env v) (evs'.computed env v)) {n m : Nat} (hnm : n ≤ m)
    (hcut : n < m → ∀ {β : Type} (y : Eval β), R Eval.outOfFuel y) (env : Env Value)
    (form : Value) : R (evs.step l n env form) (evs'.step l' m env form) := by
  have hasked : Asked l l' form.size (fun {α : Type} (x : Unit → Eval α) (y : Eval α) => R (x ()) y)
      (fun _ => evs) evs' := Congruence.asked hR hpart hbody hcomputed form.size
  exact Respects.step hR.toRespects env hasked (n := fun _ => n) (hR.expandFully hbody hnm hcut)

/-- A compatible relation holds between evaluations of a form. The left side may have less fuel if
the end of the fuel is related to everything. -/
theorem eval (hR : Compatible l l' R) {n m : Nat} (hnm : n ≤ m)
    (hcut : n < m → ∀ {β : Type} (y : Eval β), R Eval.outOfFuel y) (env : Env Value) (form : Value) :
    R (eval l n env form) (eval l' m env form) := by
  induction n generalizing m env form with
  | zero =>
    cases m with
    | zero => exact hR.outOfFuel
    | succ m => exact hcut (Nat.succ_pos m) _
  | succ n ih =>
    obtain ⟨m, rfl⟩ := Nat.exists_eq_succ_of_ne_zero (Nat.ne_zero_of_lt hnm)
    have hnm' : n ≤ m := Nat.le_of_succ_le_succ hnm
    have hcut' : n < m → ∀ {β : Type} (y : Eval β), R Eval.outOfFuel y :=
      fun h => hcut (Nat.succ_lt_succ h)
    have hev : ∀ env v, R (Lisp.eval l n env v) (Lisp.eval l' m env v) := ih hnm' hcut'
    rw [Lisp.eval, Lisp.eval, ← Evaluators.step_all, ← Evaluators.step_all]
    exact hR.step hev hev hev hnm' hcut' env form

end Compatible

end Eval

end Lisp
