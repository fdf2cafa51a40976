import Lisp.Proofs.Eval.Agreement
import Lisp.Proofs.Eval.Termination

/-!
# Two runs side by side

Two computations are parallel if they do the same from states that differ in captured bindings only:
both run out of fuel, both fail with the same fault, or both end with related values, and again the
states differ in captured bindings only. Evaluating the same code in environments that agree on the
names in sight is parallel, since every rule of the evaluator looks at an environment by looking up a
name that stands in the code at hand, and at a closure by calling it. Only macros and computed forms
bring in code from elsewhere. Where they are allowed, environments have to agree on every name.
-/

namespace Lisp

open Value (Alike SameCode)

theorem headIs_eq {r : Sight} (f : SpecialForm) {items items' : List Value}
    (h : List.Forall₂ (Alike r) items items') : headIs f items = headIs f items' := by
  cases h with
  | nil => rfl
  | cons hv _ =>
    cases hv with
    | atom a => cases a <;> rfl
    | _ => rfl

theorem spliceList?_sameCode {r : Sight} {N : Set String} {v w : Value} (h : v.SameCode r N w) :
    Option.Rel (List.Forall₂ (SameCode r N)) (spliceList? v) (spliceList? w) := by
  cases h.alike with
  | @seq b items items' hitems =>
    cases b with
    | list =>
      rw [spliceList?, spliceList?, headIs_eq _ hitems]
      split
      · exact .some h.items
      · exact .none
    | vector => exact .none
  | _ => exact .none

namespace Eval

variable {α α' β β' : Type}

/-- From states that differ in captured bindings only, two computations do the same. -/
def Parallel (r : Sight) (V : α → α' → Prop) (x : Eval α) (y : Eval α') : Prop :=
  ∀ s t, s.Alike r t → (x s).Alike r V (y t)

namespace Parallel

variable {r : Sight} {V : α → α' → Prop} {W : β → β' → Prop} {x : Eval α} {y : Eval α'}
  {l : Option Nat} {N : Set String} {env env' : Env Value} {v w : Value} {args args' : List Value}

theorem pure {a : α} {b : α'} (h : V a b) : Parallel r V (pure a) (pure b) :=
  fun _ _ hst => .value h hst

theorem bind {f : α → Eval β} {g : α' → Eval β'} (hx : Parallel r V x y)
    (hf : ∀ a b, V a b → Parallel r W (f a) (g b)) : Parallel r W (x >>= f) (y >>= g) := by
  intro s t hst
  have hxy := hx s t hst
  change Outcome.Alike r W (Eval.bind x f s) (Eval.bind y g t)
  rw [Eval.bind, Eval.bind]
  generalize x s = o, y t = o' at hxy
  cases hxy with
  | value h hst' => exact hf _ _ h _ _ hst'
  | fault e hst' => exact .fault e hst'
  | outOfFuel => exact .outOfFuel

theorem fail (c : Cause) : Parallel r V (fail c) (fail c) :=
  fun _ _ hst => .fault _ hst

theorem ofCause {a : Except Cause α} {b : Except Cause α'} (h : SameResult V a b) :
    Parallel r V (ofCause a) (ofCause b) := by
  cases h with
  | ok hab => exact pure hab
  | error c => exact fail c

theorem ofMalformed (f : SpecialForm) {a : Except Malformation α} {b : Except Malformation α'}
    (h : SameResult V a b) : Parallel r V (ofMalformed f a) (ofMalformed f b) :=
  ofCause (h.mapError _)

theorem within (h : Parallel r V x y) (label : String) :
    Parallel r V (within label x) (within label y) := by
  intro s t hst
  have hxy := h s t hst
  rw [Eval.within, Eval.within, mapFault, mapFault]
  generalize x s = o, y t = o' at hxy
  cases hxy with
  | value h hst' => exact .value h hst'
  | fault e hst' => exact .fault _ hst'
  | outOfFuel => exact .outOfFuel

/-- The depth is the same on both sides, so the limit stops both calls or none. -/
theorem nested (h : Parallel r V x y) (l : Option Nat) :
    Parallel r V (nested l x) (nested l y) := by
  intro s t hst
  rw [Eval.nested, Eval.nested, hst.depth]
  cases l.filter (· < t.depth + 1) with
  | some n => exact .fault _ hst
  | none =>
    have hxy := h { s with depth := t.depth + 1 } { t with depth := t.depth + 1 }
      { hst with depth := rfl }
    dsimp only
    generalize x { s with depth := t.depth + 1 } = o, y { t with depth := t.depth + 1 } = o' at hxy
    cases hxy with
    | value h hst' => exact .value h { hst' with depth := congrArg (· - 1) hst'.depth }
    | fault e hst' => exact .fault e { hst' with depth := congrArg (· - 1) hst'.depth }
    | outOfFuel => exact .outOfFuel

theorem registry : Parallel r (Registry.Alike r) registry registry :=
  fun _ _ hst => .value hst.registry hst

theorem define (name : String) (hv : v.Alike r w) :
    Parallel r (fun _ _ => True) (define name v) (define name w) :=
  fun _ _ hst => .value trivial { hst with registry := hst.registry.define name hv }

theorem freshName (base : String) : Parallel r Eq (freshName base) (freshName base) := by
  intro s t hst
  refine .value ?_ { hst with drawn := congrArg (· + 1) hst.drawn }
  rw [hst.drawn]

theorem freshId : Parallel r Eq freshId freshId :=
  fun _ _ hst => .value hst.born { hst with born := congrArg (· + 1) hst.born }

theorem write {text text' : String} (h : text = text') :
    Parallel r (fun _ _ => True) (write text) (write text') := by
  subst h
  exact fun _ _ hst => .value trivial { hst with output := congrArg (· ++ text) hst.output }

theorem emit (hv : v.Alike r w) : Parallel r (fun _ _ => True) (emit v) (emit w) :=
  fun _ _ hst => .value trivial
    { hst with emitted := List.rel_append hst.emitted (.cons (Or.inr hv) .nil) }

theorem resolve (henv : env.Agrees r N env') (name : String) (hname : r = .own → name ∈ N) :
    Parallel r (Alike r) (resolve env name) (resolve env' name) := by
  intro s t hst
  have hfound := hst.registry.resolve? henv name hname
  rw [Eval.resolve, Eval.resolve]
  generalize s.registry.resolve? env name = found, t.registry.resolve? env' name = found' at hfound
  cases hfound with
  | some hv => exact .value hv hst
  | none => exact .fault _ hst

theorem consult (f : Native) (args : List Native.Shown) :
    Parallel r Eq (consult f args) (consult f args) :=
  fun _ _ hst => .value (congrArg (fun natives : Natives => natives f args) hst.natives) hst

/-- A function of the embedding program sees the same of alike arguments. -/
theorem runNative (f : Native) (hargs : List.Forall₂ (Alike r) args args') :
    Parallel r (Alike r) (Builtin.runNative f args) (Builtin.runNative f args') := by
  have hshown : args.map (fun v => (⟨v.typeName, v.plain⟩ : Native.Shown)) =
      args'.map fun v => ⟨v.typeName, v.plain⟩ :=
    Alike.map_eq (fun v w h => by rw [h.typeName_eq, h.plain_eq]) hargs
  rw [Builtin.runNative, Builtin.runNative, hshown]
  apply (consult f _).bind
  rintro answer _ rfl
  cases answer with
  | refuse message => exact fail _
  | datum form => exact pure (.refl _ fun _ => form.macroFree_toValue)
  | keep i =>
    apply (ofCause ((Builtin.argument_alike _ hargs i).mapError _)).bind
    intro v w hv
    exact (emit hv).bind fun _ _ _ => pure hv

theorem run (b : Builtin) (hargs : List.Forall₂ (Alike r) args args') :
    Parallel r (Alike r) (b.run args) (b.run args') := by
  have hplain : Builtin.joinPlain args = Builtin.joinPlain args' := by
    rw [Builtin.joinPlain, Builtin.joinPlain, Alike.map_eq (fun _ _ h => h.plain_eq) hargs]
  have hcompute : Parallel r (Alike r) (Eval.ofCause ((b.compute args).mapError .builtin))
      (Eval.ofCause ((b.compute args').mapError .builtin)) :=
    ofCause ((b.compute_alike hargs).mapError _)
  cases b
  case gensym =>
    rcases hargs with _ | ⟨hv, _⟩
    · apply (freshName "G").bind
      rintro name _ rfl
      exact pure (.atom _)
    · simp only [Builtin.run, Builtin.textOf_eq _ hv]
      apply (ofCause ((SameResult.of_eq rfl).mapError _)).bind
      rintro base _ rfl
      apply (freshName base).bind
      rintro name _ rfl
      exact pure (.atom _)
  case print => exact (write hplain).bind fun _ _ _ => pure (.atom _)
  case println => exact (write (congrArg (· ++ "\n") hplain)).bind fun _ _ _ => pure (.atom _)
  case native f => exact runNative f hargs
  all_goals exact hcompute

theorem callBuiltin (b : Builtin) (hargs : List.Forall₂ (Alike r) args args') :
    Parallel r (Alike r) (callBuiltin b args) (callBuiltin b args') := by
  rw [Eval.callBuiltin, Eval.callBuiltin, hargs.length_eq]
  split
  · exact (run b hargs).within _
  · exact fail _

theorem operand (f : SpecialForm) {R : Value → Value → Prop} (hargs : List.Forall₂ R args args') :
    Parallel r R (operand f args) (operand f args') := by
  have hlength := hargs.length_eq
  rcases hargs with _ | ⟨_, _ | ⟨hv, _ | _⟩⟩
  · exact fail _
  · exact fail _
  · exact pure hv
  · simp only [Eval.operand, hlength]
    exact fail _

theorem spliced (hv : v.Alike r w) :
    Parallel r (List.Forall₂ (Alike r)) (spliced v) (spliced w) := by
  have htype := hv.typeName_eq
  cases hv with
  | atom a => cases a <;> first | exact fail _ | exact pure .nil
  | seq hitems => exact pure hitems
  | _ =>
    simp only [Eval.spliced, htype]
    exact fail _

theorem rename (base name : String) (names : Renaming) :
    Parallel r Eq (rename base name names) (rename base name names) := by
  rw [Eval.rename]
  split
  · exact pure rfl
  · apply (freshName base).bind
    rintro fresh _ rfl
    exact pure rfl

/-! ## Functions -/

theorem wrongCount (f : SpecialForm) (n : Nat) (h : args.length = args'.length) :
    Parallel r V (wrongCount f n args) (wrongCount f n args') := by
  rw [Eval.wrongCount, Eval.wrongCount, h]
  exact fail _

theorem closure {role : Role} (hrole : r = .own → role = .function) {name : Option String}
    (hname : r = .own → ∀ k, name = some k → k ∈ N) {clauses clauses' : List (Clause Value)}
    (hclauses : List.Forall₂ (Clause.SameCode r N) clauses clauses')
    (henv : env.Agrees r N env') :
    Parallel r (Alike r) (closure role name clauses env) (closure role name clauses' env') := by
  apply freshId.bind
  rintro id _ rfl
  exact pure (Value.alike_closure hrole id hname hclauses henv)

theorem evalDefineClosure (f : SpecialForm) {role : Role} (hrole : r = .own → role = .function)
    (henv : env.Agrees r N env') (hargs : List.Forall₂ (SameCode r N) args args') :
    Parallel r (Alike r) (evalDefineClosure f role env args)
      (evalDefineClosure f role env' args') := by
  apply (ofMalformed f (splitName_sameCode hargs)).bind
  rintro ⟨name, tail⟩ ⟨_, tail'⟩ ⟨rfl, hname, htail⟩
  apply (ofMalformed f (Clause.parse_sameCode htail)).bind
  intro clauses clauses' hclauses
  have hown (hr : r = .own) (k : String) (hk : some name = some k) : k ∈ N := by
    cases hk
    exact hname hr
  apply (closure hrole hown hclauses henv).bind
  intro v w hv
  exact (define name hv).bind fun _ _ _ => pure hv

theorem evalFunction (henv : env.Agrees r N env')
    (hargs : List.Forall₂ (SameCode r N) args args') :
    Parallel r (Alike r) (evalFunction env args) (evalFunction env' args') := by
  obtain ⟨heq, hname, htail⟩ := splitOptionalName_sameCode hargs
  rw [Eval.evalFunction, Eval.evalFunction]
  generalize splitOptionalName args = p, splitOptionalName args' = q at heq hname htail
  obtain ⟨name, tail⟩ := p
  obtain ⟨name', tail'⟩ := q
  obtain rfl : name = name' := heq
  apply (ofMalformed _ (Clause.parse_sameCode htail)).bind
  intro clauses clauses' hclauses
  exact closure (fun _ => rfl) hname hclauses henv

end Parallel

/-- Two evaluators do the same with the same code in environments that agree on the names in
sight. -/
def ParallelEvaluators (r : Sight) (ev ev' : Evaluator) : Prop :=
  ∀ ⦃N : Set String⦄ ⦃env env' : Env Value⦄ ⦃form form' : Value⦄, env.Agrees r N env' →
    form.SameCode r N form' → Parallel r (Alike r) (ev env form) (ev' env' form')

namespace ParallelEvaluators

variable {r : Sight} {ev ev' : Evaluator} {l : Option Nat} {N : Set String} {env env' : Env Value}
  {v w : Value} {args args' : List Value}

theorem each (hev : ParallelEvaluators r ev ev') (henv : env.Agrees r N env')
    (hargs : List.Forall₂ (SameCode r N) args args') :
    Parallel r (List.Forall₂ (Alike r)) (each ev env args) (each ev' env' args') := by
  induction hargs with
  | nil => exact .pure .nil
  | cons hform _ ih =>
    apply (hev henv hform).bind
    intro v w hv
    apply ih.bind
    intro vs ws hvs
    exact .pure (.cons hv hvs)

theorem body (hev : ParallelEvaluators r ev ev') (henv : env.Agrees r N env')
    (hargs : List.Forall₂ (SameCode r N) args args') :
    Parallel r (Alike r) (body ev env args) (body ev' env' args') := by
  induction hargs with
  | nil => exact .pure (.atom _)
  | cons hform hrest ih =>
    cases hrest with
    | nil => exact hev henv hform
    | cons => exact (hev henv hform).bind fun _ _ _ => ih

/-- Alike closures do the same: what their code asks for, their environments agree on. -/
theorem invoke (hev : ParallelEvaluators r ev ev') {c d : Closure Value}
    (h : (Value.closure c).Alike r (.closure d)) (hargs : List.Forall₂ (Alike r) args args') :
    Parallel r (Alike r) (invoke l ev c args) (invoke l ev' d args') := by
  have hlabel : c.label = d.label := by
    cases h with
    | closure _ _ hname => rw [Closure.label, Closure.label, hname]
  have hclauses : List.Forall₂ (Clause.Matches (Alike r)) c.clauses d.clauses := by
    cases h
    assumption
  rw [Eval.invoke, Eval.invoke, hlabel, hargs.length_eq]
  apply Parallel.within
  apply Parallel.nested
  apply (Parallel.ofCause (Clause.choose_matches _ hclauses _)).bind
  rintro clause clause' ⟨hmem, hclause⟩
  rw [hclause.params_eq]
  exact hev.body (.callEnv h _ hargs) (hclause.sameCode h hmem)

theorem apply (hev : ParallelEvaluators r ev ev') (hv : v.Alike r w)
    (hargs : List.Forall₂ (Alike r) args args') :
    Parallel r (Alike r) (apply l ev v args) (apply l ev' w args') := by
  have hdisplay := hv.display_eq
  have htype := hv.typeName_eq
  cases hv with
  | closure hrole hid hname hclauses hscope hplain =>
    simp only [Eval.apply, hdisplay, htype, hrole]
    split
    · exact hev.invoke (.closure hrole hid hname hclauses hscope hplain) hargs
    · exact .fail _
  | builtin b => exact .callBuiltin b hargs
  | _ =>
    simp only [Eval.apply, hdisplay, htype]
    exact .fail _

/-! ## Templates and expansion -/

mutual

theorem fill (hev : ParallelEvaluators r ev ev') (henv : env.Agrees r N env') (names : Renaming)
    (v w : Value) (h : v.SameCode r N w) :
    Parallel r (fun p q => p.1.Alike r q.1 ∧ p.2 = q.2) (fill ev env names v)
      (fill ev' env' names w) := by
  cases v with
  | atom a =>
    cases h.alike
    cases a with
    | symbol name =>
      simp only [Eval.fill]
      split
      · apply (Parallel.rename _ _ _).bind
        rintro renamed _ rfl
        exact .pure ⟨.atom _, rfl⟩
      · exact .pure ⟨.atom _, rfl⟩
    | _ => exact .pure ⟨.atom _, rfl⟩
  | seq b items =>
    cases h.alike with
    | seq hitems =>
      have hfilled := fillItems hev henv names items _ h.items
      cases b with
      | list =>
        simp only [Eval.fill, ← headIs_eq _ hitems]
        split
        · apply (Parallel.operand _ h.items).bind
          intro form form' hform
          exact (hev henv hform).bind fun _ _ hv => .pure ⟨hv, rfl⟩
        · split
          · exact .fail _
          · split
            · exact .pure ⟨h.alike, rfl⟩
            · exact hfilled.bind fun _ _ hp => .pure ⟨.seq hp.1, hp.2⟩
      | vector => exact hfilled.bind fun _ _ hp => .pure ⟨.seq hp.1, hp.2⟩
  | closure c =>
    cases h.alike with
    | closure => exact .pure ⟨h.alike, rfl⟩
  | builtin b =>
    cases h.alike
    exact .pure ⟨.builtin b, rfl⟩

theorem fillItems (hev : ParallelEvaluators r ev ev') (henv : env.Agrees r N env')
    (names : Renaming) (items items' : List Value)
    (h : List.Forall₂ (SameCode r N) items items') :
    Parallel r (fun p q => List.Forall₂ (Alike r) p.1 q.1 ∧ p.2 = q.2)
      (fillItems ev env names items) (fillItems ev' env' names items') := by
  cases items with
  | nil =>
    cases h
    exact .pure ⟨.nil, rfl⟩
  | cons item rest =>
    cases h with
    | @cons _ item' _ rest' hitem hrest =>
      have hlater (names : Renaming) := fillItems hev henv names rest rest' hrest
      have hnow := fill hev henv names item item' hitem
      have hsplice := spliceList?_sameCode hitem
      simp only [Eval.fillItems]
      generalize spliceList? item = found, spliceList? item' = found' at hsplice
      cases hsplice with
      | some hinner =>
        apply (Parallel.operand _ hinner).bind
        intro form form' hform
        apply (hev henv hform).bind
        intro v w hv
        apply (Parallel.spliced hv).bind
        intro now now' hnow
        apply (hlater names).bind
        rintro later later' ⟨hitems, hnames⟩
        exact .pure ⟨List.rel_append hnow hitems, hnames⟩
      | none =>
        apply hnow.bind
        rintro ⟨filled, names⟩ ⟨filled', _⟩ ⟨hfilled, rfl⟩
        apply (hlater names).bind
        rintro later later' ⟨hitems, hnames⟩
        exact .pure ⟨.cons hfilled hitems, hnames⟩

end

theorem template (hev : ParallelEvaluators r ev ev') (henv : env.Agrees r N env')
    (h : v.SameCode r N w) : Parallel r (Alike r) (template ev env v) (template ev' env' w) :=
  (hev.fill henv [] v w h).bind fun _ _ hp => .pure hp.1

theorem expandOnce (hev : ParallelEvaluators r ev ev') (henv : env.Agrees r N env')
    (hv : v.Alike r w) :
    Parallel r (Alike r) (expandOnce l ev env v) (expandOnce l ev' env' w) := by
  apply Parallel.registry.bind
  intro R S hregistry
  have hcall := hregistry.macroCall? henv hv
  generalize R.macroCall? env v = call, S.macroCall? env' w = call' at hcall
  cases hcall with
  | some h => exact hev.invoke h.1 h.2
  | none => exact .pure hv

theorem expandFully (hev : ParallelEvaluators r ev ev') (henv : env.Agrees r N env') (k : Nat)
    (hv : v.Alike r w) :
    Parallel r (Alike r) (expandFully l ev env k v) (expandFully l ev' env' k w) := by
  induction k generalizing v w with
  | zero => exact fun _ _ _ => .outOfFuel
  | succ k ih =>
    apply Parallel.registry.bind
    intro R S hregistry
    have hcall := hregistry.macroCall? henv hv
    generalize R.macroCall? env v = call, S.macroCall? env' w = call' at hcall
    cases hcall with
    | some h => exact (hev.invoke h.1 h.2).bind fun _ _ hnext => ih hnext
    | none => exact .pure hv

theorem evalDefine (hev : ParallelEvaluators r ev ev') (henv : env.Agrees r N env')
    (hargs : List.Forall₂ (SameCode r N) args args') :
    Parallel r (Alike r) (evalDefine ev env args) (evalDefine ev' env' args') := by
  have hlength := hargs.length_eq
  rcases hargs with _ | ⟨htarget, _ | ⟨hform, _ | _⟩⟩
  · exact .wrongCount _ _ hlength
  · exact .wrongCount _ _ hlength
  · simp only [Eval.evalDefine, htarget.alike.symbol?_eq, htarget.alike.display_eq]
    split
    · exact .fail _
    · apply (hev henv hform).bind
      intro v w hv
      exact (Parallel.define _ hv).bind fun _ _ _ => .pure hv
  · exact .wrongCount _ _ hlength

theorem bindAll (hev : ParallelEvaluators r ev ev') (henv : env.Agrees r N env')
    (hargs : List.Forall₂ (SameCode r N) args args') :
    Parallel r (Env.Agrees r N) (bindAll ev env args) (bindAll ev' env' args') := by
  fun_induction Eval.bindAll ev env args generalizing env' args' with
  | case1 env target form rest h =>
    rcases hargs with _ | ⟨htarget, _ | ⟨hform, hrest⟩⟩
    simp only [Eval.bindAll, ← htarget.alike.symbol?_eq, ← htarget.alike.display_eq, h]
    exact .fail _
  | case2 env target form rest name h ih =>
    rcases hargs with _ | ⟨htarget, _ | ⟨hform, hrest⟩⟩
    simp only [Eval.bindAll, ← htarget.alike.symbol?_eq, h]
    apply (hev henv hform).bind
    intro v w hv
    exact ih v (henv.set name hv) hrest
  | case3 items env h =>
    rcases hargs with _ | ⟨htarget, _ | ⟨hform, hrest⟩⟩
    · exact .pure henv
    · exact .pure henv
    · exact absurd rfl (h _ _ _)

theorem evalLet (hev : ParallelEvaluators r ev ev') (henv : env.Agrees r N env')
    (hargs : List.Forall₂ (SameCode r N) args args') :
    Parallel r (Alike r) (evalLet ev env args) (evalLet ev' env' args') := by
  rcases hargs with _ | ⟨hbindings, hforms⟩
  · exact .fail _
  · have hdisplay := hbindings.alike.display_eq
    cases hbindings.alike with
    | seq hitems =>
      simp only [Eval.evalLet, Value.items?, hitems.length_eq]
      split
      · apply (hev.bindAll henv.child hbindings.items).bind
        intro inner inner' hinner
        exact hev.body hinner hforms
      · exact .fail _
    | _ =>
      simp only [Eval.evalLet, Value.items?, hdisplay]
      exact .fail _

theorem evalBranch (hev : ParallelEvaluators r ev ev') (henv : env.Agrees r N env')
    (hargs : List.Forall₂ (SameCode r N) args args') :
    Parallel r (Alike r) (evalBranch ev env args) (evalBranch ev' env' args') := by
  have hlength := hargs.length_eq
  rcases hargs with _ | ⟨htest, _ | ⟨hyes, _ | ⟨hno, _ | _⟩⟩⟩
  · exact .fail _
  · exact .fail _
  · apply (hev henv htest).bind
    intro v w hv
    rw [hv.truthy_eq]
    split
    · exact hev henv hyes
    · exact .pure (.atom _)
  · apply (hev henv htest).bind
    intro v w hv
    rw [hv.truthy_eq]
    split
    · exact hev henv hyes
    · exact hev henv hno
  · simp only [Eval.evalBranch, hlength]
    exact .fail _

theorem evalSpecial (hev : ParallelEvaluators r ev ev') (henv : env.Agrees r N env') (k : Nat)
    (f : SpecialForm) (hf : r = .own → f ≠ .evaluate ∧ f ≠ .defineMacro)
    (hargs : List.Forall₂ (SameCode r N) args args') :
    Parallel r (Alike r) (evalSpecial l k ev env f args) (evalSpecial l k ev' env' f args') := by
  have hlength := hargs.length_eq
  cases f <;> simp only [Eval.evalSpecial]
  case define => exact hev.evalDefine henv hargs
  case defineFunction => exact .evalDefineClosure _ (fun _ => rfl) henv hargs
  case function => exact .evalFunction henv hargs
  case bindLocals => exact hev.evalLet henv hargs
  case branch => exact hev.evalBranch henv hargs
  case sequence => exact hev.body henv hargs
  case defineMacro =>
    exact .evalDefineClosure _ (fun hr => absurd rfl (hf hr).2) henv hargs
  case quote =>
    rcases hargs with _ | ⟨hform, _ | _⟩
    · exact .wrongCount _ _ hlength
    · exact .pure hform.alike
    · exact .wrongCount _ _ hlength
  case template =>
    rcases hargs with _ | ⟨hform, _ | _⟩
    · exact .wrongCount _ _ hlength
    · exact hev.template henv hform
    · exact .wrongCount _ _ hlength
  case unquote => exact .fail _
  case splice => exact .fail _
  case expandOnce =>
    rcases hargs with _ | ⟨hform, _ | _⟩
    · exact .wrongCount _ _ hlength
    · exact (hev henv hform).bind fun _ _ hv => hev.expandOnce henv hv
    · exact .wrongCount _ _ hlength
  case expandFully =>
    rcases hargs with _ | ⟨hform, _ | _⟩
    · exact .wrongCount _ _ hlength
    · exact (hev henv hform).bind fun _ _ hv => hev.expandFully henv k hv
    · exact .wrongCount _ _ hlength
  case evaluate =>
    rcases hargs with _ | ⟨hform, _ | _⟩
    · exact .wrongCount _ _ hlength
    · -- a computed form can ask for every name, but it asks the empty environment on both sides
      cases r with
      | own => exact absurd rfl (hf rfl).1
      | whole => exact (hev henv hform).bind fun _ _ hv => hev (N := N) .empty (.of_whole hv)
    · exact .wrongCount _ _ hlength

/-! ## The evaluator -/

theorem evalCall (hev : ParallelEvaluators r ev ev') (henv : env.Agrees r N env')
    (hhead : v.SameCode r N w) (hargs : List.Forall₂ (SameCode r N) args args') :
    Parallel r (Alike r) (evalCall l ev env v args) (evalCall l ev' env' w args') := by
  have halike := SameCode.alike_of_forall₂ hargs
  have hdisplay : (Value.list (v :: args)).display = (Value.list (w :: args')).display :=
    Alike.display_eq (.seq (.cons hhead.alike halike))
  apply (hev henv hhead).bind
  intro callee callee' hcallee
  have hshown := hcallee.display_eq
  have htype := hcallee.typeName_eq
  cases hcallee with
  | @closure c d hrole hid hname hclauses hscope hplain =>
    have hclosure : (Value.closure c).Alike r (.closure d) :=
      .closure hrole hid hname hclauses hscope hplain
    simp only [hrole]
    cases hd : d.role with
    | expander =>
      -- the expansion can ask for every name, and it asks the environment of the call
      cases r with
      | own => simp [hclosure.macroFree.2.isPlain.role] at hd
      | whole => exact (hev.invoke hclosure halike).bind fun _ _ hform => hev henv (.of_whole hform)
    | function => exact (hev.each henv hargs).bind fun _ _ hvs => hev.apply hclosure hvs
  | builtin b => exact (hev.each henv hargs).bind fun _ _ hvs => hev.apply (.builtin b) hvs
  | _ =>
    simp only [hshown, htype, hdisplay]
    exact .fail _

/-- One step of evaluation does the same with the same code. -/
theorem step (hev : ParallelEvaluators r ev ev') (henv : env.Agrees r N env') (k : Nat)
    (h : v.SameCode r N w) :
    Parallel r (Alike r) (step l k ev env v) (step l k ev' env' w) := by
  cases h.alike with
  | atom a =>
    cases a with
    | symbol name => exact .resolve henv name h.symbol_mem
    | _ => exact .pure (.atom _)
  | @seq b items items' hitems =>
    cases b with
    | vector => exact (hev.each henv h.items).bind fun _ _ hvs => .pure (.seq hvs)
    | list =>
      cases h.items with
      | nil => exact .pure (.seq .nil)
      | @cons head head' args args' hhead hargs =>
        have hspecial : head.special? = head'.special? := by
          rw [Value.special?, Value.special?, hhead.alike.symbol?_eq]
        simp only [Eval.step, ← hspecial]
        cases hf : head.special? with
        | some f => exact hev.evalSpecial henv k f (fun hr => (h.direct hr).special hf) hargs
        | none => exact hev.evalCall henv hhead hargs
  | closure => exact .pure h.alike
  | builtin b => exact .pure (.builtin b)

end ParallelEvaluators

/-- The evaluator does the same with the same code in environments that agree on the names in
sight. -/
theorem parallel_eval (r : Sight) (l : Option Nat) (fuel : Nat) :
    ParallelEvaluators r (eval l fuel) (eval l fuel) := by
  induction fuel with
  | zero => exact fun _ _ _ _ _ _ _ _ _ _ => .outOfFuel
  | succ fuel ih => exact fun _ _ _ _ _ henv hform => ih.step henv fuel hform

end Eval

end Lisp
