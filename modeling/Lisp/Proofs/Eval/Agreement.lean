import Lisp.Proofs.Builtin.Alike
import Lisp.Proofs.Clause.Written
import Lisp.Proofs.Eval.Halts

/-!
# Environments, code and states of two runs that agree

Two runs of the same code agree if their environments say the same about the names that the code can
ask for. This module says what that means for environments, forms, global definitions and states, and
that binding names, reading clauses and defining keep it.
-/

namespace Lisp

open Value (Alike)

/-- Two environments agree on the names in sight of code with the names `N`. -/
structure Env.Agrees (r : Sight) (N : Set String) (env env' : Env Value) : Prop where
  get? (name : String) (h : r = .own → name ∈ N) :
    Option.Rel (Alike r) (env.get? name) (env'.get? name)
  macroFree : r = .own → env.MacroFree ∧ env'.MacroFree

/-- Two forms are the same code, and ask for nothing but the names `N`. -/
structure Value.SameCode (r : Sight) (N : Set String) (form form' : Value) : Prop where
  alike : form.Alike r form'
  mentions : r = .own → ∀ name, form.Mentions name → name ∈ N
  direct : r = .own → form.IsDirect

structure Clause.SameCode (r : Sight) (N : Set String) (c d : Clause Value) : Prop where
  body : c.Matches (Value.SameCode r N) d
  params : r = .own → ∀ name ∈ c.params.symbols, name ∈ N

/-- The same names are defined, in the same order, and mean alike values. -/
structure Registry.Alike (r : Sight) (R S : Registry) : Prop where
  names : R.cells.map Prod.fst = S.cells.map Prod.fst
  coreInstalled : R.coreInstalled = S.coreInstalled
  get? (name : String) : Option.Rel (Value.Alike r) (R.get? name) (S.get? name)

/-- Two states differ in captured bindings only. A value that was handed to the embedding program is
out of reach, so nothing is asked of it but to be the same. -/
structure State.Alike (r : Sight) (s t : State) : Prop where
  registry : s.registry.Alike r t.registry
  depth : s.depth = t.depth
  drawn : s.drawn = t.drawn
  born : s.born = t.born
  output : s.output = t.output
  emitted : List.Forall₂ (fun v w => v = w ∨ v.Alike r w) s.emitted t.emitted
  natives : s.natives = t.natives

/-- Two runs ended alike: with related values, or with the same fault. -/
inductive Outcome.Alike {α β : Type} (r : Sight) (V : α → β → Prop) : Outcome α → Outcome β → Prop
  | value {a : α} {b : β} {s t : State} (h : V a b) (hstate : s.Alike r t) :
    Alike r V (.value a s) (.value b t)
  | fault (e : Fault) {s t : State} (hstate : s.Alike r t) : Alike r V (.fault e s) (.fault e t)
  | outOfFuel : Alike r V .outOfFuel .outOfFuel

variable {r : Sight} {N : Set String} {env env' : Env Value} {v w : Value} {name : String}

namespace Env.Agrees

theorem refl (h : r = .own → env.MacroFree) : env.Agrees r N env := by
  refine ⟨fun name _ => ?_, fun hr => ⟨h hr, h hr⟩⟩
  cases hget : env.get? name with
  | none => exact .none
  | some v => exact .some (.refl v fun hr => h hr name v hget)

theorem empty : Env.Agrees r N .empty .empty :=
  .refl fun _ => Env.macroFree_empty

theorem child (h : env.Agrees r N env') : env.child.Agrees r N env'.child := by
  refine ⟨fun name hname => ?_, fun hr => ⟨(h.macroFree hr).1.child, (h.macroFree hr).2.child⟩⟩
  rw [Env.get?_child, Env.get?_child]
  exact h.get? name hname

/-- An empty frame says nothing. -/
theorem child_right (h : env.Agrees r N env') : env.Agrees r N env'.child := by
  refine ⟨fun name hname => ?_, fun hr => ⟨(h.macroFree hr).1, (h.macroFree hr).2.child⟩⟩
  rw [Env.get?_child]
  exact h.get? name hname

theorem set (h : env.Agrees r N env') (name : String) (hv : v.Alike r w) :
    (env.set name v).Agrees r N (env'.set name w) := by
  constructor
  · intro k hk
    rw [Env.get?_set, Env.get?_set]
    split
    · exact .some hv
    · exact h.get? k hk
  · rintro rfl
    obtain ⟨henv, henv'⟩ := h.macroFree rfl
    exact ⟨henv.set hv.macroFree.1 name, henv'.set hv.macroFree.2 name⟩

theorem bind (h : env.Agrees r N env') (p : Params) {args args' : List Value}
    (hargs : List.Forall₂ (Alike r) args args') :
    (p.bind .list env args).Agrees r N (p.bind .list env' args') := by
  have hnamed (names : List String) {args args' : List Value} {env env' : Env Value}
      (h : env.Agrees r N env') (hargs : List.Forall₂ (Alike r) args args') :
      ((names.zip args).foldl (fun e b => e.set b.1 b.2) env).Agrees r N
        ((names.zip args').foldl (fun e b => e.set b.1 b.2) env') := by
    induction names generalizing args args' env env' with
    | nil => exact h
    | cons name names ih =>
      cases hargs with
      | nil => exact h
      | cons hv hvs => exact ih (h.set name hv) hvs
  unfold Params.bind
  cases p.rest with
  | none => exact hnamed _ h hargs
  | some name => exact (hnamed _ h hargs).set name (.seq (List.forall₂_drop _ hargs))

/-- Alike closures are called in environments that agree on what stands in their code. -/
theorem callEnv {c d : Closure Value} (h : (Value.closure c).Alike r (.closure d)) (p : Params)
    {args args' : List Value} (hargs : List.Forall₂ (Alike r) args args') :
    (Eval.callEnv c p args).Agrees r {name | c.Mentions name} (Eval.callEnv d p args') := by
  have hname : c.name = d.name := by cases h; assumption
  have hscope : c.scope.Agrees r {name | c.Mentions name} d.scope := by
    cases h with
    | closure _ _ _ _ hscope hplain =>
      exact ⟨hscope, fun hr => ⟨(hplain hr).1.scope, (hplain hr).2.scope⟩⟩
  unfold Eval.callEnv
  -- the name of a closure is bound to the closure itself
  apply Env.Agrees.bind _ _ hargs
  rw [hname]
  cases d.name with
  | none => exact hscope.child
  | some name => exact hscope.child.set name h

end Env.Agrees

namespace Value.SameCode

variable {form form' : Value}

theorem symbol_mem (h : SameCode r N (.symbol name) form') : r = .own → name ∈ N :=
  fun hr => h.mentions hr name .symbol

theorem of_forall₂ {forms forms' : List Value} (h : List.Forall₂ (Value.Alike r) forms forms')
    (hforms : r = .own → ∀ form ∈ forms, (∀ name, form.Mentions name → name ∈ N) ∧ form.IsDirect) :
    List.Forall₂ (SameCode r N) forms forms' := by
  have hand := (List.forall₂_and_left _ _).2 ⟨fun form hform hr => hforms hr form hform, h⟩
  exact hand.imp fun _ _ h => ⟨h.2, fun hr => (h.1 hr).1, fun hr => (h.1 hr).2⟩

/-- The parts of code are code. -/
theorem items {b b' : Bracket} {items items' : List Value}
    (h : SameCode r N (.seq b items) (.seq b' items')) :
    List.Forall₂ (SameCode r N) items items' := by
  have hitems : List.Forall₂ (Value.Alike r) items items' := by cases h.alike; assumption
  apply of_forall₂ hitems
  intro hr v hv
  exact ⟨fun name hname => h.mentions hr name (.item hv hname),
    fun hm => (h.direct hr).1 (.item hv hm), fun hm => (h.direct hr).2 (.item hv hm)⟩

theorem of_whole (h : form.Alike .whole form') : SameCode .whole N form form' := ⟨h, nofun, nofun⟩

theorem refl_whole (forms : List Value) : List.Forall₂ (SameCode .whole N) forms forms :=
  List.forall₂_same.2 fun form _ => .of_whole (.refl form nofun)

theorem alike_of_forall₂ {forms forms' : List Value}
    (h : List.Forall₂ (SameCode r N) forms forms') : List.Forall₂ (Value.Alike r) forms forms' :=
  h.imp fun _ _ h => h.alike

end Value.SameCode

/-- The body of a closure and that of an alike one are the same code. -/
theorem Clause.Matches.sameCode {c d : Closure Value} {clause clause' : Clause Value}
    (h : (Value.closure c).Alike r (.closure d)) (hmem : clause ∈ c.clauses)
    (hclause : clause.Matches (Alike r) clause') :
    List.Forall₂ (Value.SameCode r {name | c.Mentions name}) clause.body clause'.body := by
  have hbody : List.Forall₂ (Alike r) clause.body clause'.body := by cases hclause; assumption
  apply Value.SameCode.of_forall₂ hbody
  rintro rfl form hform
  exact ⟨fun name hname => .body hmem hform hname, (h.macroFree.1.isCode hmem hform).isDirect⟩

theorem forall_mem_of_forall₂ {α β : Type} {R : α → β → Prop} {P : α → Prop} {xs : List α}
    {ys : List β} (hR : ∀ a b, R a b → P a) (h : List.Forall₂ R xs ys) : ∀ a ∈ xs, P a := by
  induction h with
  | nil => exact nofun
  | cons hab _ ih => exact List.forall_mem_cons.2 ⟨hR _ _ hab, ih⟩

theorem Value.SameCode.isCode {form form' : Value} (h : form.SameCode .own N form') :
    form.IsCode ∧ form'.IsCode :=
  ⟨⟨h.alike.macroFree.1, h.direct rfl⟩, h.alike.macroFree.2, h.alike.isDirect_iff.1 (h.direct rfl)⟩

namespace Clause

theorem SameCode.alike {c d : Clause Value} (h : c.SameCode r N d) : c.Matches (Alike r) d := by
  obtain ⟨⟨p, hbody⟩, -⟩ := h
  exact .intro p (Value.SameCode.alike_of_forall₂ hbody)

theorem SameCode.mentions {c d : Clause Value} (h : c.SameCode r N d) (hr : r = .own) :
    ∀ form ∈ c.body, ∀ name, form.Mentions name → name ∈ N := by
  obtain ⟨⟨p, hbody⟩, -⟩ := h
  exact forall_mem_of_forall₂ (fun _ _ h => h.mentions hr) hbody

theorem SameCode.isCode {c d : Clause Value} (h : c.SameCode .own N d) : c.IsCode ∧ d.IsCode := by
  obtain ⟨⟨p, hbody⟩, -⟩ := h
  exact ⟨forall_mem_of_forall₂ (fun _ _ h => h.isCode.1) hbody,
    forall_mem_of_forall₂ (fun _ _ h => h.isCode.2) hbody.flip⟩

variable {R : Clause Value → Clause Value → Prop} {clauses clauses' : List (Clause Value)}

theorem Matches.params_eq {c d : Clause Value} {R : Value → Value → Prop} (h : c.Matches R d) :
    c.params = d.params := by
  cases h
  rfl

theorem map_params_eq (hR : ∀ c d, R c d → c.params = d.params)
    (h : List.Forall₂ R clauses clauses') :
    clauses.map (·.params) = clauses'.map (·.params) := by
  induction h with
  | nil => rfl
  | cons hclause _ ih => simp only [List.map_cons, hR _ _ hclause, ih]

/-- Which clause a call takes depends on the parameters alone. -/
theorem select?_rel (hR : ∀ c d, R c d → c.params = d.params) (h : List.Forall₂ R clauses clauses')
    (n : Nat) : Option.Rel R (select? clauses n) (select? clauses' n) := by
  have hfind (p : Params → Bool) :
      clauses.findIdx? (fun c => p c.params) = clauses'.findIdx? (fun c => p c.params) := by
    have hmap := congrArg (List.findIdx? p) (map_params_eq hR h)
    simpa only [List.findIdx?_map, Function.comp_def] using hmap
  have hselect : selectIdx? clauses n = selectIdx? clauses' n := by
    simp only [selectIdx?, hfind fun p => !p.isVariadic && p.names.length == n,
      hfind fun p => p.isVariadic && decide (p.names.length ≤ n)]
  rw [select?, select?, hselect]
  cases selectIdx? clauses' n with
  | none => exact .none
  | some i => exact forall₂_getElem? h i

theorem choose_matches (label : String) (h : List.Forall₂ (Matches (Alike r)) clauses clauses')
    (n : Nat) : SameResult (fun c d => c ∈ clauses ∧ c.Matches (Alike r) d)
      (choose label clauses n) (choose label clauses' n) := by
  have hdescribe : describe clauses = describe clauses' := by
    have hmap := congrArg (List.map Params.shape) (map_params_eq (fun _ _ h => h.params_eq) h)
    simp only [List.map_map, Function.comp_def] at hmap
    rw [describe, describe, hmap]
  have hmem := (List.forall₂_and_left _ _).2 ⟨fun c hc => hc, h⟩
  have hselect := select?_rel (fun _ _ h => h.2.params_eq) hmem n
  rw [choose, choose, hdescribe]
  generalize select? clauses n = found, select? clauses' n = found' at hselect
  cases hselect with
  | some hclause => exact .ok hclause
  | none => exact .error _

end Clause

/-! ## Reading definitions -/

theorem Params.ofItems_eq {items items' : List Value} (h : List.Forall₂ (Alike r) items items') :
    ofItems items = ofItems items' := by
  induction h with
  | nil => rfl
  | @cons v v' vs vs' hv hvs ih =>
    have hdisplay := hv.display_eq
    cases hv with
    | atom a =>
      cases a with
      | symbol name =>
        by_cases hname : name = "&"
        · subst hname
          rcases hvs with _ | ⟨hw, _ | _⟩
          · rfl
          · cases hw <;> rfl
          · cases hw with
            | atom a => cases a <;> rfl
            | _ => rfl
        · simp only [ofItems, ih]
      | _ => rfl
    | _ => simp only [ofItems, hdisplay]

/-- The names of a parameter list are symbols of it. -/
theorem Params.symbol_mem_toItems {p : Params} {name : String} (h : name ∈ p.symbols) :
    Value.symbol name ∈ p.toItems := by
  obtain ⟨names, rest⟩ := p
  simp only [symbols, List.mem_append, Option.mem_toList] at h
  rcases h with hname | rfl
  · exact List.mem_append_left _ (List.mem_map_of_mem hname)
  · exact List.mem_append_right _ (.tail _ (.head _))

theorem Params.ofValue_sameCode (h : v.SameCode r N w) :
    SameResult (fun p q => p = q ∧ (r = .own → ∀ name ∈ p.symbols, name ∈ N)) (ofValue v)
      (ofValue w) := by
  have hdisplay := h.alike.display_eq
  cases h.alike with
  | @seq b items items' hitems =>
    simp only [ofValue, Value.items?, ← ofItems_eq hitems]
    cases hp : ofItems items with
    | error e => exact .error e
    | ok p =>
      obtain ⟨rfl, -⟩ := eq_toItems_of_ofItems hp
      refine .ok ⟨rfl, fun hr name hname => ?_⟩
      exact h.mentions hr name (.item (symbol_mem_toItems hname) .symbol)
  | _ =>
    simp only [ofValue, Value.items?, hdisplay]
    exact .error _

namespace Clause

variable {vs ws : List Value}

theorem ofValue_sameCode (h : v.SameCode r N w) :
    SameResult (SameCode r N) (ofValue v) (ofValue w) := by
  have hdisplay := h.alike.display_eq
  cases h.alike with
  | seq hitems =>
    rcases h.items with _ | ⟨hparams, hbody⟩
    · exact .error _
    · apply (Params.ofValue_sameCode hparams).bind
      rintro p _ ⟨rfl, hp⟩
      exact .ok ⟨.intro p hbody, hp⟩
  | _ =>
    simp only [ofValue, Value.items?, hdisplay]
    exact .error _

theorem ofValues_sameCode (h : List.Forall₂ (Value.SameCode r N) vs ws) :
    SameResult (List.Forall₂ (SameCode r N)) (ofValues vs) (ofValues ws) := by
  induction h with
  | nil => exact .ok .nil
  | cons hv _ ih =>
    apply (ofValue_sameCode hv).bind
    intro c d hclause
    apply ih.bind
    intro clauses clauses' hclauses
    exact .ok (.cons hclause hclauses)

theorem opens_eq (h : v.Alike r w) : opens v = opens w := by
  cases h with
  | @seq b vs ws hitems =>
    cases b with
    | vector => rfl
    | list =>
      cases hitems with
      | nil => rfl
      | cons hv _ => cases hv <;> rfl
  | _ => rfl

/-- Clauses that are read from the same code are the same code. -/
theorem parse_sameCode (h : List.Forall₂ (Value.SameCode r N) vs ws) :
    SameResult (List.Forall₂ (SameCode r N)) (parse vs) (parse ws) := by
  cases h with
  | nil => exact .error _
  | cons hv hvs =>
    rw [parse, parse, opens_eq hv.alike]
    split
    · exact ofValues_sameCode (.cons hv hvs)
    · apply (Params.ofValue_sameCode hv).bind
      rintro p _ ⟨rfl, hp⟩
      exact .ok (.cons ⟨.intro p hvs, hp⟩ .nil)

end Clause

theorem splitName_sameCode {args args' : List Value}
    (h : List.Forall₂ (Value.SameCode r N) args args') :
    SameResult (fun p q => p.1 = q.1 ∧ (r = .own → p.1 ∈ N) ∧
      List.Forall₂ (Value.SameCode r N) p.2 q.2) (splitName args) (splitName args') := by
  rcases h with _ | ⟨hv, hvs⟩
  · exact .error _
  · have hdisplay := hv.alike.display_eq
    cases hv.alike with
    | atom a =>
      cases a with
      | symbol name =>
        have hname := hv.symbol_mem
        -- a text after the name is left out if something comes after it
        rcases hvs with _ | ⟨hw, hws⟩
        · exact .ok ⟨rfl, hname, .nil⟩
        · cases hw.alike with
          | atom a =>
            cases a with
            | str text =>
              rcases hws with _ | ⟨hx, hxs⟩
              · exact .ok ⟨rfl, hname, .cons hw .nil⟩
              · exact .ok ⟨rfl, hname, .cons hx hxs⟩
            | _ => exact .ok ⟨rfl, hname, .cons hw hws⟩
          | _ => exact .ok ⟨rfl, hname, .cons hw hws⟩
      | _ => exact .error _
    | _ =>
      simp only [splitName, hdisplay]
      exact .error _

theorem Eval.splitOptionalName_sameCode {args args' : List Value}
    (h : List.Forall₂ (Value.SameCode r N) args args') :
    (splitOptionalName args).1 = (splitOptionalName args').1 ∧
      (r = .own → ∀ name, (splitOptionalName args).1 = some name → name ∈ N) ∧
      List.Forall₂ (Value.SameCode r N) (splitOptionalName args).2 (splitOptionalName args').2 := by
  rcases h with _ | ⟨hv, hvs⟩
  · exact ⟨rfl, nofun, .nil⟩
  · cases hv.alike with
    | atom a =>
      cases a with
      | symbol name =>
        refine ⟨rfl, ?_, hvs⟩
        rintro hr _ ⟨⟩
        exact hv.symbol_mem hr
      | _ => exact ⟨rfl, nofun, .cons hv hvs⟩
    | _ => exact ⟨rfl, nofun, .cons hv hvs⟩

/-- Closures made of the same code are alike. -/
theorem Value.alike_closure {role : Role} {name : Option String}
    {clauses clauses' : List (Clause Value)} (hrole : r = .own → role = .function) (id : Nat)
    (hname : r = .own → ∀ k, name = some k → k ∈ N)
    (hclauses : List.Forall₂ (Clause.SameCode r N) clauses clauses')
    (henv : env.Agrees r N env') :
    (Value.closure ⟨role, id, name, clauses, env⟩).Alike r
      (.closure ⟨role, id, name, clauses', env'⟩) := by
  refine .closure rfl rfl rfl (hclauses.imp fun _ _ h => h.alike) ?_ ?_
  · intro k hk
    apply henv.get? k
    intro hr
    cases hk hr with
    | own h => exact hname hr k h
    | param hmem h => exact (forall_mem_of_forall₂ (fun _ _ h => h.params hr) hclauses) _ hmem k h
    | body hmem hform h =>
      exact (forall_mem_of_forall₂ (fun _ _ h => h.mentions hr) hclauses) _ hmem _ hform k h
  · intro hr
    obtain ⟨hscope, hscope'⟩ := henv.macroFree hr
    subst hr
    have hcode : ∀ clause ∈ clauses, clause.IsCode :=
      forall_mem_of_forall₂ (fun _ _ h => h.isCode.1) hclauses
    have hcode' : ∀ clause ∈ clauses', clause.IsCode :=
      forall_mem_of_forall₂ (fun _ _ h => h.isCode.2) hclauses.flip
    exact ⟨macroFree_closure (hrole rfl) hscope hcode, macroFree_closure (hrole rfl) hscope' hcode'⟩

/-! ## Global definitions -/

namespace Registry

variable {R S : Registry}

theorem Alike.refl (h : r = .own → R.MacroFree) : R.Alike r R := by
  refine ⟨rfl, rfl, fun name => ?_⟩
  cases hget : R.get? name with
  | none => exact .none
  | some v => exact .some (.refl v fun hr => h hr name v hget)

theorem keys_put (name : String) (v w : Value) {cells cells' : List (String × Value)}
    (h : cells.map Prod.fst = cells'.map Prod.fst) :
    (put name v cells).map Prod.fst = (put name w cells').map Prod.fst := by
  induction cells generalizing cells' with
  | nil =>
    cases cells' with
    | nil => rfl
    | cons c rest => simp at h
  | cons c rest ih =>
    cases cells' with
    | nil => simp at h
    | cons c' rest' =>
      simp only [List.map_cons, List.cons.injEq] at h
      by_cases hk : c.1 = name
      · have hk' : c'.1 = name := h.1 ▸ hk
        simp [put, hk, hk', h.2]
      · have hk' : ¬ c'.1 = name := h.1 ▸ hk
        simp [put, hk', h.1, ih h.2]

theorem Alike.define (h : R.Alike r S) (name : String) (hv : v.Alike r w) :
    (R.define name v).Alike r (S.define name w) := by
  refine ⟨keys_put name v w h.names, h.coreInstalled, fun k => ?_⟩
  rw [get?_define, get?_define]
  split
  · exact .some hv
  · exact h.get? k

theorem Alike.resolve? (h : R.Alike r S) (henv : env.Agrees r N env') (name : String)
    (hname : r = .own → name ∈ N) :
    Option.Rel (Value.Alike r) (R.resolve? env name) (S.resolve? env' name) :=
  optionRel_or (henv.get? name hname) (h.get? name)

theorem Alike.macroFree (h : R.Alike .own S) : R.MacroFree ∧ S.MacroFree := by
  have hboth (name : String) : (∀ v, R.get? name = some v → v.MacroFree) ∧
      ∀ w, S.get? name = some w → w.MacroFree := by
    have hrel := h.get? name
    generalize R.get? name = found, S.get? name = found' at hrel
    cases hrel with
    | some hvw => simp [hvw.macroFree]
    | none => simp
  exact ⟨fun name => (hboth name).1, fun name => (hboth name).2⟩

/-- Two macro calls with alike macros and alike forms. -/
def AlikeCalls (r : Sight) (call call' : Closure Value × List Value) : Prop :=
  (Value.closure call.1).Alike r (.closure call'.1) ∧ List.Forall₂ (Value.Alike r) call.2 call'.2

theorem Alike.macroCall?_of_symbol (h : R.Alike .whole S) (henv : env.Agrees .whole N env')
    (name : String) {args args' : List Value}
    (hargs : List.Forall₂ (Value.Alike .whole) args args') :
    Option.Rel (AlikeCalls .whole) (R.macroCall? env (.list (.symbol name :: args)))
      (S.macroCall? env' (.list (.symbol name :: args'))) := by
  have hrel := h.resolve? henv name nofun
  simp only [Registry.macroCall?]
  generalize R.resolve? env name = found, S.resolve? env' name = found' at hrel
  split
  · exact .none
  · cases hrel with
    | none => exact .none
    | some hv =>
      cases hv with
      | closure hrole hid hname hclauses hscope hplain =>
        simp only [hrole]
        split
        · exact .some ⟨.closure hrole hid hname hclauses hscope hplain, hargs⟩
        · exact .none
      | _ => exact .none

/-- Alike forms call alike macros with alike forms. Without macros they call none. -/
theorem Alike.macroCall? (h : R.Alike r S) (henv : env.Agrees r N env') (hv : v.Alike r w) :
    Option.Rel (AlikeCalls r) (R.macroCall? env v) (S.macroCall? env' w) := by
  cases r with
  | own =>
    obtain ⟨hR, hS⟩ := h.macroFree
    obtain ⟨henv, henv'⟩ := henv.macroFree rfl
    rw [hR.macroCall?_eq_none henv, hS.macroCall?_eq_none henv']
    exact .none
  | whole =>
    cases hv with
    | @seq b items items' hitems =>
      rcases b, hitems with ⟨_ | _, _ | ⟨hhead, hargs⟩⟩
      case list.cons =>
        cases hhead with
        | atom a =>
          cases a with
          | symbol name => exact h.macroCall?_of_symbol henv name hargs
          | _ => exact .none
        | _ => exact .none
      all_goals exact .none
    | _ => exact .none

end Registry

theorem State.Alike.refl {s : State} (h : r = .own → s.registry.MacroFree) : s.Alike r s :=
  ⟨.refl h, rfl, rfl, rfl, rfl, List.forall₂_same.2 fun _ _ => Or.inl rfl, rfl⟩

end Lisp
