import Lisp.Proofs.Eval.Reach
import Mathlib.Data.List.Forall2

/-!
# Values that differ in captured bindings only

A closure keeps the environment that it was made in, and a program can look at it only by running the
closure. So two closures with the same code behave alike as soon as their environments say the same
about the names that the code can ask for. Which names these are depends on what a program may do. If
it may define macros and evaluate computed forms, code can ask for every name. Otherwise it asks only
for the names that stand in it.
-/

namespace Lisp

/-- What the code of a closure can ask its environment for: every name, or only the names that stand
in the code. The second goes with programs without macros. -/
inductive Sight where
  | whole
  | own

def Params.symbols (p : Params) : List String := p.names ++ p.rest.toList

/-- A name stands in the code of a closure. -/
inductive Closure.Mentions (name : String) (c : Closure Value) : Prop
  | own (h : c.name = some name)
  | param {clause : Clause Value} (hclause : clause ∈ c.clauses) (h : name ∈ clause.params.symbols)
  | body {clause : Clause Value} (hclause : clause ∈ c.clauses) {form : Value}
    (hform : form ∈ clause.body) (h : form.Mentions name)

inductive Clause.Matches {α : Type} (R : α → α → Prop) : Clause α → Clause α → Prop
  | intro (p : Params) {forms forms' : List α} (h : List.Forall₂ R forms forms') :
    Matches R ⟨p, forms⟩ ⟨p, forms'⟩

namespace Value

/-- Two values are the same but for bindings that closures captured: the environments of a closure
and of its counterpart give related values for every name in sight. -/
inductive Alike (r : Sight) : Value → Value → Prop
  | atom (a : Atom) : Alike r (atom a) (atom a)
  | seq {b : Bracket} {vs ws : List Value} (h : List.Forall₂ (Alike r) vs ws) :
    Alike r (seq b vs) (seq b ws)
  | closure {c d : Closure Value} (hrole : c.role = d.role) (hid : c.id = d.id)
    (hname : c.name = d.name)
    (hclauses : List.Forall₂ (Clause.Matches (Alike r)) c.clauses d.clauses)
    (hscope : ∀ name, (r = .own → c.Mentions name) →
      Option.Rel (Alike r) (c.scope.get? name) (d.scope.get? name))
    (hplain : r = .own → (closure c).MacroFree ∧ (closure d).MacroFree) :
    Alike r (closure c) (closure d)
  | builtin (b : Builtin) : Alike r (builtin b) (builtin b)

variable {r : Sight} {v v' w w' : Value} {vs vs' ws ws' : List Value} {name : String}

namespace Alike

mutual

/-- Induction over the elements of sequences. Closures are not taken apart. -/
theorem seqInduction {motive : ∀ v w, Alike r v w → Prop}
    (atom : ∀ a, motive _ _ (.atom a))
    (seq : ∀ b vs ws (h : List.Forall₂ (Alike r) vs ws),
      List.Forall₂ (fun v w => ∃ h, motive v w h) vs ws → motive (.seq b vs) (.seq b ws) (.seq h))
    (closure : ∀ c d (h : Alike r (.closure c) (.closure d)), motive _ _ h)
    (builtin : ∀ b, motive _ _ (.builtin b)) {v w : Value} (h : Alike r v w) : motive v w h := by
  cases v with
  | atom a =>
    cases h
    exact atom a
  | seq b vs =>
    cases h with
    | seq h => exact seq b vs _ h (itemsInduction atom seq closure builtin h)
  | closure c =>
    cases h with
    | closure hrole hid hname hclauses hscope hplain =>
      exact closure c _ (.closure hrole hid hname hclauses hscope hplain)
  | builtin b =>
    cases h
    exact builtin b

theorem itemsInduction {motive : ∀ v w, Alike r v w → Prop}
    (atom : ∀ a, motive _ _ (.atom a))
    (seq : ∀ b vs ws (h : List.Forall₂ (Alike r) vs ws),
      List.Forall₂ (fun v w => ∃ h, motive v w h) vs ws → motive (.seq b vs) (.seq b ws) (.seq h))
    (closure : ∀ c d (h : Alike r (.closure c) (.closure d)), motive _ _ h)
    (builtin : ∀ b, motive _ _ (.builtin b)) {vs ws : List Value}
    (h : List.Forall₂ (Alike r) vs ws) :
    List.Forall₂ (fun v w => ∃ h, motive v w h) vs ws := by
  cases vs with
  | nil =>
    cases h
    exact .nil
  | cons v vs =>
    cases h with
    | cons hv hvs =>
      exact .cons ⟨hv, seqInduction atom seq closure builtin hv⟩
        (itemsInduction atom seq closure builtin hvs)

end

theorem typeName_eq (h : Alike r v w) : v.typeName = w.typeName := by
  cases h with
  | closure hrole => simp only [typeName, hrole]
  | _ => rfl

theorem truthy_eq (h : Alike r v w) : v.truthy = w.truthy := by
  cases h <;> rfl

theorem isCallable_eq (h : Alike r v w) : v.isCallable = w.isCallable := by
  cases h with
  | closure hrole => simp only [isCallable, hrole]
  | _ => rfl

theorem symbol?_eq (h : Alike r v w) : v.symbol? = w.symbol? := by
  cases h <;> rfl

theorem map_eq {α : Type} {R : Value → Value → Prop} {f : Value → α}
    (hf : ∀ v w, R v w → f v = f w) (h : List.Forall₂ R vs ws) : vs.map f = ws.map f := by
  induction h with
  | nil => rfl
  | cons hv _ ih => rw [List.map_cons, List.map_cons, hf _ _ hv, ih]

theorem display_eq (h : Alike r v w) : v.display = w.display := by
  induction h using seqInduction with
  | atom a => rfl
  | seq b vs ws hitems ih =>
    have hdisplays : vs.map display = ws.map display := map_eq (fun _ _ h => h.2) ih
    simp only [display, displays_eq_map, hdisplays]
  | closure c d h =>
    cases h with
    | closure hrole _ hname => simp only [display, Closure.display, hrole, hname]
  | builtin b => rfl

theorem plain_eq (h : Alike r v w) : v.plain = w.plain := by
  cases h with
  | atom a => rfl
  | seq hitems => exact display_eq (.seq hitems)
  | closure hrole hid hname hclauses hscope hplain =>
    exact display_eq (.closure hrole hid hname hclauses hscope hplain)
  | builtin b => rfl

theorem sameAll_eq (h : List.Forall₂ (fun v w =>
      ∃ _ : Alike r v w, ∀ {v' w'}, Alike r v' w' → v.same v' = w.same w') vs ws)
    (h' : List.Forall₂ (Alike r) vs' ws') : sameAll vs vs' = sameAll ws ws' := by
  induction h generalizing vs' ws' with
  | nil => cases h' <;> rfl
  | cons hv _ ih =>
    cases h' with
    | nil => rfl
    | cons hv' hvs' => simp only [sameAll, hv.2 hv', ih hvs']

theorem same_eq (h : Alike r v w) (h' : Alike r v' w') : v.same v' = w.same w' := by
  induction h using seqInduction generalizing v' w' with
  | atom a => cases h' <;> rfl
  | seq b vs ws hitems ih =>
    cases h' with
    | seq hitems' => exact sameAll_eq ih hitems'
    | _ => rfl
  | closure c d h =>
    cases h with
    | closure hrole hid =>
      cases h' with
      | closure hrole' hid' => simp only [same, hrole, hid, hrole', hid']
      | _ => rfl
  | builtin b => cases h' <;> rfl

theorem mentions_iff (h : Alike r v w) : v.Mentions name ↔ w.Mentions name := by
  induction h using seqInduction with
  | atom a => rfl
  | seq b vs ws hitems ih =>
    simp only [mentions_seq_iff]
    clear hitems
    induction ih with
    | nil => rfl
    | cons hv _ ih => simp only [List.exists_mem_cons_iff, hv.2, ih]
  | closure c d h => constructor <;> rintro ⟨⟩
  | builtin b => rfl

theorem isDirect_iff (h : Alike r v w) : v.IsDirect ↔ w.IsDirect := by
  simp only [IsDirect, h.mentions_iff]

/-- Without macros, both values are free of them. -/
theorem macroFree (h : Alike .own v w) : v.MacroFree ∧ w.MacroFree := by
  induction h using seqInduction with
  | atom a => simp
  | seq b vs ws hitems ih =>
    simp only [macroFree_seq_iff]
    clear hitems
    induction ih with
    | nil => simp
    | cons hv _ ih => simpa only [List.forall_mem_cons, hv.2, true_and] using ih
  | closure c d h =>
    cases h with
    | closure _ _ _ _ _ hplain => exact hplain rfl
  | builtin b => simp

end Alike

theorem sizeOf_lt_of_holds (h : v.Holds w) : sizeOf w < sizeOf v := by
  cases h with
  | @item b items w hw =>
    have hlt := List.sizeOf_lt_of_mem hw
    simp only [seq.sizeOf_spec]
    omega
  | @bound c name w hget =>
    obtain ⟨frame, hframe, hlookup⟩ := List.exists_of_findSome?_eq_some hget
    obtain ⟨before, after, hbindings, -⟩ := List.lookup_eq_some_iff.1 hlookup
    have hmem : (name, w) ∈ frame.bindings := by simp [hbindings]
    have hlt := List.sizeOf_lt_of_mem hmem
    have hlt' := List.sizeOf_lt_of_mem hframe
    obtain ⟨bindings⟩ := frame
    obtain ⟨role, id, label, clauses, ⟨inner, outer⟩⟩ := c
    simp only [Env.frames, closure.sizeOf_spec, Closure.mk.sizeOf_spec, Env.mk.sizeOf_spec,
      Frame.mk.sizeOf_spec, Prod.mk.sizeOf_spec, List.cons.sizeOf_spec] at *
    omega
  | @code c clause w hclause hw =>
    have hlt := List.sizeOf_lt_of_mem hw
    have hlt' := List.sizeOf_lt_of_mem hclause
    obtain ⟨params, body⟩ := clause
    obtain ⟨role, id, name, clauses, scope⟩ := c
    simp only [closure.sizeOf_spec, Closure.mk.sizeOf_spec, Clause.mk.sizeOf_spec] at *
    omega

/-- A value is like itself. The induction goes through everything that it holds. -/
theorem Alike.refl (v : Value) (hv : r = .own → v.MacroFree) : Alike r v v := by
  have hholds (w : Value) (hw : v.Holds w) : Alike r w w :=
    have := sizeOf_lt_of_holds hw
    Alike.refl w fun hr => (hv hr).of_holds hw
  cases v with
  | atom a => exact .atom a
  | seq b items => exact .seq (List.forall₂_same.2 fun w hw => hholds w (.item hw))
  | closure c =>
    refine .closure rfl rfl rfl (List.forall₂_same.2 ?_) ?_ fun hr => ⟨hv hr, hv hr⟩
    · intro clause hclause
      exact .intro _ (List.forall₂_same.2 fun form hform => hholds form (.code hclause hform))
    · intro name _
      cases hget : c.scope.get? name with
      | none => exact .none
      | some w => exact .some (hholds w (.bound hget))
  | builtin b => exact .builtin b
termination_by sizeOf v

end Value

end Lisp
