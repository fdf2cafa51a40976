import Lisp.Proofs.Eval.Halts

/-!
# Programs without macros end under a depth limit

As long as nothing can be reached that is a macro, and no form names `eval` or `defmacro`, the
evaluator evaluates parts of the form at hand, at the same depth, and the bodies of functions, one
call deeper. So no turn is ever taken. The parts get smaller and the limit bounds the depth, and what
a program defines, binds and makes on its way gives access to no macro either.
-/

namespace Lisp

theorem Value.IsDirect.special {head : Value} {args : List Value}
    (h : (Value.list (head :: args)).IsDirect) {f : SpecialForm} (hf : head.special? = some f) :
    f ≠ .evaluate ∧ f ≠ .defineMacro := by
  obtain ⟨name, hname, hofName⟩ := Option.bind_eq_some_iff.1 hf
  have hhead : head = .symbol name := by
    unfold Value.symbol? at hname
    split at hname <;> simp_all
  subst hhead
  rw [SpecialForm.ofName?_eq_some_iff] at hofName
  subst hofName
  constructor
  · rintro rfl
    exact h.1 (.item (.head _) .symbol)
  · rintro rfl
    exact h.2 (.item (.head _) .symbol)

namespace Eval

structure IsPart (m : Nat) (form : Value) : Prop where
  isCode : form.IsCode
  size_lt : form.size < m

theorem IsPart.of_mem {m : Nat} {b : Bracket} {items : List Value} {form : Value}
    (h : IsPart m (.seq b items)) (hform : form ∈ items) : IsPart m form :=
  ⟨h.isCode.of_mem hform, Nat.lt_trans (Value.size_lt_of_mem hform) h.size_lt⟩

/-- Evaluators that halt on what a form of size `m` at depth `d` can ask for: parts at the same
depth, and code one call deeper. -/
structure HaltsBelow (n d m : Nat) (evs : Evaluators) : Prop where
  part {env : Env Value} {form : Value} (henv : env.MacroFree) (hform : IsPart m form) :
    Halts d (evs.part env form) Value.MacroFree
  body {env : Env Value} {form : Value} (henv : env.MacroFree) (hform : form.IsCode)
    (hlimit : d < n) : Halts (d + 1) (evs.body env form) Value.MacroFree

namespace HaltsBelow

variable {n d m : Nat} {evs : Evaluators} {env : Env Value}

theorem invoke (hevs : HaltsBelow n d m evs) {c : Closure Value}
    (hc : (Value.closure c).MacroFree) {args : List Value} (hargs : ∀ v ∈ args, v.MacroFree) :
    Halts d (invoke (some n) evs.body c args) Value.MacroFree := by
  apply Halts.within
  apply Halts.nested
  intro hlimit
  apply (Halts.ofCause (Clause.choose_mem _ _ _)).bind
  intro clause hclause
  apply Halts.body
  intro form hform
  exact hevs.body (macroFree_callEnv hc _ hargs) (hc.isCode hclause hform) hlimit

theorem apply (hevs : HaltsBelow n d m evs) {callee : Value} (hcallee : callee.MacroFree)
    {args : List Value} (hargs : ∀ v ∈ args, v.MacroFree) :
    Halts d (apply (some n) evs.body callee args) Value.MacroFree := by
  cases callee with
  | closure c =>
    simp only [Eval.apply, hcallee.isPlain.role]
    exact hevs.invoke hcallee hargs
  | builtin b => exact Halts.callBuiltin b hargs
  | atom a => exact Halts.fail _
  | seq b items => exact Halts.fail _

mutual

theorem fill (hevs : HaltsBelow n d m evs) (henv : env.MacroFree) (names : Renaming) (v : Value)
    (hv : IsPart m v) : Halts d (fill evs.part env names v) (·.1.MacroFree) := by
  cases v with
  | atom a =>
    cases a with
    | symbol name =>
      simp only [Eval.fill]
      split
      · exact (Halts.rename _ _ _).bind fun _ _ => Halts.pure (Value.macroFree_atom _)
      · exact Halts.pure (Value.macroFree_atom _)
    | _ => exact Halts.pure (Value.macroFree_atom _)
  | seq b items =>
    have hitems : ∀ w ∈ items, IsPart m w := fun w hw => hv.of_mem hw
    cases b with
    | list =>
      simp only [Eval.fill]
      split
      · apply (Halts.operand _ hitems).bind
        intro form hform
        exact (hevs.part henv hform).bind fun w hw => Halts.pure hw
      · split
        · exact Halts.fail _
        · split
          · exact Halts.pure hv.isCode.macroFree
          · exact (fillItems hevs henv names items hitems).bind fun _ hfilled =>
              Halts.pure (Value.macroFree_seq_iff.2 hfilled)
    | vector =>
      simp only [Eval.fill]
      exact (fillItems hevs henv names items hitems).bind fun _ hfilled =>
        Halts.pure (Value.macroFree_seq_iff.2 hfilled)
  | closure c => exact Halts.pure hv.isCode.macroFree
  | builtin b => exact Halts.pure hv.isCode.macroFree

theorem fillItems (hevs : HaltsBelow n d m evs) (henv : env.MacroFree) (names : Renaming)
    (items : List Value) (hitems : ∀ v ∈ items, IsPart m v) :
    Halts d (fillItems evs.part env names items) fun filled => ∀ v ∈ filled.1, v.MacroFree := by
  cases items with
  | nil => exact Halts.pure nofun
  | cons item rest =>
    obtain ⟨hitem, hrest⟩ := List.forall_mem_cons.1 hitems
    simp only [Eval.fillItems]
    split
    · rename_i inner hsplice
      have hinner : ∀ v ∈ inner, IsPart m v := by
        rw [spliceList?_eq_some hsplice] at hitem
        exact fun v hv => hitem.of_mem hv
      apply (Halts.operand _ hinner).bind
      intro form hform
      apply (hevs.part henv hform).bind
      intro v hv
      apply (Halts.spliced hv).bind
      intro now hnow
      apply (fillItems hevs henv names rest hrest).bind
      intro later hlater
      exact Halts.pure (List.forall_mem_append.2 ⟨hnow, hlater⟩)
    · apply (fill hevs henv names item hitem).bind
      intro filled hfilled
      apply (fillItems hevs henv filled.2 rest hrest).bind
      intro later hlater
      exact Halts.pure (List.forall_mem_cons.2 ⟨hfilled, hlater⟩)

end

theorem template (hevs : HaltsBelow n d m evs) (henv : env.MacroFree) {v : Value}
    (hv : IsPart m v) : Halts d (template evs.part env v) Value.MacroFree :=
  (hevs.fill henv [] v hv).bind fun _ hfilled => Halts.pure hfilled

theorem evalDefine (hevs : HaltsBelow n d m evs) (henv : env.MacroFree) {args : List Value}
    (hargs : ∀ v ∈ args, IsPart m v) : Halts d (evalDefine evs.part env args) Value.MacroFree := by
  unfold Eval.evalDefine
  split
  · split
    · exact Halts.fail _
    · apply (hevs.part henv (hargs _ (by simp))).bind
      intro v hv
      exact (Halts.define _ hv).bind fun _ _ => Halts.pure hv
  · exact Halts.fail _

theorem bindAll (hevs : HaltsBelow n d m evs) (henv : env.MacroFree) {items : List Value}
    (hitems : ∀ v ∈ items, IsPart m v) : Halts d (bindAll evs.part env items) Env.MacroFree := by
  fun_induction Eval.bindAll evs.part env items with
  | case1 env target form rest h => exact Halts.fail _
  | case2 env target form rest name h ih =>
    apply (hevs.part henv (hitems form (by simp))).bind
    intro v hv
    exact ih v (henv.set hv name) fun w hw => hitems w (by simp [hw])
  | case3 items env h => exact Halts.pure henv

theorem evalLet (hevs : HaltsBelow n d m evs) (henv : env.MacroFree) {args : List Value}
    (hargs : ∀ v ∈ args, IsPart m v) : Halts d (evalLet evs.part env args) Value.MacroFree := by
  unfold Eval.evalLet
  split
  · exact Halts.fail _
  · rename_i bindings forms
    obtain ⟨hbindings, hforms⟩ := List.forall_mem_cons.1 hargs
    split
    · exact Halts.fail _
    · rename_i items hitems
      obtain ⟨b, rfl⟩ := Value.items?_eq_some hitems
      split
      · apply (hevs.bindAll henv.child fun v hv => hbindings.of_mem hv).bind
        intro inner hinner
        exact Halts.body fun form hform => hevs.part hinner (hforms form hform)
      · exact Halts.fail _

theorem evalBranch (hevs : HaltsBelow n d m evs) (henv : env.MacroFree) {args : List Value}
    (hargs : ∀ v ∈ args, IsPart m v) : Halts d (evalBranch evs.part env args) Value.MacroFree := by
  unfold Eval.evalBranch
  split
  · apply (hevs.part henv (hargs _ (by simp))).bind
    intro test _
    split
    · exact hevs.part henv (hargs _ (by simp))
    · exact Halts.pure (Value.macroFree_atom _)
  · apply (hevs.part henv (hargs _ (by simp))).bind
    intro test _
    split
    · exact hevs.part henv (hargs _ (by simp))
    · exact hevs.part henv (hargs _ (by simp))
  · exact Halts.fail _

/-- The rules of all special forms but `eval` and `defmacro`. -/
theorem evalSpecial (hevs : HaltsBelow n d m evs) (henv : env.MacroFree) (k : Nat) {f : SpecialForm}
    (heval : f ≠ .evaluate) (hexpander : f ≠ .defineMacro) {args : List Value}
    (hargs : ∀ v ∈ args, IsPart m v) :
    Halts d (evs.evalSpecial (some n) (k + 1) env f args) Value.MacroFree := by
  have hcode : ∀ v ∈ args, v.IsCode := fun v hv => (hargs v hv).isCode
  have hparts : ∀ v ∈ args, Halts d (evs.part env v) Value.MacroFree :=
    fun v hv => hevs.part henv (hargs v hv)
  cases f <;> simp only [Evaluators.evalSpecial, Eval.evalSpecial]
  case define => exact hevs.evalDefine henv hargs
  case defineFunction => exact Halts.evalDefineClosure _ henv hcode
  case function => exact Halts.evalFunction henv hcode
  case bindLocals => exact hevs.evalLet henv hargs
  case branch => exact hevs.evalBranch henv hargs
  case sequence => exact Halts.body hparts
  case defineMacro => exact absurd rfl hexpander
  case quote =>
    split
    · exact Halts.pure (hcode _ (.head _)).macroFree
    · exact Halts.fail _
  case template =>
    split
    · exact hevs.template henv (hargs _ (.head _))
    · exact Halts.fail _
  case unquote => exact Halts.fail _
  case splice => exact Halts.fail _
  case expandOnce =>
    split
    · exact (hparts _ (.head _)).bind fun form hform => Halts.expandOnce henv hform
    · exact Halts.fail _
  case expandFully =>
    split
    · exact (hparts _ (.head _)).bind fun form hform => Halts.expandFully henv k hform
    · exact Halts.fail _
  case evaluate => exact absurd rfl heval

theorem evalCall (hevs : HaltsBelow n d m evs) (henv : env.MacroFree) {head : Value}
    {args : List Value} (hhead : IsPart m head) (hargs : ∀ v ∈ args, IsPart m v) :
    Halts d (evs.evalCall (some n) env head args) Value.MacroFree := by
  have heach : Halts d (each evs.part env args) fun vs => ∀ v ∈ vs, v.MacroFree :=
    Halts.each fun form hform => hevs.part henv (hargs form hform)
  apply (hevs.part henv hhead).bind
  intro callee hcallee
  cases callee with
  | closure c =>
    simp only [hcallee.isPlain.role]
    exact heach.bind fun vs hvs => hevs.apply hcallee hvs
  | builtin b => exact heach.bind fun vs hvs => hevs.apply hcallee hvs
  | atom a => exact Halts.fail _
  | seq b items => exact Halts.fail _

/-- One step of evaluation halts if what it asks for does. -/
theorem step {form : Value} (hevs : HaltsBelow n d form.size evs) (henv : env.MacroFree) (k : Nat)
    (hform : form.IsCode) : Halts d (evs.step (some n) (k + 1) env form) Value.MacroFree := by
  have hparts {b : Bracket} {items : List Value} (heq : form = .seq b items) :
      ∀ v ∈ items, IsPart form.size v := by
    subst heq
    exact fun v hv => ⟨hform.of_mem hv, Value.size_lt_of_mem hv⟩
  unfold Evaluators.step
  split
  · exact Halts.resolve henv _
  · apply (Halts.each fun v hv => hevs.part henv (hparts rfl v hv)).bind
    intro vs hvs
    exact Halts.pure (Value.macroFree_seq_iff.2 hvs)
  · exact Halts.pure (Value.macroFree_seq_iff.2 nofun)
  · obtain ⟨hhead, hargs⟩ := List.forall_mem_cons.1 (hparts rfl)
    split
    · obtain ⟨heval, hexpander⟩ := hform.isDirect.special ‹_›
      exact hevs.evalSpecial henv k heval hexpander hargs
    · exact hevs.evalCall henv hhead hargs
  · exact Halts.pure hform.macroFree

end HaltsBelow

/-- Code without macros takes no turns. -/
theorem keeps_evalTurns (stop : Eval Value) (n k : Nat) {env : Env Value} (henv : env.MacroFree)
    {form : Value} (hform : form.IsCode) {s : State} (hregistry : s.registry.MacroFree) :
    (evalTurns stop n k env form s).Keeps s.depth Value.MacroFree := by
  fun_induction evalTurns stop n k env form s with
  | case1 k env form s ihPart ihBody _ =>
    refine (HaltsBelow.step ⟨?_, ?_⟩ henv k hform).keeps s rfl hregistry
    · intro env' v henv' hv
      constructor
      intro s' hdepth hregistry'
      have hpart : s'.depth = s.depth ∧ v.size < form.size := ⟨hdepth, hv.size_lt⟩
      dsimp only
      rw [dif_pos hpart, ← hdepth]
      exact ihPart env' v s' hpart henv' hv.isCode hregistry'
    · intro env' v henv' hv hlimit
      constructor
      intro s' hdepth hregistry'
      have hbody : s'.depth = s.depth + 1 ∧ s'.depth ≤ n := ⟨hdepth, by omega⟩
      dsimp only
      rw [dif_pos hbody, ← hdepth]
      exact ihBody env' v s' hbody henv' hv hregistry'

/-- A program without macros ends under every depth limit: if no macro can be reached from a form,
from the environment or from a definition, and neither the form nor the body of a function that can
be reached names `eval` or `defmacro`, then evaluating the form ends with a value or a fault. -/
theorem exists_ends_eval_of_macroFree (n : Nat) (env : Env Value) (form : Value) (s : State)
    (henv : env.MacroFree) (hregistry : s.registry.MacroFree) (hform : form.MacroFree)
    (hdirect : form.IsDirect) : ∃ o, Ends (fun fuel => eval (some n) fuel env form) s o := by
  have hend : evalTurns outOfFuel n 0 env form s ≠ .outOfFuel := by
    intro hout
    have hkeeps := keeps_evalTurns outOfFuel n 0 henv ⟨hform, hdirect⟩ hregistry
    rw [hout] at hkeeps
    exact hkeeps
  rcases attains_evalTurns outOfFuel n 0 env form s with hout | ⟨fuel, hfuel⟩
  · exact absurd hout hend
  · exact ⟨evalTurns outOfFuel n 0 env form s, hend, fuel, hfuel fuel (Nat.le_refl fuel)⟩

/-- A function that calls itself for ever. -/
theorem exists_ends_eval_of_macroFree_forever :
    let again := Value.list [.symbol "forever", .list [.symbol "inc", .symbol "n"]]
    let forever : Closure Value :=
      ⟨.function, 0, some "forever", [⟨⟨["n"], none⟩, [again]⟩], .empty⟩
    let s : State :=
      { registry := { cells := [("inc", .builtin .inc), ("forever", .closure forever)] } }
    let call := Value.list [.symbol "forever", .int 0]
    s.registry.MacroFree ∧ ∃ o, Ends (fun fuel => eval (some 30) fuel .empty call) s o := by
  intro again forever s call
  have hagain : again.IsCode := ⟨by simp [again], by simp [again, Value.IsDirect]⟩
  have hforever : (Value.closure forever).MacroFree :=
    Value.macroFree_closure rfl Env.macroFree_empty (by simpa [forever] using hagain)
  have hregistry : s.registry.MacroFree :=
    Registry.macroFree_of_cells (by simp [s, hforever])
  refine ⟨hregistry, ?_⟩
  exact exists_ends_eval_of_macroFree 30 .empty call s Env.macroFree_empty hregistry
    (by simp [call]) (by simp [call, Value.IsDirect])

end Eval

end Lisp
