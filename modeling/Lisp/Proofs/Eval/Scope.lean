import Lisp.Proofs.Eval.Bounds
import Lisp.Proofs.Eval.Parallel

/-!
# Environments show only through lookups

How the frames of an environment are laid out does not matter, so a `let` with many bindings is a
`let` inside a `let`. And without macros and computed forms, neither does what an environment says
about names that do not stand in the form.
-/

namespace Lisp

open Value (Alike SameCode)

variable {α β : Type}

/-- Both runs used up their fuel, or none did. -/
theorem Outcome.Alike.outOfFuel_iff {r : Sight} {V : α → β → Prop} {o : Outcome α} {o' : Outcome β}
    (h : o.Alike r V o') : o = .outOfFuel ↔ o' = .outOfFuel := by
  cases h <;> simp

namespace Eval

/-- Each of two computations ends if the other one does, and they end alike. -/
structure EndAlike (r : Sight) (V : α → β → Prop) (x : Nat → Eval α) (y : Nat → Eval β)
    (s : State) : Prop where
  left (o : Outcome α) (h : Ends x s o) : ∃ o', Ends y s o' ∧ o.Alike r V o'
  right (o' : Outcome β) (h : Ends y s o') : ∃ o, Ends x s o ∧ o.Alike r V o'

theorem EndAlike.of_outcomes {r : Sight} {V : α → β → Prop} {x : Nat → Eval α} {y : Nat → Eval β}
    {s : State} (h : ∀ n, (x n s).Alike r V (y n s)) : EndAlike r V x y s := by
  constructor
  · rintro _ ⟨hend, n, rfl⟩
    exact ⟨y n s, ⟨fun hout => hend ((h n).outOfFuel_iff.2 hout), n, rfl⟩, h n⟩
  · rintro _ ⟨hend, n, rfl⟩
    exact ⟨x n s, ⟨fun hout => hend ((h n).outOfFuel_iff.1 hout), n, rfl⟩, h n⟩

theorem EndAlike.congr {r : Sight} {V : α → β → Prop} {x x' : Nat → Eval α} {y y' : Nat → Eval β}
    {s : State} (h : EndAlike r V x y s) (hx : ∀ o, Ends x' s o ↔ Ends x s o)
    (hy : ∀ o, Ends y' s o ↔ Ends y s o) : EndAlike r V x' y' s := by
  constructor
  · intro o ho
    simpa only [hy] using h.left o ((hx o).1 ho)
  · intro o ho
    simpa only [hx] using h.right o ((hy o).1 ho)

/-- Bindings in a row are bindings after bindings. -/
theorem bindAll_append (ev : Evaluator) (env : Env Value) (B C : List Value)
    (hB : B.length % 2 = 0) :
    bindAll ev env (B ++ C) = bindAll ev env B >>= fun inner => bindAll ev inner C := by
  fun_induction bindAll ev env B with
  | case1 env target form rest h =>
    simp only [List.cons_append, bindAll, h]
    rfl
  | case2 env target form rest name h ih =>
    have hrest : rest.length % 2 = 0 := by
      simp only [List.length_cons] at hB
      omega
    simp only [List.cons_append, bindAll, h, bind_assoc, fun v => ih v hrest]
  | case3 items env h =>
    rcases items with _ | ⟨target, _ | ⟨form, rest⟩⟩
    · rfl
    · simp at hB
    · exact absurd rfl (h target form rest)

def bindThenBody (l : Option Nat) (n : Nat) (items forms : List Value) (env : Env Value) :
    Eval Value := do
  let inner ← bindAll (eval l n) env items
  body (eval l n) inner forms

theorem eval_let (l : Option Nat) (n : Nat) (env : Env Value) (B forms : List Value)
    (hB : B.length % 2 = 0) :
    eval l (n + 1) env (.list (.symbol "let" :: .vector B :: forms)) =
      bindThenBody l n B forms env.child := by
  have hname : SpecialForm.ofName? "let" = some .bindLocals :=
    SpecialForm.ofName?_eq_some_iff.2 rfl
  have hspecial : (Value.symbol "let").special? = some .bindLocals := hname
  simp only [eval, step, hspecial, evalSpecial, evalLet, Value.items?, hB, if_true, bindThenBody]

theorem grows_bindAll (l : Option Nat) (env : Env Value) (items : List Value) :
    Grows fun n => bindAll (eval l n) env items :=
  fun _ _ hnm => (compatible_fuel l).bindAll (fun env v => grows_eval l env v hnm) env items

theorem grows_body (l : Option Nat) (env : Env Value) (forms : List Value) :
    Grows fun n => body (eval l n) env forms :=
  fun _ _ hnm => (compatible_fuel l).body (fun env v => grows_eval l env v hnm) env forms

theorem grows_bindThenBody (l : Option Nat) (items forms : List Value) (env : Env Value) :
    Grows fun n => bindThenBody l n items forms env :=
  (grows_bindAll l env items).bind fun inner => grows_body l inner forms

theorem eval_let_append (l : Option Nat) (n : Nat) (env : Env Value) (B C forms : List Value)
    (hB : B.length % 2 = 0) (hC : C.length % 2 = 0) :
    eval l (n + 1) env (.list (.symbol "let" :: .vector (B ++ C) :: forms)) =
      bindAll (eval l n) env.child B >>= bindThenBody l n C forms := by
  have hBC : (B ++ C).length % 2 = 0 := by
    rw [List.length_append]
    omega
  rw [eval_let l n env _ forms hBC, bindThenBody, bindAll_append _ _ B C hB, bind_assoc]
  rfl

theorem eval_let_let (l : Option Nat) (n : Nat) (env : Env Value) (B C forms : List Value)
    (hB : B.length % 2 = 0) (hC : C.length % 2 = 0) :
    eval l (n + 2) env (.list [.symbol "let", .vector B,
      .list (.symbol "let" :: .vector C :: forms)]) =
      bindAll (eval l (n + 1)) env.child B >>= fun inner =>
        bindThenBody l n C forms inner.child := by
  rw [eval_let l (n + 1) env B _ hB, bindThenBody]
  congr 1
  funext inner
  rw [body, eval_let l n inner C forms hC]

/-- The same bindings and body do the same below an empty frame. -/
theorem parallel_bindThenBody (l : Option Nat) (n : Nat) (items forms : List Value)
    {N : Set String} {env env' : Env Value} (h : env.Agrees .whole N env') :
    Parallel .whole (Alike .whole) (bindThenBody l n items forms env)
      (bindThenBody l n items forms env'.child) := by
  apply ((parallel_eval .whole l n).bindAll h.child_right (SameCode.refl_whole items)).bind
  intro inner inner' hinner
  exact (parallel_eval .whole l n).body hinner (SameCode.refl_whole forms)

/-- One `let` with the bindings `B` and `C` does the same as a `let` with the bindings `C` inside a
`let` with the bindings `B`: both end with the same fault, or with values that differ in the frames
of captured environments only. -/
theorem endAlike_let_append (l : Option Nat) (env : Env Value) (B C forms : List Value) (s : State)
    (hB : B.length % 2 = 0) (hC : C.length % 2 = 0) :
    EndAlike .whole (Alike .whole)
      (fun fuel => eval l fuel env (.list (.symbol "let" :: .vector (B ++ C) :: forms)))
      (fun fuel => eval l fuel env (.list [.symbol "let", .vector B,
        .list (.symbol "let" :: .vector C :: forms)])) s := by
  have henv : env.child.Agrees .whole Set.univ env.child := .refl nofun
  -- with the same fuel for all parts, the two runs are parallel
  have hsame : EndAlike .whole (Alike .whole)
      (fun n => bindAll (eval l n) env.child B >>= bindThenBody l n C forms)
      (fun n => bindAll (eval l n) env.child B >>= fun inner =>
        bindThenBody l n C forms inner.child) s := by
    apply EndAlike.of_outcomes
    intro n
    have hbindings := (parallel_eval .whole l n).bindAll henv (SameCode.refl_whole B)
    exact hbindings.bind (fun _ _ h => parallel_bindThenBody l n C forms h) s s (.refl nofun)
  apply hsame.congr
  · intro o
    rw [← (grows_eval l env _).ends_add_iff 1]
    simp only [eval_let_append l _ env B C forms hB hC]
  · intro o
    -- the inner `let` is a form of its own, so its parts have less fuel than the outer bindings
    have hgrows (inner : Env Value) : Grows fun n => bindThenBody l n C forms inner.child :=
      grows_bindThenBody l C forms inner.child
    rw [← (grows_eval l env _).ends_add_iff 2, ← (grows_bindAll l env.child B).ends_bind_add_iff
      hgrows 1]
    simp only [eval_let_let l _ env B C forms hB hC]

/-- A function that is made between two bindings, and the name that it uses bound anew after it. The
two functions have captured different environments. -/
theorem endAlike_let_append_rebound :
    let B : List Value := [.symbol "x", .int 1]
    let C : List Value := [.symbol "f", .list [.symbol "fn", .vector [], .symbol "x"],
      .symbol "x", .int 2]
    let joint := Value.list [.symbol "let", .vector (B ++ C), .symbol "f"]
    let nested := Value.list [.symbol "let", .vector B,
      .list [.symbol "let", .vector C, .symbol "f"]]
    let made (scope : Env Value) : Outcome Value := .value
      (.closure ⟨.function, 0, none, [⟨⟨[], none⟩, [.symbol "x"]⟩], scope⟩) { born := 1 }
    let once : Env Value := Env.empty.child.set "x" (.int 1)
    Ends (fun fuel => eval none fuel .empty joint) {} (made once) ∧
      Ends (fun fuel => eval none fuel .empty nested) {} (made once.child) ∧
      (made once).Alike .whole (Alike .whole) (made once.child) := by
  intro B C joint nested made once
  have hjoint : Ends (fun fuel => eval none fuel .empty joint) {} (made once) := by
    simp only [joint, B, C, List.cons_append, List.nil_append]
    exact ⟨nofun, 3, rfl⟩
  have hnested : Ends (fun fuel => eval none fuel .empty nested) {} (made once.child) := by
    simp only [nested, B, C]
    exact ⟨nofun, 4, rfl⟩
  have hsame := endAlike_let_append none .empty B C [.symbol "f"] {} (by simp [B]) (by simp [C])
  obtain ⟨o, ho, halike⟩ := hsame.left _ hjoint
  have heq : o = made once.child := (grows_eval none .empty nested).ends_unique ho hnested
  exact ⟨hjoint, hnested, heq ▸ halike⟩

/-- Scope is static. If no macro can be reached from a form, from two environments or from a
definition, and neither the form nor the body of a function that can be reached names `eval` or
`defmacro`, then evaluating the form does the same in both environments, as soon as they give the
same for every name in the form: both end with the same fault, or with values that differ only in
what closures captured for names that do not stand in their code. So a binding of a name that is not
in the form can be added or changed. -/
theorem endAlike_of_lookup_eq (l : Option Nat) (env : Env Value) (form : Value) (s : State)
    (hform : form.MacroFree) (hdirect : form.IsDirect) (hregistry : s.registry.MacroFree)
    (henv : env.MacroFree) :
    (∀ env' : Env Value, env'.MacroFree →
      (∀ name, form.Mentions name → env.get? name = env'.get? name) →
      EndAlike .own (Alike .own) (fun fuel => eval l fuel env form)
        (fun fuel => eval l fuel env' form) s) ∧
    ∀ (name : String) (v : Value), ¬ form.Mentions name → v.MacroFree →
      EndAlike .own (Alike .own) (fun fuel => eval l fuel env form)
        (fun fuel => eval l fuel (env.set name v) form) s := by
  have hall (env' : Env Value) (henv' : env'.MacroFree)
      (hlookup : ∀ name, form.Mentions name → env.get? name = env'.get? name) :
      EndAlike .own (Alike .own) (fun fuel => eval l fuel env form)
        (fun fuel => eval l fuel env' form) s := by
    have hagrees : env.Agrees .own {name | form.Mentions name} env' := by
      refine ⟨fun name hname => ?_, fun _ => ⟨henv, henv'⟩⟩
      have hself := (Env.Agrees.refl fun _ => henv : env.Agrees .own _ env).get? name hname
      rwa [hlookup name (hname rfl)] at hself ⊢
    have hcode : form.SameCode .own {name | form.Mentions name} form :=
      ⟨.refl form fun _ => hform, fun _ _ hname => hname, fun _ => hdirect⟩
    exact .of_outcomes fun n =>
      parallel_eval .own l n hagrees hcode s s (.refl fun _ => hregistry)
  refine ⟨hall, fun name v hname hv => hall _ (henv.set hv name) fun k hk => ?_⟩
  have hne : k ≠ name := fun heq => hname (heq ▸ hk)
  simp [Env.get?_set, hne]

/-- A function captures a binding that it has no name for. -/
theorem endAlike_of_lookup_eq_secret :
    let form := Value.list [.symbol "fn", .vector [], .symbol "x"]
    let env : Env Value := Env.empty.set "x" (.int 1)
    let made (scope : Env Value) : Outcome Value := .value
      (.closure ⟨.function, 0, none, [⟨⟨[], none⟩, [.symbol "x"]⟩], scope⟩) { born := 1 }
    Ends (fun fuel => eval none fuel env form) {} (made env) ∧
      (∃ o, Ends (fun fuel => eval none fuel (env.set "secret" (.int 2)) form) {} o ∧
        (made env).Alike .own (Alike .own) o) ∧
      ∃ o, Ends (fun fuel => eval none fuel env.child form) {} o ∧
        (made env).Alike .own (Alike .own) o := by
  intro form env made
  have hend : Ends (fun fuel => eval none fuel env form) {} (made env) := ⟨nofun, 1, rfl⟩
  have henv : env.MacroFree := Env.macroFree_empty.set (by simp) "x"
  obtain ⟨hlookup, hset⟩ := endAlike_of_lookup_eq none env form {} (by simp [form])
    (by simp [form, Value.IsDirect]) (Registry.macroFree_of_cells nofun) henv
  refine ⟨hend, (hset "secret" (.int 2) (by simp [form]) (by simp)).left _ hend, ?_⟩
  exact (hlookup env.child henv.child fun name _ => (Env.get?_child env name).symm).left _ hend

end Eval

end Lisp
