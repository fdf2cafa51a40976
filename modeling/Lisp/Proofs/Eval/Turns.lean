import Lisp.Proofs.Eval.Attain
import Lisp.Proofs.Eval.Balance
import Lisp.Proofs.Eval.Expansion

/-!
# What a depth limit bounds

The limit counts calls that are in progress. It says nothing about computed forms, which follow each
other at the same depth: the call of a macro is over when its expansion is evaluated, and `eval` is
no call. Each of them is a turn that the run takes. The limit together with the size of forms bounds
everything else, since parts of a form are smaller at the same depth and bodies are one call deeper.
So a run can be followed without fuel when the number of its turns is given.
-/

namespace Lisp.Eval

variable {α β : Type} {s : State} {n d : Nat}

/-- From every state with `d` calls in progress, two computations do the same, and they leave `d`
calls in progress. -/
def AgreesAt (d : Nat) (x y : Eval α) : Prop := ∀ s, s.depth = d → x s = y s ∧ (y s).AtDepth d

namespace AgreesAt

variable {x y : Eval α} {f g : α → Eval β}

theorem of_balanced (h : Balanced x) : AgreesAt d x x := by
  rintro s rfl
  exact ⟨rfl, h s⟩

theorem bind (hx : AgreesAt d x y) (hf : ∀ a, AgreesAt d (f a) (g a)) :
    AgreesAt d (x >>= f) (y >>= g) := by
  intro s hs
  obtain ⟨heq, hdepth⟩ := hx s hs
  cases h : y s with
  | value a t =>
    rw [h] at hdepth
    rw [bind_of_value (heq.trans h), bind_of_value h]
    exact hf a t hdepth
  | fault e t =>
    rw [h] at hdepth
    rw [bind_of_fault (heq.trans h), bind_of_fault h]
    exact ⟨rfl, hdepth⟩
  | outOfFuel =>
    rw [bind_of_outOfFuel (heq.trans h), bind_of_outOfFuel h]
    exact ⟨rfl, trivial⟩

theorem within (h : AgreesAt d x y) (label : String) :
    AgreesAt d (within label x) (within label y) := by
  intro s hs
  obtain ⟨heq, hdepth⟩ := h s hs
  simp only [Eval.within, mapFault, heq]
  cases hy : y s <;> simp_all [Outcome.AtDepth]

/-- A nested computation is one call deeper, and it runs only within the limit. -/
theorem nested (h : d < n → AgreesAt (d + 1) x y) :
    AgreesAt d (nested (some n) x) (nested (some n) y) := by
  rintro s rfl
  rw [Eval.nested, Eval.nested]
  cases hlimit : (some n).filter (· < s.depth + 1) with
  | some m => exact ⟨rfl, rfl⟩
  | none =>
    have hroom : s.depth < n := by
      have hnot : ¬ n < s.depth + 1 := by simpa using hlimit
      omega
    obtain ⟨heq, hdepth⟩ := h hroom { s with depth := s.depth + 1 } rfl
    simp only [heq]
    cases hy : y { s with depth := s.depth + 1 } <;> simp_all [Outcome.AtDepth]

end AgreesAt

theorem respects_agreesAt (d : Nat) :
    Respects fun {α : Type} (x : Unit → Eval α) (y : Eval α) => AgreesAt d (x ()) y where
  pure _ := .of_balanced ((compatible_balanced none).pure _)
  bind := .bind
  fail c hc := .of_balanced ((compatible_balanced none).fail c hc)
  outOfFuel := .of_balanced (compatible_balanced none).outOfFuel
  within label h := h.within label
  registry := .of_balanced (compatible_balanced none).registry
  define name v := .of_balanced ((compatible_balanced none).define name v)
  freshName base := .of_balanced ((compatible_balanced none).freshName base)
  freshId := .of_balanced (compatible_balanced none).freshId
  write text := .of_balanced ((compatible_balanced none).write text)
  emit v := .of_balanced ((compatible_balanced none).emit v)
  consult f args := .of_balanced ((compatible_balanced none).consult f args)
  resolve env name := .of_balanced ((compatible_balanced none).resolve env name)

namespace AgreesAt

variable {ev ev' : Evaluator} {evs evs' : Evaluators}

theorem invoke (hev : d < n → ∀ env v, AgreesAt (d + 1) (ev env v) (ev' env v))
    (c : Closure Value) (args : List Value) :
    AgreesAt d (invoke (some n) ev c args) (invoke (some n) ev' c args) := by
  apply within
  apply nested
  intro hroom
  have hR := respects_agreesAt (d + 1)
  apply bind (hR.choose _ _ _)
  intro clause
  exact @Respects.body Unit _ (fun _ => ev) ev' hR _ _ fun form _ => hev hroom _ form

theorem expandFully (hev : d < n → ∀ env v, AgreesAt (d + 1) (ev env v) (ev' env v))
    (env : Env Value) (k : Nat) (form : Value) :
    AgreesAt d (expandFully (some n) ev env k form) (expandFully (some n) ev' env k form) := by
  have hR := respects_agreesAt d
  induction k generalizing form with
  | zero => exact hR.outOfFuel
  | succ k ih =>
    exact @Respects.expandFully_succ Unit (some n) (some n) _ (fun _ => ev) ev' hR (invoke hev) env
      (fun _ => k) k ih form

/-- What a step asks for: parts of the form, which are smaller, and computed forms, all at the depth
of the form, and bodies of calls, one call deeper and within the limit. -/
theorem step {form : Value}
    (hpart : ∀ env v, v.size < form.size → AgreesAt d (evs.part env v) (evs'.part env v))
    (hbody : d < n → ∀ env v, AgreesAt (d + 1) (evs.body env v) (evs'.body env v))
    (hcomputed : ∀ env v, AgreesAt d (evs.computed env v) (evs'.computed env v)) (k : Nat)
    (env : Env Value) : AgreesAt d (evs.step (some n) k env form) (evs'.step (some n) k env form) := by
  have hasked : Asked (some n) (some n) form.size
      (fun {α : Type} (x : Unit → Eval α) (y : Eval α) => AgreesAt d (x ()) y) (fun _ => evs) evs' :=
    ⟨fun env v hv => hpart env v hv, invoke hbody, hcomputed⟩
  exact Respects.step (respects_agreesAt d) env hasked (n := fun _ => k)
    fun env form => expandFully hbody env k form

end AgreesAt

/-- Evaluates a form under the depth limit `n` with a number of turns in place of fuel. Each computed
form takes a turn, and in full expansion each macro call does. Parts and bodies take none: if a part
were not smaller than the form, or a body not one call deeper or beyond the limit, the evaluation
would go on with `stop`. -/
def evalTurns (stop : Eval Value) (n turns : Nat) (env : Env Value) (form : Value) : Eval Value :=
  fun s =>
    Evaluators.step (some n) (turns + 1)
      { part := fun env' v s' =>
          if _h : s'.depth = s.depth ∧ v.size < form.size then evalTurns stop n turns env' v s'
          else stop s'
        body := fun env' v s' =>
          if _h : s'.depth = s.depth + 1 ∧ s'.depth ≤ n then evalTurns stop n turns env' v s'
          else stop s'
        computed := fun env' v s' =>
          if s'.depth = s.depth then
            match turns with
            | 0 => .outOfFuel
            | turns + 1 => evalTurns stop n turns env' v s'
          else stop s' }
      env form s
termination_by s => (turns, n - s.depth, form.size)
decreasing_by
  · obtain ⟨hdepth, hsize⟩ := _h
    rw [hdepth]
    exact Prod.Lex.right _ (Prod.Lex.right _ hsize)
  · exact Prod.Lex.right _ (Prod.Lex.left _ _ (by omega))
  · exact Prod.Lex.left _ _ (Nat.lt_succ_self _)

/-- Expands a form fully under the depth limit `n`, with a number of turns in place of fuel. -/
def expandTurns (stop : Eval Value) (n turns : Nat) (env : Env Value) (form : Value) : Eval Value :=
  fun s =>
    expandFully (some n)
      (fun env' v s' =>
        if s'.depth = s.depth + 1 ∧ s'.depth ≤ n then evalTurns stop n turns env' v s' else stop s')
      env (turns + 1) form s

variable {stop : Eval Value}

/-- Nothing ever comes to `stop`, and calls are left as often as they are entered. -/
theorem agreesAt_evalTurns (stop stop' : Eval Value) (n k d : Nat) (env : Env Value)
    (form : Value) : AgreesAt d (evalTurns stop n k env form) (evalTurns stop' n k env form) := by
  rintro s rfl
  -- the hypotheses are about smaller parts, about deeper bodies and about the turns that are left
  fun_induction evalTurns stop n k env form s with
  | case1 k env form s ihPart ihBody ihTurn =>
    rw [evalTurns]
    refine AgreesAt.step ?_ ?_ ?_ (k + 1) env s rfl
    · intro env' v hsize s' hdepth
      dsimp only
      rw [dif_pos ⟨hdepth, hsize⟩, dif_pos ⟨hdepth, hsize⟩, ← hdepth]
      exact ihPart env' v s' ⟨hdepth, hsize⟩
    · intro hroom env' v s' hdepth
      have hbody : s'.depth = s.depth + 1 ∧ s'.depth ≤ n := ⟨hdepth, by omega⟩
      dsimp only
      rw [dif_pos hbody, dif_pos hbody, ← hdepth]
      exact ihBody env' v s' hbody
    · intro env' v s' hdepth
      dsimp only
      rw [if_pos hdepth, if_pos hdepth, ← hdepth]
      cases k with
      | zero => exact ⟨rfl, trivial⟩
      | succ k => exact ihTurn env' v s'

/-- A run with some turns left, for each kind of form. -/
def Evaluators.ofTurns (stop : Eval Value) (n : Nat) : Nat → Evaluators
  | 0 => ⟨evalTurns stop n 0, evalTurns stop n 0, fun _ _ => outOfFuel⟩
  | k + 1 => ⟨evalTurns stop n (k + 1), evalTurns stop n (k + 1), evalTurns stop n k⟩

/-- Only computed forms take turns. -/
theorem evalTurns_eq_step (k : Nat) (env : Env Value) (form : Value) :
    evalTurns stop n k env form = (Evaluators.ofTurns stop n k).step (some n) (k + 1) env form := by
  funext s
  have hagrees (k d : Nat) (env : Env Value) (v : Value) :=
    agreesAt_evalTurns stop stop n k d env v
  rw [evalTurns]
  refine (AgreesAt.step ?_ ?_ ?_ (k + 1) env s rfl).1
  · intro env' v hsize s' hdepth
    dsimp only
    rw [dif_pos ⟨hdepth, hsize⟩]
    cases k <;> exact hagrees _ _ env' v s' hdepth
  · intro hroom env' v s' hdepth
    have hbody : s'.depth = s.depth + 1 ∧ s'.depth ≤ n := ⟨hdepth, by omega⟩
    dsimp only
    rw [dif_pos hbody]
    cases k <;> exact hagrees _ _ env' v s' hdepth
  · intro env' v s' hdepth
    dsimp only
    rw [if_pos hdepth]
    cases k with
    | zero => exact ⟨rfl, trivial⟩
    | succ k => exact hagrees k _ env' v s' hdepth

theorem expandTurns_eq (k : Nat) (env : Env Value) (form : Value) :
    expandTurns stop n k env form =
      expandFully (some n) (evalTurns stop n k) env (k + 1) form := by
  funext s
  refine (AgreesAt.expandFully ?_ env (k + 1) form s rfl).1
  intro hroom env' v s' hdepth
  dsimp only
  rw [if_pos ⟨hdepth, by omega⟩]
  exact agreesAt_evalTurns stop stop n k _ env' v s' hdepth

/-! ## Agreement with the evaluator -/

/-- If one computation does nothing but what another does, and attains it, they end in the same
ways. -/
theorem ends_iff_of_attains {x y : Nat → Eval α}
    (hxy : ∀ m, Approximates (fun _ => False) (x m) (y m)) (hyx : ∀ k, Attains x (y k))
    (o : Outcome α) : Ends x s o ↔ Ends y s o := by
  constructor
  · rintro ⟨ho, m, rfl⟩
    rcases hxy m s with hcut | heq
    · cases hxs : x m s <;> simp_all [Outcome.CutShort]
    · exact ⟨ho, m, heq.symm⟩
  · rintro ⟨ho, k, rfl⟩
    rcases hyx k s with hout | ⟨m, hm⟩
    · exact absurd hout ho
    · exact ⟨ho, m, hm m (Nat.le_refl m)⟩

/-- With enough fuel the evaluator ends as it does when its turns are given. -/
theorem attains_evalTurns (stop : Eval Value) (n k : Nat) (env : Env Value) (form : Value) :
    Attains (fun m => eval (some n) m env form) (evalTurns stop n k env form) := by
  intro s
  rw [(agreesAt_evalTurns stop outOfFuel n k _ env form s rfl).1]
  fun_induction evalTurns outOfFuel n k env form s with
  | case1 k env form s ihPart ihBody ihTurn =>
    refine Attains.of_add_one (x := fun m => eval (some n) m env form) ?_ s
    apply Attains.step
    · intro env' v s'
      dsimp only
      split
      · exact ihPart env' v s' ‹_›
      · exact Or.inl rfl
    · intro env' v s'
      dsimp only
      split
      · exact ihBody env' v s' ‹_›
      · exact Or.inl rfl
    · intro env' v s'
      dsimp only
      split
      · cases k with
        | zero => exact Or.inl rfl
        | succ k => exact ihTurn env' v s'
      · exact Or.inl rfl

/-- Whatever the evaluator does with some fuel, it does with as many turns. -/
theorem approximates_evalTurns {m k : Nat} (hmk : m ≤ k) (env : Env Value) (form : Value) :
    Approximates (fun _ => False) (eval (some n) m env form) (evalTurns stop n k env form) := by
  induction m generalizing k env form with
  | zero => exact .outOfFuel _
  | succ m ih =>
    obtain ⟨k, rfl⟩ := Nat.exists_eq_succ_of_ne_zero (Nat.ne_zero_of_lt hmk)
    rw [evalTurns_eq_step, eval, ← Evaluators.step_all]
    exact (compatible_fuel (some n)).step (ih (by omega)) (ih (by omega)) (ih (by omega))
      (by omega) (fun _ => .outOfFuel) env form

theorem nested_of_limit_le (x : Eval α) (h : n ≤ s.depth) :
    nested (some n) x s = .fault { cause := .tooDeep n } s := by
  have hfilter : (some n).filter (· < s.depth + 1) = some n := by
    simp [Option.filter, Nat.lt_succ_of_le h]
  simp only [nested, hfilter]

/-- A call that would nest deeper than the limit is refused. -/
theorem invoke_of_limit_le (ev : Evaluator) (c : Closure Value) (args : List Value)
    (h : n ≤ s.depth) :
    invoke (some n) ev c args s =
      .fault { cause := .tooDeep n, passed := [⟨c.label, none⟩] } s := by
  simp only [invoke, within, mapFault, nested_of_limit_le _ h, Fault.leave]

theorem not_ends_of_outOfFuel {x : Nat → Eval α} (h : ∀ fuel, x fuel s = .outOfFuel)
    (o : Outcome α) : ¬ Ends x s o := by
  rintro ⟨ho, fuel, rfl⟩
  exact ho (h fuel)

/-- A macro that expands to its own call, and a form that evaluates itself, run on under a limit of
ten calls: none of their calls is made inside another. -/
theorem not_ends_of_endless_turns :
    let call := Value.list [.symbol "m"]
    let again := Value.list [.symbol "eval", .symbol "f"]
    let m : Closure Value :=
      ⟨.expander, 0, some "m", [⟨⟨[], none⟩, [.list [.symbol "quote", call]]⟩], .empty⟩
    let s : State := { registry := { cells := [("m", .closure m), ("f", again)] } }
    ∀ o, ¬ Ends (fun fuel => eval (some 10) fuel .empty call) s o ∧
      ¬ Ends (fun fuel => expandFully (some 10) (eval (some 10) fuel) .empty fuel call) s o ∧
      ¬ Ends (fun fuel => eval (some 10) fuel .empty again) s o := by
  intro call again m s o
  have hcall : s.registry.macroCall? .empty call = some (m, []) := rfl
  have hinvoke (fuel : Nat) :
      invoke (some 10) (eval (some 10) (fuel + 1)) m [] s = .value call s := rfl
  refine ⟨not_ends_of_outOfFuel (fun fuel => ?_) o, not_ends_of_outOfFuel (fun fuel => ?_) o,
    not_ends_of_outOfFuel (fun fuel => ?_) o⟩
  · induction fuel with
    | zero => rfl
    | succ fuel ih =>
      cases fuel with
      | zero => rfl
      | succ fuel =>
        rw [eval_of_macroCall hcall, bind_of_value (hinvoke fuel)]
        exact ih
  · cases fuel with
    | zero => rfl
    | succ fuel =>
      -- The fuel of the macro stays, while the expansions that are left get fewer.
      have hexpand (k : Nat) :
          expandFully (some 10) (eval (some 10) (fuel + 1)) .empty k call s = .outOfFuel := by
        induction k with
        | zero => rfl
        | succ k ih =>
          rw [expandFully_of_macroCall hcall, bind_of_value (hinvoke fuel)]
          exact ih
      exact hexpand (fuel + 1)
  · induction fuel with
    | zero => rfl
    | succ fuel ih =>
      cases fuel with
      | zero => rfl
      | succ fuel => exact ih

/-- Under a depth limit, evaluating a form and expanding it end as soon as some number of turns is
enough for them, with the value or fault and the state that these turns lead to, and in no other
way. Turns are taken by computed forms and by full expansion only, whatever would `stop` the rest.
Calls of functions and of macros that would nest deeper than the limit are faults. -/
theorem ends_iff_ends_evalTurns (stop : Eval Value) (n : Nat) (env : Env Value) (form : Value)
    (s : State) (o : Outcome Value) :
    (Ends (fun fuel => eval (some n) fuel env form) s o ↔
      Ends (fun turns => evalTurns stop n turns env form) s o) ∧
    (Ends (fun fuel => expandFully (some n) (eval (some n) fuel) env fuel form) s o ↔
      Ends (fun turns => expandTurns stop n turns env form) s o) ∧
    ∀ (ev : Evaluator) (c : Closure Value) (args : List Value) (t : State), n ≤ t.depth →
      invoke (some n) ev c args t =
        .fault { cause := .tooDeep n, passed := [⟨c.label, none⟩] } t := by
  refine ⟨?_, ?_, fun ev c args t h => invoke_of_limit_le ev c args h⟩
  · apply ends_iff_of_attains
    · exact fun m => approximates_evalTurns (Nat.le_refl m) env form
    · exact fun k => attains_evalTurns stop n k env form
  · simp only [expandTurns_eq]
    apply ends_iff_of_attains
    · intro m
      exact (compatible_fuel (some n)).expandFully (approximates_evalTurns (Nat.le_refl m))
        (Nat.le_succ m) (fun _ => .outOfFuel) env form
    · exact fun k => Attains.expandFully (attains_evalTurns stop n k) env (k + 1) form

/-- A macro that expands to the call of a function, which calls the macro again: the third call
inside another is refused. -/
theorem tooDeep_of_third_call :
    let call := Value.list [.symbol "explode"]
    let explode : Closure Value := ⟨.expander, 0, some "explode",
      [⟨⟨[], none⟩, [.list [.symbol "quote", .list [.symbol "help"]]]⟩], .empty⟩
    let help : Closure Value := ⟨.function, 1, some "help", [⟨⟨[], none⟩, [call]⟩], .empty⟩
    let s : State :=
      { registry := { cells := [("explode", .closure explode), ("help", .closure help)] } }
    let refused := Outcome.fault
      { cause := .tooDeep 2, passed := [⟨"help", none⟩, ⟨"help", none⟩, ⟨"explode", none⟩] } s
    let deep := { s with depth := 2 }
    Ends (fun fuel => eval (some 2) fuel .empty call) s refused ∧
      Ends (fun turns => evalTurns (fail (.unbound "stop")) 2 turns .empty call) s refused ∧
      2 ≤ deep.depth ∧ invoke (some 2) (eval (some 2) 8) explode [] deep =
        .fault { cause := .tooDeep 2, passed := [⟨"explode", none⟩] } deep := by
  intro call explode help s refused deep
  have hend : Ends (fun fuel => eval (some 2) fuel .empty call) s refused := ⟨nofun, 8, rfl⟩
  have hdeep : 2 ≤ deep.depth := Nat.le_refl 2
  have hboth := ends_iff_ends_evalTurns (fail (.unbound "stop")) 2 .empty call s refused
  exact ⟨hend, hboth.1.1 hend, hdeep, hboth.2.2 (eval (some 2) 8) explode [] deep hdeep⟩

end Lisp.Eval
