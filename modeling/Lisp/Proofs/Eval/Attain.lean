import Lisp.Proofs.Eval.Compatible

/-!
# Enough fuel

A computation that is given more and more fuel attains another one if, wherever the other one ends,
it does the same from some fuel on. Every rule of the evaluator asks for finitely many evaluations of
parts before it ends. So what is enough for each of them is enough for the rule.
-/

namespace Lisp.Eval

variable {α β : Type}

def Attains (x : Nat → Eval α) (y : Eval α) : Prop :=
  ∀ s, y s = .outOfFuel ∨ ∃ n, ∀ m, n ≤ m → x m s = y s

namespace Attains

variable {x : Nat → Eval α} {y : Eval α} {f : Nat → α → Eval β} {g : α → Eval β}

theorem const (y : Eval α) : Attains (fun _ => y) y :=
  fun _ => Or.inr ⟨0, fun _ _ => rfl⟩

theorem outOfFuel (x : Nat → Eval α) : Attains x Eval.outOfFuel :=
  fun _ => Or.inl rfl

theorem bind (hx : Attains x y) (hf : ∀ a, Attains (fun m => f m a) (g a)) :
    Attains (fun m => x m >>= f m) (y >>= g) := by
  intro s
  rcases hx s with hout | ⟨n, hn⟩
  · exact Or.inl (bind_of_outOfFuel hout)
  · cases hy : y s with
    | value a t =>
      rw [bind_of_value hy]
      rcases hf a t with hout | ⟨k, hk⟩
      · exact Or.inl hout
      · refine Or.inr ⟨max n k, fun m hm => ?_⟩
        have hfirst : x m s = .value a t := (hn m (by omega)).trans hy
        exact (bind_of_value hfirst).trans (hk m (by omega))
    | fault e t =>
      refine Or.inr ⟨n, fun m hm => ?_⟩
      rw [bind_of_fault hy]
      exact bind_of_fault ((hn m hm).trans hy)
    | outOfFuel => exact Or.inl (bind_of_outOfFuel hy)

theorem within (h : Attains x y) (label : String) :
    Attains (fun m => within label (x m)) (within label y) := by
  intro s
  rcases h s with hout | ⟨n, hn⟩
  · left
    simp only [Eval.within, mapFault, hout]
  · refine Or.inr ⟨n, fun m hm => ?_⟩
    simp only [Eval.within, mapFault, hn m hm]

theorem nested (h : Attains x y) (l : Option Nat) :
    Attains (fun m => nested l (x m)) (nested l y) := by
  intro s
  rcases h { s with depth := s.depth + 1 } with hout | ⟨n, hn⟩
  · cases hl : l.filter (· < s.depth + 1) with
    | some n =>
      refine Or.inr ⟨0, fun m _ => ?_⟩
      simp only [Eval.nested, hl]
    | none =>
      left
      simp only [Eval.nested, hl, hout]
  · refine Or.inr ⟨n, fun m hm => ?_⟩
    simp only [Eval.nested, hn m hm]

theorem of_add_one (h : Attains (fun m => x (m + 1)) y) : Attains x y := by
  intro s
  rcases h s with hout | ⟨n, hn⟩
  · exact Or.inl hout
  · refine Or.inr ⟨n + 1, fun m hm => ?_⟩
    obtain ⟨k, rfl⟩ : ∃ k, m = k + 1 := ⟨m - 1, by omega⟩
    exact hn k (by omega)

theorem add (h : Attains x y) (k : Nat) : Attains (fun m => x (m + k)) y := by
  intro s
  rcases h s with hout | ⟨n, hn⟩
  · exact Or.inl hout
  · exact Or.inr ⟨n, fun m hm => hn (m + k) (by omega)⟩

end Attains

theorem congruence_attains (l : Option Nat) : Congruence l l Attains where
  pure _ := .const _
  bind := .bind
  fail _ _ := .const _
  outOfFuel := .const _
  within label h := h.within label
  nested h := h.nested l
  registry := .const _
  define _ _ := .const _
  freshName _ := .const _
  freshId := .const _
  write _ := .const _
  emit _ := .const _
  consult _ _ := .const _
  resolve _ _ := .const _

namespace Attains

variable {l : Option Nat} {ev : Nat → Evaluator} {ev' : Evaluator}

/-- However many expansions are allowed on the right, enough fuel allows them on the left. -/
theorem expandFully (hev : ∀ env v, Attains (fun m => ev m env v) (ev' env v)) (env : Env Value)
    (k : Nat) (form : Value) :
    Attains (fun m => expandFully l (ev m) env m form) (expandFully l ev' env k form) := by
  induction k generalizing ev form with
  | zero => exact outOfFuel _
  | succ k ih =>
    have hev' (env : Env Value) (v : Value) : Attains (fun m => ev (m + 1) env v) (ev' env v) :=
      (hev env v).add 1
    exact of_add_one ((congruence_attains l).expandFully_succ hev' (ih hev') form)

theorem step {evs : Evaluators} (hpart : ∀ env v, Attains (fun m => ev m env v) (evs.part env v))
    (hbody : ∀ env v, Attains (fun m => ev m env v) (evs.body env v))
    (hcomputed : ∀ env v, Attains (fun m => ev m env v) (evs.computed env v)) (k : Nat)
    (env : Env Value) (form : Value) :
    Attains (fun m => step l m (ev m) env form) (evs.step l k env form) := by
  have hR := congruence_attains l
  have hasked : Asked l l form.size Attains (fun m => Evaluators.all (ev m)) evs :=
    hR.asked hpart hbody hcomputed form.size
  have hstep := hR.toRespects.step env hasked (fun env form => expandFully hbody env k form)
  simpa only [Evaluators.step_all] using hstep

end Attains

end Lisp.Eval
