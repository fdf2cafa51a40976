import Lisp.Proofs.Eval.Compatible

/-!
# Calls are left as often as they are entered

A computation is balanced if it ends with as many calls in progress as it began with, whether with a
value or with a fault. Only a call changes their number, and it is over when its body is, so
everything that computations are made of is balanced.
-/

namespace Lisp

variable {α β : Type}

/-- A run that ended left `d` calls in progress. -/
def Outcome.AtDepth (d : Nat) : Outcome α → Prop
  | .value _ t => t.depth = d
  | .fault _ t => t.depth = d
  | .outOfFuel => True

namespace Eval

/-- A computation leaves the number of calls in progress as it finds it. -/
def Balanced (x : Eval α) : Prop := ∀ s, (x s).AtDepth s.depth

namespace Balanced

variable {x : Eval α} {f : α → Eval β}

theorem bind (hx : Balanced x) (hf : ∀ a, Balanced (f a)) : Balanced (x >>= f) := by
  intro s
  have hxs := hx s
  cases h : x s with
  | value a t =>
    rw [h] at hxs
    have hdepth : t.depth = s.depth := hxs
    rw [bind_of_value h, ← hdepth]
    exact hf a t
  | fault e t =>
    rw [h] at hxs
    rw [bind_of_fault h]
    exact hxs
  | outOfFuel =>
    rw [bind_of_outOfFuel h]
    trivial

theorem mapFault (hx : Balanced x) (g : Fault → Fault) : Balanced (x.mapFault g) := by
  intro s
  have hxs := hx s
  rw [Eval.mapFault]
  cases h : x s <;> simp_all [Outcome.AtDepth]

theorem nested (hx : Balanced x) (l : Option Nat) : Balanced (nested l x) := by
  intro s
  have hxs := hx { s with depth := s.depth + 1 }
  rw [Eval.nested]
  cases l.filter (· < s.depth + 1) with
  | some n => rfl
  | none =>
    dsimp only
    cases h : x { s with depth := s.depth + 1 } <;> simp_all [Outcome.AtDepth]

end Balanced

theorem compatible_balanced (l : Option Nat) : Compatible l l fun _ y => Balanced y where
  pure _ _ := rfl
  bind := .bind
  fail _ _ _ := rfl
  outOfFuel _ := trivial
  within _ h := h.mapFault _
  nested h := h.nested l
  registry _ := rfl
  define _ _ _ := rfl
  freshName _ _ := rfl
  freshId _ := rfl
  write _ _ := rfl
  emit _ _ := rfl
  consult _ _ _ := rfl
  resolve env name s := by
    rw [resolve]
    cases s.registry.resolve? env name <;> rfl

theorem balanced_run (b : Builtin) (args : List Value) : Balanced (b.run args) :=
  (compatible_balanced none).run b args

end Eval

end Lisp
