import Lisp.Proofs.Eval.Compatible

/-!
# The bounds of a run

A run has two bounds, its fuel and the depth limit. A tighter bound can cut a run short and changes
nothing else: no rule of the evaluator looks at a bound, and none of them stops a fault. Since the
fuel only grows, `Ends` says what a computation does when it is given as much fuel as it needs.
-/

namespace Lisp

variable {α β : Type}

/-- A run was cut short: its fuel was used up, or a fault of the given sort stopped it. -/
def Outcome.CutShort (G : Fault → Prop) : Outcome α → Prop
  | .value _ _ => False
  | .fault e _ => G e
  | .outOfFuel => True

namespace Eval

/-- One computation does the same as another, unless it is cut short. -/
def Approximates (G : Fault → Prop) (x y : Eval α) : Prop := ∀ s, (x s).CutShort G ∨ x s = y s

/-- At every depth the limits say the same, or the first one stops a call with a fault of the given
sort. -/
def Tighter (G : Fault → Prop) (l l' : Option Nat) : Prop :=
  ∀ d, l.filter (· < d) = l'.filter (· < d) ∨
    ∃ n, l.filter (· < d) = some n ∧ G { cause := .tooDeep n }

namespace Approximates

variable {G : Fault → Prop}

theorem refl (x : Eval α) : Approximates G x x := fun _ => Or.inr rfl

theorem outOfFuel (x : Eval α) : Approximates G outOfFuel x := fun _ => Or.inl trivial

theorem bind {x y : Eval α} {f g : α → Eval β} (hx : Approximates G x y)
    (hf : ∀ a, Approximates G (f a) (g a)) : Approximates G (x >>= f) (y >>= g) := by
  intro s
  have hxs := hx s
  cases h : x s with
  | value a t =>
    have hy : y s = .value a t := by simpa [h, Outcome.CutShort, eq_comm] using hxs
    rw [bind_of_value h, bind_of_value hy]
    exact hf a t
  | fault e t =>
    rw [bind_of_fault h]
    rcases hxs with hcut | heq
    · rw [h] at hcut
      exact Or.inl hcut
    · exact Or.inr (bind_of_fault (heq ▸ h)).symm
  | outOfFuel =>
    rw [bind_of_outOfFuel h]
    exact Or.inl trivial

theorem eq_of_ne {x y : Eval α} {s : State} (h : Approximates (fun _ => False) x y)
    (hx : x s ≠ .outOfFuel) : y s = x s := by
  rcases h s with hcut | heq
  · cases hxs : x s <;> simp_all [Outcome.CutShort]
  · exact heq.symm

theorem within {x y : Eval α} (hG : ∀ e p, G e → G (e.leave p)) (label : String)
    (h : Approximates G x y) : Approximates G (within label x) (within label y) := by
  intro s
  unfold Eval.within mapFault
  rcases h s with h | h
  · left
    cases hxs : x s with
    | value a t => simp [hxs, Outcome.CutShort] at h
    | fault e t =>
      rw [hxs] at h
      exact hG e _ h
    | outOfFuel => trivial
  · right
    rw [h]

/-- Past its own check, a nested computation does not depend on the limit. -/
theorem nested {l l' : Option Nat} {x y : Eval α} (hl : Tighter G l l') (h : Approximates G x y) :
    Approximates G (nested l x) (nested l' y) := by
  intro s
  unfold Eval.nested
  rcases hl (s.depth + 1) with hd | ⟨n, hd, hn⟩
  · rw [hd]
    cases l'.filter (· < s.depth + 1) with
    | some n => exact Or.inr rfl
    | none =>
      rcases h { s with depth := s.depth + 1 } with h | h
      · left
        cases hxs : x { s with depth := s.depth + 1 } <;> simp_all [Outcome.CutShort]
      · right
        simp only [h]
  · left
    rw [hd]
    exact hn

end Approximates

theorem compatible_approximates {G : Fault → Prop} (hG : ∀ e p, G e → G (e.leave p))
    {l l' : Option Nat} (hl : Tighter G l l') : Compatible l l' (Approximates G) where
  pure _ := .refl _
  bind := .bind
  fail _ _ := .refl _
  outOfFuel := .refl _
  within := .within hG
  nested := .nested hl
  registry := .refl _
  define _ _ := .refl _
  freshName _ := .refl _
  freshId := .refl _
  write _ := .refl _
  emit _ := .refl _
  consult _ _ := .refl _
  resolve _ _ := .refl _

def Grows (x : Nat → Eval α) : Prop :=
  ∀ ⦃n m : Nat⦄, n ≤ m → Approximates (fun _ => False) (x n) (x m)

/-- With enough fuel, a computation that starts from `s` ends in `o`. -/
def Ends (x : Nat → Eval α) (s : State) (o : Outcome α) : Prop :=
  o ≠ .outOfFuel ∧ ∃ fuel, x fuel s = o

theorem compatible_fuel (l : Option Nat) :
    Compatible l l (Approximates fun _ => False) :=
  compatible_approximates (fun _ _ h => h) fun _ => Or.inl rfl

theorem grows_eval (l : Option Nat) (env : Env Value) (form : Value) :
    Grows fun n => eval l n env form :=
  fun _ _ hnm => (compatible_fuel l).eval hnm (fun _ => .outOfFuel) env form

theorem grows_invoke (l : Option Nat) (c : Closure Value) (args : List Value) :
    Grows fun n => invoke l (eval l n) c args :=
  fun _ _ hnm => (compatible_fuel l).invoke (fun env v => grows_eval l env v hnm) c args

namespace Grows

variable {x : Nat → Eval α} {f : Nat → α → Eval β} {s t : State} {o o' : Outcome α}

theorem bind (hx : Grows x) (hf : ∀ a, Grows fun n => f n a) : Grows fun n => x n >>= f n :=
  fun _ _ hnm => .bind (hx hnm) fun a => hf a hnm

theorem eq_of_le (hx : Grows x) {n m : Nat} (hnm : n ≤ m) (h : x n s ≠ .outOfFuel) :
    x m s = x n s :=
  (hx hnm).eq_of_ne h

theorem eq_of_ends (hx : Grows x) (h : Ends x s o) : ∃ n, ∀ m, n ≤ m → x m s = o := by
  obtain ⟨ho, n, rfl⟩ := h
  exact ⟨n, fun m hnm => hx.eq_of_le hnm ho⟩

/-- A computation ends in one way. -/
theorem ends_unique (hx : Grows x) (h : Ends x s o) (h' : Ends x s o') : o = o' := by
  obtain ⟨n, hn⟩ := hx.eq_of_ends h
  obtain ⟨m, hm⟩ := hx.eq_of_ends h'
  rw [← hn (max n m) (Nat.le_max_left n m), hm (max n m) (Nat.le_max_right n m)]

theorem ends_add_iff (hx : Grows x) (k : Nat) : Ends (fun n => x (n + k)) s o ↔ Ends x s o := by
  constructor
  · rintro ⟨ho, n, h⟩
    exact ⟨ho, n + k, h⟩
  · intro h
    obtain ⟨n, hn⟩ := hx.eq_of_ends h
    exact ⟨h.1, n, hn (n + k) (Nat.le_add_right n k)⟩

/-- More fuel for the first part of a computation does not change how it ends. -/
theorem ends_bind_add_iff (hx : Grows x) (hf : ∀ a, Grows fun n => f n a) (k : Nat)
    {o : Outcome β} :
    Ends (fun n => x (n + k) >>= f n) s o ↔ Ends (fun n => x n >>= f n) s o := by
  constructor
  · rintro ⟨hend, n, rfl⟩
    have hmore : Approximates (fun _ => False) (x (n + k) >>= f n) (x (n + k) >>= f (n + k)) :=
      .bind (.refl _) fun a => hf a (Nat.le_add_right n k)
    exact ⟨hend, n + k, hmore.eq_of_ne hend⟩
  · rintro ⟨hend, n, rfl⟩
    have hmore : Approximates (fun _ => False) (x n >>= f n) (x (n + k) >>= f n) :=
      .bind (hx (Nat.le_add_right n k)) fun _ => .refl _
    exact ⟨hend, n, hmore.eq_of_ne hend⟩

/-- What follows a computation that ends with a value decides how both together end. -/
theorem ends_bind_iff_of_value (hx : Grows x) (hf : ∀ a, Grows fun n => f n a) {a : α}
    (h : Ends x s (.value a t)) {o : Outcome β} :
    Ends (fun n => x n >>= f n) s o ↔ Ends (fun n => f n a) t o := by
  obtain ⟨n, hn⟩ := hx.eq_of_ends h
  have hbind (m : Nat) (hm : n ≤ m) : (x m >>= f m) s = f m a t := bind_of_value (hn m hm)
  constructor
  · intro ho
    obtain ⟨k, hk⟩ := (hx.bind hf).eq_of_ends ho
    have hlimit := hk _ (Nat.le_max_right n k)
    exact ⟨ho.1, max n k, (hbind _ (Nat.le_max_left n k)).symm.trans hlimit⟩
  · intro ho
    obtain ⟨k, hk⟩ := (hf a).eq_of_ends ho
    have hlimit := hk _ (Nat.le_max_right n k)
    exact ⟨ho.1, max n k, (hbind _ (Nat.le_max_left n k)).trans hlimit⟩

/-- A fault ends everything that would follow. -/
theorem ends_bind_iff_of_fault (hx : Grows x) (hf : ∀ a, Grows fun n => f n a) {e : Fault}
    (h : Ends x s (.fault e t)) {o : Outcome β} :
    Ends (fun n => x n >>= f n) s o ↔ o = .fault e t := by
  have hfault : Ends (fun n => x n >>= f n) s (.fault e t) := by
    obtain ⟨-, n, hn⟩ := h
    exact ⟨nofun, n, bind_of_fault hn⟩
  constructor
  · exact fun ho => (hx.bind hf).ends_unique ho hfault
  · rintro rfl
    exact hfault

end Grows

/-- A smaller limit differs from a larger one, or from none, only by faults that say so. -/
theorem tighter_of_le {n : Nat} {l : Option Nat} (h : ∀ m, l = some m → n ≤ m) :
    Tighter (·.kind = .tooDeep) (some n) l := by
  intro d
  by_cases hd : n < d
  · exact Or.inr ⟨n, by simp [hd], rfl⟩
  · left
    cases l with
    | none => simpa using hd
    | some m =>
      have hm : ¬ m < d := fun hmd => hd (Nat.lt_of_le_of_lt (h m rfl) hmd)
      simp [Option.filter, hd, hm]

/-- A run that no depth limit stops goes the same way under every larger limit and under none: it
ends with the same value or fault and in the same state. -/
theorem ends_eval_of_limit_le (n : Nat) (l : Option Nat) (hl : ∀ m, l = some m → n ≤ m)
    (env : Env Value) (form : Value) (s : State) (o : Outcome Value)
    (hend : Ends (fun fuel => eval (some n) fuel env form) s o)
    (hkind : ∀ e t, o = .fault e t → e.kind ≠ .tooDeep) :
    Ends (fun fuel => eval l fuel env form) s o := by
  obtain ⟨ho, fuel, rfl⟩ := hend
  have hcomp : Compatible (some n) l (Approximates (·.kind = .tooDeep)) :=
    compatible_approximates (fun _ _ h => h) (tighter_of_le hl)
  have hsame := hcomp.eval (Nat.le_refl fuel) (fun h => absurd h (Nat.lt_irrefl fuel)) env form s
  refine ⟨ho, fuel, ?_⟩
  rcases hsame with hcut | heq
  · cases hrun : eval (some n) fuel env form s with
    | value v t => simp [hrun, Outcome.CutShort] at hcut
    | fault e t =>
      rw [hrun] at hcut
      exact absurd hcut (hkind e t hrun)
    | outOfFuel => exact absurd hrun ho
  · exact heq.symm

/-- A call one deep fails inside, and would fail so without the limit. -/
theorem ends_eval_of_limit_le_one :
    let call := Value.list [.list [.symbol "fn", .symbol "f", .vector [], .symbol "x"]]
    let failed := Outcome.fault { cause := .unbound "x", passed := [⟨"f", none⟩] } { born := 1 }
    Ends (fun fuel => eval (some 1) fuel .empty call) {} failed ∧
      Ends (fun fuel => eval none fuel .empty call) {} failed := by
  intro call failed
  have hend : Ends (fun fuel => eval (some 1) fuel .empty call) {} failed := ⟨nofun, 3, rfl⟩
  refine ⟨hend, ends_eval_of_limit_le 1 none nofun .empty call {} failed hend ?_⟩
  intro e t he
  obtain ⟨rfl, -⟩ := Outcome.fault.inj he
  decide

end Eval

end Lisp
