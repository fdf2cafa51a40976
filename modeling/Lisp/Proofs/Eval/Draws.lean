import Lisp.Proofs.Eval.Compatible

/-!
# Generated names

A generated name is some beginning, two underscores and a number. Whatever the beginning is, the
digits after the last underscore are the number, so names with different numbers differ. The numbers
come from a counter that nothing but the generation of a name touches, and that no fault sets back.
So the names that a computation draws carry numbers in a row, from the counter at its start to the
counter at its end.
-/

namespace Lisp

def generatedName (base : String) (n : Nat) : String := base ++ "__" ++ Decimal.ofNat n

theorem toList_generatedName (base : String) (n : Nat) :
    (generatedName base n).toList = base.toList ++ '_' :: '_' :: Decimal.digits n := by
  simp [generatedName, Decimal.ofNat]

/-- The digits that a generated name ends with are those of its number. -/
theorem takeWhile_generatedName (base : String) (n : Nat) :
    (generatedName base n).toList.reverse.takeWhile Decimal.isDigit =
      (Decimal.digits n).reverse := by
  have hdigits : ∀ c ∈ (Decimal.digits n).reverse, Decimal.isDigit c = true := by
    intro c hc
    exact List.all_eq_true.1 (Decimal.all_isDigit_digits n) c (List.mem_reverse.1 hc)
  have hunderscore : Decimal.isDigit '_' = false := by decide
  simp [toList_generatedName, List.takeWhile_append_of_pos hdigits, hunderscore]

/-- Names with different numbers differ, whatever they start with. -/
theorem generatedName_inj {base base' : String} {n n' : Nat}
    (h : generatedName base n = generatedName base' n') : n = n' := by
  have hdigits : (Decimal.digits n).reverse = (Decimal.digits n').reverse := by
    rw [← takeWhile_generatedName base, h, takeWhile_generatedName]
  rw [← Decimal.value_digits n, List.reverse_inj.1 hdigits, Decimal.value_digits]

/-- A generated name ends with a digit, so it stands for no other generated name. -/
theorem autoBase?_generatedName (base : String) (n : Nat) :
    autoBase? (generatedName base n) = none := by
  have hlast : ∃ c cs, (Decimal.digits n).reverse = c :: cs := by
    apply List.exists_cons_of_ne_nil
    simpa using Decimal.digits_ne_nil n
  obtain ⟨c, cs, hcs⟩ := hlast
  have hdigit : Decimal.isDigit c = true := by
    apply List.all_eq_true.1 (Decimal.all_isDigit_digits n)
    apply List.mem_reverse.1
    simp [hcs]
  have hc : c ≠ '#' := by
    rintro rfl
    cases hdigit
  simp [autoBase?, toList_generatedName, hcs, hc]

/-- Names that carry the numbers from `n` on, up to but not including `m`. -/
inductive Numbered : Nat → List String → Nat → Prop
  | nil (n : Nat) : Numbered n [] n
  | cons {n m : Nat} {names : List String} (base : String) (h : Numbered (n + 1) names m) :
    Numbered n (generatedName base n :: names) m

namespace Numbered

variable {n m k : Nat} {names names' : List String}

theorem append (h : Numbered n names m) (h' : Numbered m names' k) :
    Numbered n (names ++ names') k := by
  induction h with
  | nil n => exact h'
  | cons base _ ih => exact .cons base (ih h')

theorem length_eq (h : Numbered n names m) : m = n + names.length := by
  induction h with
  | nil n => rfl
  | cons base _ ih => simp only [List.length_cons, ih]; omega

theorem exists_of_mem (h : Numbered n names m) {name : String} (hname : name ∈ names) :
    ∃ base k, n ≤ k ∧ k < m ∧ name = generatedName base k := by
  induction h with
  | nil n => cases hname
  | cons base h ih =>
    have hlength := h.length_eq
    rcases List.mem_cons.1 hname with rfl | hlater
    · exact ⟨base, _, Nat.le_refl _, by omega, rfl⟩
    · obtain ⟨base', k, hk, hkm, rfl⟩ := ih hlater
      exact ⟨base', k, by omega, hkm, rfl⟩

theorem nodup (h : Numbered n names m) : names.Nodup := by
  induction h with
  | nil n => exact List.nodup_nil
  | cons base h ih =>
    refine List.nodup_cons.2 ⟨fun hmem => ?_, ih⟩
    obtain ⟨base', k, hk, -, heq⟩ := h.exists_of_mem hmem
    have := generatedName_inj heq
    omega

theorem autoBase?_eq_none (h : Numbered n names m) {name : String} (hname : name ∈ names) :
    autoBase? name = none := by
  obtain ⟨base, k, -, -, rfl⟩ := h.exists_of_mem hname
  exact autoBase?_generatedName base k

end Numbered

variable {α β : Type}

/-- A run moved the counter on from `n` by the numbers of some names. -/
def Outcome.Numbers (n : Nat) (names : List String) : Outcome α → Prop
  | .value _ t => Numbered n names t.drawn
  | .fault _ t => Numbered n names t.drawn
  | .outOfFuel => ∃ m, Numbered n names m

theorem Outcome.Numbers.after {o : Outcome α} {n m : Nat} {names names' : List String}
    (h' : o.Numbers m names') (h : Numbered n names m) : o.Numbers n (names ++ names') := by
  cases o with
  | value a t => exact h.append h'
  | fault e t => exact h.append h'
  | outOfFuel => exact h'.imp fun _ => h.append

namespace Eval

/-- The names that a computation draws from a state, the first one first, whether it ends with a
value, with a fault or with its fuel. -/
inductive Draws : ∀ {α : Type}, Eval α → State → List String → Prop
  | freshName {base name : String} {s t : State} (h : freshName base s = .value name t) :
    Draws (freshName base) s [name]
  | andThen {α β : Type} {x : Eval α} {f : α → Eval β} {s t : State} {a : α}
    {names names' : List String} (hx : Draws x s names) (hvalue : x s = .value a t)
    (hf : Draws (f a) t names') : Draws (x >>= f) s (names ++ names')
  | stop {α β : Type} {x : Eval α} {s : State} {names : List String} (hx : Draws x s names)
    (hstop : ∀ a t, x s ≠ .value a t) (f : α → Eval β) : Draws (x >>= f) s names
  | mapFault {α : Type} {x : Eval α} {s : State} {names : List String} (hx : Draws x s names)
    (g : Fault → Fault) : Draws (x.mapFault g) s names
  | nested {α : Type} {x : Eval α} {s : State} {names : List String} {l : Option Nat}
    (hlimit : l.filter (· < s.depth + 1) = none)
    (hx : Draws x { s with depth := s.depth + 1 } names) : Draws (nested l x) s names
  | refused {α : Type} {s : State} {l : Option Nat} {n : Nat}
    (hlimit : l.filter (· < s.depth + 1) = some n) (x : Eval α) : Draws (nested l x) s []
  | pure {α : Type} (a : α) (s : State) : Draws (pure a) s []
  | ofExcept {α : Type} (r : Except Fault α) (s : State) : Draws (ofExcept r) s []
  | fail {α : Type} (c : Cause) (s : State) : Draws (fail c : Eval α) s []
  | outOfFuel {α : Type} (s : State) : Draws (outOfFuel : Eval α) s []
  | registry (s : State) : Draws registry s []
  | define (name : String) (v : Value) (s : State) : Draws (define name v) s []
  | ensureCore (s : State) :
    Draws (fun s => .value () { s with registry := s.registry.ensureCore }) s []
  | freshId (s : State) : Draws freshId s []
  | write (text : String) (s : State) : Draws (write text) s []
  | emit (v : Value) (s : State) : Draws (emit v) s []
  | consult (f : Native) (args : List Native.Shown) (s : State) : Draws (consult f args) s []
  | resolve (env : Env Value) (name : String) (s : State) : Draws (resolve env name) s []

namespace Draws

variable {x : Eval α} {s : State} {names : List String}

/-- What is done with a value draws nothing more. -/
theorem map {a : α} {t : State} (h : Draws x s names) (hvalue : x s = .value a t) (g : α → β) :
    Draws (do return g (← x)) s names := by
  simpa using h.andThen (f := fun a => Pure.pure (g a)) hvalue (.pure (g a) t)

/-- A computation moves the counter on by the names that it draws, however it ends. -/
theorem numbers (h : Draws x s names) : (x s).Numbers s.drawn names := by
  induction h with
  | freshName h =>
    cases h
    exact .cons _ (.nil _)
  | andThen _ hvalue _ ihx ihf =>
    rw [hvalue] at ihx
    rw [bind_of_value hvalue]
    exact ihf.after ihx
  | @stop _ _ x s names _ hstop f ih =>
    cases hxs : x s with
    | value a t => exact absurd hxs (hstop a t)
    | fault e t =>
      rw [hxs] at ih
      rw [bind_of_fault hxs]
      exact ih
    | outOfFuel =>
      rw [hxs] at ih
      rw [bind_of_outOfFuel hxs]
      exact ih
  | @mapFault _ x s names _ g ih =>
    rw [Eval.mapFault]
    cases hxs : x s with
    | _ =>
      rw [hxs] at ih
      exact ih
  | @nested _ x s names l hlimit _ ih =>
    simp only [Eval.nested, hlimit]
    cases hxs : x { s with depth := s.depth + 1 } with
    | _ =>
      rw [hxs] at ih
      exact ih
  | @refused _ s l n hlimit x =>
    simp only [Eval.nested, hlimit]
    exact .nil _
  | ofExcept r s => cases r <;> exact .nil _
  | outOfFuel s => exact ⟨s.drawn, .nil _⟩
  | resolve env name s =>
    rw [Eval.resolve]
    cases s.registry.resolve? env name <;> exact .nil _
  | _ => exact .nil _

end Draws

def IsDrawing (x : Eval α) : Prop := ∀ s, ∃ names, Draws x s names

namespace IsDrawing

variable {x : Eval α} {f : α → Eval β}

theorem bind (hx : IsDrawing x) (hf : ∀ a, IsDrawing (f a)) : IsDrawing (x >>= f) := by
  intro s
  obtain ⟨names, hnames⟩ := hx s
  cases hxs : x s with
  | value a t =>
    obtain ⟨names', hnames'⟩ := hf a t
    exact ⟨names ++ names', .andThen hnames hxs hnames'⟩
  | fault e t => exact ⟨names, .stop hnames (by simp [hxs]) f⟩
  | outOfFuel => exact ⟨names, .stop hnames (by simp [hxs]) f⟩

theorem mapFault (hx : IsDrawing x) (g : Fault → Fault) : IsDrawing (x.mapFault g) := by
  intro s
  obtain ⟨names, hnames⟩ := hx s
  exact ⟨names, hnames.mapFault g⟩

theorem nested (hx : IsDrawing x) (l : Option Nat) : IsDrawing (nested l x) := by
  intro s
  cases hlimit : l.filter (· < s.depth + 1) with
  | some n => exact ⟨[], .refused hlimit x⟩
  | none =>
    obtain ⟨names, hnames⟩ := hx { s with depth := s.depth + 1 }
    exact ⟨names, .nested hlimit hnames⟩

end IsDrawing

theorem compatible_isDrawing (l : Option Nat) : Compatible l l fun _ y => IsDrawing y where
  pure a s := ⟨[], .pure a s⟩
  bind := .bind
  fail c _ s := ⟨[], .fail c s⟩
  outOfFuel s := ⟨[], .outOfFuel s⟩
  within _ h := h.mapFault _
  nested h := h.nested l
  registry s := ⟨[], .registry s⟩
  define name v s := ⟨[], .define name v s⟩
  freshName _ _ := ⟨_, .freshName rfl⟩
  freshId s := ⟨[], .freshId s⟩
  write text s := ⟨[], .write text s⟩
  emit v s := ⟨[], .emit v s⟩
  consult f args s := ⟨[], .consult f args s⟩
  resolve env name s := ⟨[], .resolve env name s⟩

theorem isDrawing_eval (l : Option Nat) (fuel : Nat) (env : Env Value) (form : Value) :
    IsDrawing (eval l fuel env form) :=
  (compatible_isDrawing l).eval (Nat.le_refl fuel) (fun h => absurd h (Nat.lt_irrefl fuel)) env form

end Eval

end Lisp
