import Lisp.Fault
import Lisp.Registry

/-!
# Computations of the evaluator

A computation starts from a state and ends with a value and a new state, with a fault and the state
that was reached, or because its fuel is used up. Faults keep the state: what was defined, printed
or drawn before a fault stays so.
-/

namespace Lisp

/-- All that evaluation can change, and the embedding program, which it cannot. -/
structure State where
  registry : Registry := {}
  /-- The calls in progress. -/
  depth : Nat := 0
  /-- The names generated so far. -/
  drawn : Nat := 0
  /-- The closures made so far. -/
  born : Nat := 0
  /-- What was printed. -/
  output : String := ""
  /-- What was handed to the embedding program. -/
  emitted : List Value := []
  natives : Natives := .probes

inductive Outcome (α : Type) where
  | value (a : α) (s : State)
  | fault (e : Fault) (s : State)
  | outOfFuel

def Eval (α : Type) := State → Outcome α

namespace Eval

variable {α β : Type}

@[inline] protected def pure (a : α) : Eval α := fun s => .value a s

@[inline] protected def bind (x : Eval α) (f : α → Eval β) : Eval β := fun s =>
  match x s with
  | .value a t => f a t
  | .fault e t => .fault e t
  | .outOfFuel => .outOfFuel

instance : Monad Eval where
  pure := Eval.pure
  bind := Eval.bind

theorem bind_of_value {x : Eval α} {f : α → Eval β} {s t : State} {a : α}
    (h : x s = .value a t) : (x >>= f) s = f a t := by
  change Eval.bind x f s = f a t
  rw [Eval.bind, h]

theorem bind_of_fault {x : Eval α} {f : α → Eval β} {s t : State} {e : Fault}
    (h : x s = .fault e t) : (x >>= f) s = .fault e t := by
  change Eval.bind x f s = .fault e t
  rw [Eval.bind, h]

theorem bind_of_outOfFuel {x : Eval α} {f : α → Eval β} {s : State}
    (h : x s = .outOfFuel) : (x >>= f) s = .outOfFuel := by
  change Eval.bind x f s = .outOfFuel
  rw [Eval.bind, h]

instance : LawfulMonad Eval := by
  refine LawfulMonad.mk' Eval (fun x => ?_) (fun _ _ => rfl) (fun x f g => ?_)
  · funext s
    change Eval.bind x Eval.pure s = x s
    rw [Eval.bind]
    cases x s <;> rfl
  · funext s
    change Eval.bind (Eval.bind x f) g s = Eval.bind x (fun a => Eval.bind (f a) g) s
    rw [Eval.bind, Eval.bind, Eval.bind]
    cases x s <;> rfl

def fail (c : Cause) : Eval α := fun s => .fault { cause := c } s

def outOfFuel : Eval α := fun _ => .outOfFuel

def ofExcept : Except Fault α → Eval α
  | .ok a => Eval.pure a
  | .error e => fun s => .fault e s

def ofCause : Except Cause α → Eval α
  | .ok a => Eval.pure a
  | .error c => fail c

@[inline] def mapFault (f : Fault → Fault) (x : Eval α) : Eval α := fun s =>
  match x s with
  | .fault e t => .fault (f e) t
  | o => o

@[simp] theorem mapFault_eq_value_iff {f : Fault → Fault} {x : Eval α} {s t : State} {a : α} :
    x.mapFault f s = .value a t ↔ x s = .value a t := by
  rw [mapFault]
  cases x s <;> simp

@[simp] theorem mapFault_eq_fault_iff {f : Fault → Fault} {x : Eval α} {s t : State} {e : Fault} :
    x.mapFault f s = .fault e t ↔ ∃ e', x s = .fault e' t ∧ f e' = e := by
  rw [mapFault]
  cases x s with
  | fault e' u =>
    constructor
    · rintro ⟨⟩
      exact ⟨e', rfl, rfl⟩
    · rintro ⟨_, ⟨⟩, rfl⟩
      rfl
  | _ => simp

theorem bind_eq_value_iff {x : Eval α} {f : α → Eval β} {s u : State} {b : β} :
    (x >>= f) s = .value b u ↔ ∃ a t, x s = .value a t ∧ f a t = .value b u := by
  cases h : x s with
  | value a t =>
    rw [bind_of_value h]
    constructor
    · exact fun hf => ⟨a, t, rfl, hf⟩
    · rintro ⟨_, _, ⟨⟩, hf⟩
      exact hf
  | fault e t => simp [bind_of_fault h]
  | outOfFuel => simp [bind_of_outOfFuel h]

theorem bind_eq_fault_iff {x : Eval α} {f : α → Eval β} {s u : State} {e : Fault} :
    (x >>= f) s = .fault e u ↔
      x s = .fault e u ∨ ∃ a t, x s = .value a t ∧ f a t = .fault e u := by
  cases h : x s with
  | value a t =>
    rw [bind_of_value h]
    constructor
    · exact fun hf => Or.inr ⟨a, t, rfl, hf⟩
    · rintro (⟨⟨⟩⟩ | ⟨_, _, ⟨⟩, hf⟩)
      exact hf
  | fault e' t => simp [bind_of_fault h]
  | outOfFuel => simp [bind_of_outOfFuel h]

@[inline] def within (label : String) (x : Eval α) : Eval α := x.mapFault (·.leave ⟨label, none⟩)

/-- A computation one call deeper, unless the limit forbids it. The call is over when the
computation is, however it ends. -/
@[inline] def nested (limit : Option Nat) (x : Eval α) : Eval α := fun s =>
  match limit.filter (· < s.depth + 1) with
  | some n => .fault { cause := .tooDeep n } s
  | none =>
    match x { s with depth := s.depth + 1 } with
    | .value a t => .value a { t with depth := t.depth - 1 }
    | .fault e t => .fault e { t with depth := t.depth - 1 }
    | .outOfFuel => .outOfFuel

def registry : Eval Registry := fun s => .value s.registry s

def define (name : String) (v : Value) : Eval Unit := fun s =>
  .value () { s with registry := s.registry.define name v }

/-- A name that was never generated before: the given beginning and a number. -/
def freshName (base : String) : Eval String := fun s =>
  .value (base ++ "__" ++ Decimal.ofNat s.drawn) { s with drawn := s.drawn + 1 }

/-- A number for a new closure. -/
def freshId : Eval Nat := fun s => .value s.born { s with born := s.born + 1 }

def write (text : String) : Eval Unit := fun s => .value () { s with output := s.output ++ text }

/-- Hands a value to the embedding program. -/
def emit (v : Value) : Eval Unit := fun s => .value () { s with emitted := s.emitted ++ [v] }

/-- What a function of the embedding program answers. -/
def consult (f : Native) (args : List Native.Shown) : Eval Native.Answer := fun s =>
  .value (s.natives f args) s

def resolve (env : Env Value) (name : String) : Eval Value := fun s =>
  match s.registry.resolve? env name with
  | some v => .value v s
  | none => .fault { cause := .unbound name } s

end Eval

end Lisp
