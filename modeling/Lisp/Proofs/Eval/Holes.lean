import Lisp.Eval

/-!
# The holes of a template

A template has holes: symbols that stand for generated names, and operands whose values go into the
datum. A pass over the holes draws a name for each new symbol and evaluates each operand, from left
to right, and stops at the first hole that fails. A substitution puts names and values into the
places of the holes, and evaluates nothing.
-/

namespace Lisp

/-- A part of a template that does not stand for itself: a symbol with what its generated name starts
with, a form whose value takes the place, a form whose elements do, or a mark that is out of place. -/
inductive Hole where
  | name (symbol base : String) (h : autoBase? symbol = some base)
  | value (form : Value)
  | splice (form : Value)
  | broken (cause : Cause)

namespace Hole

def ofSymbol? (symbol : String) : Option Hole :=
  match h : autoBase? symbol with
  | some base => some (name symbol base h)
  | none => none

/-- The hole that a marked list is: its second element is the operand, and there are no more. -/
def ofMarked (f : SpecialForm) (hole : Value → Hole) : List Value → Hole
  | [_, form] => hole form
  | items => broken (.malformed f (.operandCount (items.length - 1)))

def isOperand : Hole → Bool
  | value _ | splice _ => true
  | _ => false

theorem ofSymbol?_of_some {symbol base : String} (h : autoBase? symbol = some base) :
    ofSymbol? symbol = some (name symbol base h) := by
  unfold ofSymbol?
  split
  · rename_i base' h'
    cases h.symm.trans h'
    rfl
  · rename_i h'
    cases h.symm.trans h'

theorem ofSymbol?_of_none {symbol : String} (h : autoBase? symbol = none) :
    ofSymbol? symbol = none := by
  unfold ofSymbol?
  split
  · rename_i base' h'
    cases h.symm.trans h'
  · rfl

theorem ofMarked_eq (f : SpecialForm) (hole : Value → Hole) (items : List Value) :
    (∃ form, ofMarked f hole items = hole form) ∨ ∃ cause, ofMarked f hole items = broken cause := by
  unfold ofMarked
  split
  · exact Or.inl ⟨_, rfl⟩
  · exact Or.inr ⟨_, rfl⟩

end Hole

namespace Value

mutual

/-- The holes of a template from left to right. Operands and templates inside it have none. -/
def holes : Value → List Hole
  | .symbol name => (Hole.ofSymbol? name).toList
  | .seq .list items =>
    if headIs .unquote items then [.ofMarked .unquote .value items]
    else if headIs .splice items then [.broken (.malformed .splice .spliceAlone)]
    else if headIs .template items then []
    else holesOfItems items
  | .seq .vector items => holesOfItems items
  | _ => []

def holesOfItems : List Value → List Hole
  | [] => []
  | item :: rest =>
    match spliceList? item with
    | some items => .ofMarked .splice .splice items :: holesOfItems rest
    | none => holes item ++ holesOfItems rest

end

def operandCount (v : Value) : Nat := v.holes.countP Hole.isOperand

/-- What a value adds to the list or vector that it is spliced into. -/
def elements : Value → List Value
  | .seq _ items => items
  | _ => []

mutual

/-- A template with its symbols replaced as `σ` says and its operands by values, the first one
first. -/
def substitute (σ : String → String) (values : List Value) : Value → Value
  | .symbol name => .symbol (if (autoBase? name).isSome then σ name else name)
  | .seq .list items =>
    if headIs .unquote items then values.headD .nil
    else if headIs .splice items || headIs .template items then .list items
    else .list (substituteItems σ values items)
  | .seq .vector items => .vector (substituteItems σ values items)
  | v => v

/-- The elements of a list or vector with their symbols and operands replaced. -/
def substituteItems (σ : String → String) (values : List Value) : List Value → List Value
  | [] => []
  | item :: rest =>
    match spliceList? item with
    | some _ => (values.headD .nil).elements ++ substituteItems σ values.tail rest
    | none =>
      substitute σ (values.take item.operandCount) item ::
        substituteItems σ (values.drop item.operandCount) rest

end

end Value

def Renaming.apply (names : Renaming) (symbol : String) : String :=
  (names.lookup symbol).getD symbol

namespace Eval

variable {α β : Type}

/-- What is done when a hole is met: a name is drawn for a symbol that has none yet, or the operand
is evaluated. -/
def answer (ev : Evaluator) (env : Env Value) (names : Renaming) : Hole → Eval (List Value × Renaming)
  | .name symbol base _ =>
    match names.lookup symbol with
    | some _ => return ([], names)
    | none => do return ([], (symbol, ← freshName base) :: names)
  | .value form => do return ([← ev env form], names)
  | .splice form => do
    let v ← ev env form
    match v with
    | .seq _ _ | .nil => return ([v], names)
    | _ => fail (.malformed .splice (.badSplice v.typeName))
  | .broken cause => fail cause

def answerAll (ev : Evaluator) (env : Env Value) (names : Renaming) :
    List Hole → Eval (List Value × Renaming)
  | [] => return ([], names)
  | hole :: holes => do
    let (now, names) ← answer ev env names hole
    let (later, names) ← answerAll ev env names holes
    return (now ++ later, names)

variable {ev : Evaluator} {env : Env Value} {names names' : Renaming} {hole : Hole}
  {holes : List Hole} {values : List Value} {s t : State}

theorem bind_congr_of_value {x : Eval α} {f g : α → Eval β}
    (h : ∀ a t, x s = .value a t → f a t = g a t) : (x >>= f) s = (x >>= g) s := by
  cases hx : x s with
  | value a t => rw [bind_of_value hx, bind_of_value hx, h a t hx]
  | fault e t => rw [bind_of_fault hx, bind_of_fault hx]
  | outOfFuel => rw [bind_of_outOfFuel hx, bind_of_outOfFuel hx]

@[simp] theorem fail_bind (c : Cause) (f : α → Eval β) : (fail c : Eval α) >>= f = fail c := rfl

@[simp] theorem answerAll_nil : answerAll ev env names [] = pure ([], names) := rfl

@[simp] theorem answerAll_cons : answerAll ev env names (hole :: holes) = do
    let r ← answer ev env names hole
    let r' ← answerAll ev env r.2 holes
    return (r.1 ++ r'.1, r'.2) := rfl

theorem answerAll_append (before after : List Hole) :
    answerAll ev env names (before ++ after) = do
      let r ← answerAll ev env names before
      let r' ← answerAll ev env r.2 after
      return (r.1 ++ r'.1, r'.2) := by
  induction before generalizing names with
  | nil => simp
  | cons hole before ih => simp [ih]

/-- The names drawn before stay, the symbol that was met has one now, and each operand gives one
value. -/
theorem answer_eq_value (h : answer ev env names hole s = .value (values, names') t) :
    (∀ x fresh, names.lookup x = some fresh → names'.lookup x = some fresh) ∧
    (∀ x base hx, hole = .name x base hx → (names'.lookup x).isSome) ∧
    values.length = [hole].countP Hole.isOperand := by
  cases hole with
  | name symbol base hsymbol =>
    cases hknown : names.lookup symbol with
    | some fresh =>
      simp only [answer, hknown] at h
      cases h
      refine ⟨fun _ _ hx => hx, ?_, rfl⟩
      rintro x base' hx ⟨⟩
      simp [hknown]
    | none =>
      simp only [answer, hknown] at h
      obtain ⟨fresh, u, -, hpair⟩ := bind_eq_value_iff.1 h
      cases hpair
      refine ⟨fun x fresh' hx => ?_, ?_, rfl⟩
      · have hne : x ≠ symbol := by
          rintro rfl
          cases hknown.symm.trans hx
        rw [List.lookup_cons, beq_false_of_ne hne]
        exact hx
      · rintro x base' hx ⟨⟩
        simp
  | value form =>
    obtain ⟨v, u, -, hpair⟩ := bind_eq_value_iff.1 h
    cases hpair
    simp [Hole.isOperand]
  | splice form =>
    obtain ⟨v, u, -, hpair⟩ := bind_eq_value_iff.1 h
    split at hpair
    · cases hpair
      simp [Hole.isOperand]
    · cases hpair
      simp [Hole.isOperand]
    · cases hpair
  | broken cause => cases h

theorem answerAll_eq_value (h : answerAll ev env names holes s = .value (values, names') t) :
    (∀ x fresh, names.lookup x = some fresh → names'.lookup x = some fresh) ∧
    (∀ x base hx, .name x base hx ∈ holes → (names'.lookup x).isSome) ∧
    values.length = holes.countP Hole.isOperand := by
  induction holes generalizing names values s with
  | nil =>
    cases h
    simp
  | cons hole holes ih =>
    obtain ⟨r, u, hnow, hrest⟩ := bind_eq_value_iff.1 h
    obtain ⟨r', u', hlater, hpair⟩ := bind_eq_value_iff.1 hrest
    cases hpair
    obtain ⟨hkept, hmet, hcount⟩ := answer_eq_value hnow
    obtain ⟨hkept', hmet', hcount'⟩ := ih hlater
    refine ⟨fun x fresh hx => hkept' x fresh (hkept x fresh hx), fun x base hx hmem => ?_, ?_⟩
    · rcases List.mem_cons.1 hmem with hhead | htail
      · obtain ⟨fresh, hfresh⟩ := Option.isSome_iff_exists.1 (hmet x base hx hhead.symm)
        simp [hkept' x fresh hfresh]
      · exact hmet' x base hx htail
    · rw [List.length_append, hcount, hcount', ← List.countP_append, List.singleton_append]

/-- The pass over the holes stops at the first that fails. -/
theorem answerAll_eq_fault_iff {e : Fault} :
    answerAll ev env names holes s = .fault e t ↔
      ∃ before hole after values names' u, holes = before ++ hole :: after ∧
        answerAll ev env names before s = .value (values, names') u ∧
        answer ev env names' hole u = .fault e t := by
  constructor
  · intro h
    induction holes generalizing names s with
    | nil => cases h
    | cons hole holes ih =>
      rcases bind_eq_fault_iff.1 h with hnow | ⟨r, u, hnow, hrest⟩
      · exact ⟨[], hole, holes, [], names, s, rfl, rfl, hnow⟩
      · rcases bind_eq_fault_iff.1 hrest with hlater | ⟨r', u', -, hpair⟩
        · obtain ⟨before, bad, after, values, names', u', hholes, hbefore, hbad⟩ := ih hlater
          refine ⟨hole :: before, bad, after, r.1 ++ values, names', u', by simp [hholes], ?_, hbad⟩
          rw [answerAll_cons, bind_of_value hnow, bind_of_value hbefore]
          rfl
        · cases hpair
  · rintro ⟨before, hole, after, values, names', u, rfl, hbefore, hbad⟩
    rw [answerAll_append, bind_of_value hbefore, answerAll_cons]
    exact bind_of_fault (bind_of_fault hbad)

end Eval

end Lisp
