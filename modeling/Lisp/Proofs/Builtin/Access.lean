import Mathlib.Data.List.Basic
import Lisp.Builtin.Run

/-!
# Which arguments the built-in functions ask for

A built-in function asks for its arguments by their places, and trusts that its arity lets through
no call without them. Here each function is written with these places, and it is undefined where
there is nothing at a place. Within its arity it is defined, and does what it should.
-/

namespace Lisp

variable {α : Type}

/-- The part of a list from a place on. There is none beyond the end. -/
def partFrom (i : Nat) (xs : List α) : Option (List α) :=
  if i ≤ xs.length then some (xs.drop i) else none

def partBefore (i : Nat) (xs : List α) : Option (List α) :=
  if i ≤ xs.length then some (xs.take i) else none

/-- The parts of a list that are so many elements long. -/
def windows (n : Nat) (xs : List α) : List (List α) :=
  (List.range (xs.length + 1 - n)).map fun i => (xs.drop i).take n

def Comparison.holdsAt (c : Comparison) (pair : List Number) : Option Bool := do
  return c.holds (← pair[0]?) (← pair[1]?)

theorem partFrom_of_le {i : Nat} {xs : List α} (h : i ≤ xs.length) :
    partFrom i xs = some (xs.drop i) := if_pos h

theorem partFrom_one_cons (x : α) (xs : List α) : partFrom 1 (x :: xs) = some xs :=
  partFrom_of_le (Nat.le_add_left _ _)

theorem windows_two_cons (x y : α) (xs : List α) :
    windows 2 (x :: y :: xs) = [x, y] :: windows 2 (y :: xs) := by
  simp [windows, List.range_succ_eq_map]

theorem Comparison.allM_holdsAt_windows (c : Comparison) (ns : List Number) :
    (windows 2 ns).allM c.holdsAt = some (c.chain ns) := by
  induction ns with
  | nil => rfl
  | cons a ns ih =>
    cases ns with
    | nil => rfl
    | cons b ns =>
      rw [windows_two_cons, List.allM_cons, ih]
      change (if c.holds a b then some (c.chain (b :: ns)) else some false) = _
      rw [Comparison.chain]
      cases c.holds a b <;> rfl

namespace Builtin

/-- What is done with arguments. It is undefined if it asks for one that is not there. -/
abbrev Use (α : Type) := ExceptT BuiltinError Option α

/-- A result that asks for nothing. -/
def given (r : Except BuiltinError α) : Use α := ExceptT.mk (some r)

/-- Something that has to be there. -/
def needed (a : Option α) : Use α := ExceptT.mk (a.map .ok)

def useOrder (op : Builtin) (c : Comparison) (args : List Value) : Use Value := do
  let ns ← given (Number.ofValues op 1 args)
  return .bool (← needed ((windows 2 ns).allM c.holdsAt))

/-- The value of a function without effects, by the places of its arguments. -/
def use (op : Builtin) (args : List Value) : Use Value :=
  match op with
  | sub => do
    let n ← given (Number.ofValue op 1 (← needed args[0]?))
    if args.length = 1 then return (← given (n.negate op)).toValue
    else return (← given (Operation.difference.fold op 1 n (← needed (partFrom 1 args)))).toValue
  | inc => do
    given (Number.toValue <$> Operation.sum.fold op 1 (.int 1) (← needed (partBefore 1 args)))
  | dec => do
    let n ← given (Number.ofValue op 1 (← needed args[0]?))
    return (← given (Operation.difference.fold op 1 n [.int 1])).toValue
  | equal => do
    let v ← needed args[0]?
    return .bool ((← needed (partFrom 1 args)).all (·.same v))
  | less => useOrder op .less args
  | greater => useOrder op .greater args
  | lessEq => useOrder op .lessEq args
  | greaterEq => useOrder op .greaterEq args
  | not => do return .bool !(← needed args[0]?).truthy
  | cons => do
    let items ← given (itemsOf op (← needed args[1]?))
    return .list ((← needed args[0]?) :: items)
  | first => do
    let items ← given (itemsOf op (← needed args[0]?))
    return items.head?.getD .nil
  | rest => do
    let items ← given (itemsOf op (← needed args[0]?))
    return .list (← needed (partFrom (min items.length 1) items))
  | count => do
    let n ← given (lengthOf op (← needed args[0]?))
    return .int (Int64.ofNat n)
  | nth => do
    let items ← given (itemsOf op (← needed args[0]?))
    let i ← given (indexOf op (← needed args[1]?))
    match items[i]?.or args[2]? with
    | some v => return v
    | none => given (.error (.outOfBounds i items.length))
  | isNil => do
    let v ← needed args[0]?
    return .bool (v matches .nil)
  | isList => do
    let v ← needed args[0]?
    return .bool (v matches .list _)
  | isSymbol => do return .bool (← needed args[0]?).symbol?.isSome
  | isFunction => do return .bool (← needed args[0]?).isCallable
  | symbol => do given (Value.symbol <$> textOf op (← needed args[0]?))
  -- the others go through the arguments, however many there are
  | op => given (op.compute args)

theorem length_of_accepts {op : Builtin} {args : List α} {n : Nat}
    (h : op.arity.accepts args.length = true) (hop : op.arity = .exactly n) : args.length = n := by
  rw [hop] at h
  obtain ⟨hleast, hmost⟩ := Arity.accepts_iff.1 h
  exact Nat.le_antisymm (hmost n rfl) hleast

theorem eq_cons_of_accepts {op : Builtin} {args : List α}
    (h : op.arity.accepts args.length = true) (hop : op.arity = .atLeast 1) :
    ∃ v vs, args = v :: vs := by
  rw [hop] at h
  exact List.exists_cons_of_length_pos (Arity.accepts_iff.1 h).1

/-- Two arguments, and perhaps a third one. -/
theorem eq_of_accepts_nth {args : List Value} (h : nth.arity.accepts args.length = true) :
    ∃ v i otherwise, args = v :: i :: Option.toList otherwise := by
  obtain ⟨hleast, hmost⟩ := Arity.accepts_iff.1 h
  have hlength : args.length = 2 ∨ args.length = 3 := by
    have htwo : 2 ≤ args.length := hleast
    have hthree := hmost 3 rfl
    omega
  rcases hlength with hlength | hlength
  · obtain ⟨v, i, rfl⟩ := List.length_eq_two.1 hlength
    exact ⟨v, i, none, rfl⟩
  · obtain ⟨v, i, w, rfl⟩ := List.length_eq_three.1 hlength
    exact ⟨v, i, some w, rfl⟩

/-- What follows a result is defined if it is for each value that the result can have. -/
theorem run_given_bind {β : Type} (r : Except BuiltinError α) {f : α → Use β}
    {g : α → Except BuiltinError β} (h : ∀ a, (f a).run = some (g a)) :
    (given r >>= f).run = some (r >>= g) := by
  cases r with
  | error e => rfl
  | ok a => exact h a

theorem use_order (op : Builtin) (c : Comparison) (args : List Value) :
    (useOrder op c args).run = some (compare op c args) := by
  refine run_given_bind _ fun ns => ?_
  rw [c.allM_holdsAt_windows]
  rfl

theorem use_sub (v : Value) (vs : List Value) :
    (sub.use (v :: vs)).run = some (sub.compute (v :: vs)) := by
  cases vs with
  | nil => exact run_given_bind (Number.ofValue sub 1 v) fun n => run_given_bind _ fun _ => rfl
  | cons w ws =>
    refine run_given_bind (Number.ofValue sub 1 v) fun n => ?_
    rw [if_neg (by simp), partFrom_one_cons]
    exact run_given_bind _ fun _ => rfl

theorem use_rest (v : Value) : (rest.use [v]).run = some (rest.compute [v]) := by
  refine run_given_bind (itemsOf rest v) fun items => ?_
  rw [partFrom_of_le (Nat.min_le_left _ _)]
  cases items with
  | nil => rfl
  | cons w ws => simp [needed]; rfl

theorem use_nth (v i : Value) (otherwise : Option Value) :
    (nth.use (v :: i :: otherwise.toList)).run = some (element nth v i otherwise) := by
  refine run_given_bind (itemsOf nth v) fun items => run_given_bind (indexOf nth i) fun k => ?_
  have hthird : (v :: i :: otherwise.toList)[2]? = otherwise := by cases otherwise <;> rfl
  rw [hthird]
  cases items[k]?.or otherwise <;> rfl

/-- Within its arity a function finds every argument that it asks for. -/
theorem use_eq {op : Builtin} {args : List Value} (h : op.arity.accepts args.length = true) :
    (op.use args).run = some (op.compute args) := by
  cases op with
  | sub =>
    obtain ⟨v, vs, rfl⟩ := eq_cons_of_accepts h rfl
    exact use_sub v vs
  | equal =>
    obtain ⟨v, vs, rfl⟩ := eq_cons_of_accepts h rfl
    simp only [use, partFrom_one_cons]
    rfl
  | less | greater | lessEq | greaterEq => exact use_order _ _ args
  | inc | «not» | isNil | isList | isSymbol | isFunction | symbol =>
    obtain ⟨v, rfl⟩ := List.length_eq_one_iff.1 (length_of_accepts h rfl)
    rfl
  | dec =>
    obtain ⟨v, rfl⟩ := List.length_eq_one_iff.1 (length_of_accepts h rfl)
    exact run_given_bind (Number.ofValue dec 1 v) fun n => run_given_bind _ fun _ => rfl
  | first | count =>
    obtain ⟨v, rfl⟩ := List.length_eq_one_iff.1 (length_of_accepts h rfl)
    exact run_given_bind _ fun _ => rfl
  | rest =>
    obtain ⟨v, rfl⟩ := List.length_eq_one_iff.1 (length_of_accepts h rfl)
    exact use_rest v
  | cons =>
    obtain ⟨v, w, rfl⟩ := List.length_eq_two.1 (length_of_accepts h rfl)
    exact run_given_bind (itemsOf cons w) fun _ => rfl
  | nth =>
    obtain ⟨v, i, otherwise, rfl⟩ := eq_of_accepts_nth h
    rw [use_nth]
    cases otherwise <;> rfl
  -- these go through their arguments, however many there are
  | add | mul | div | list | vector | concat | str | gensym | print | println | native => rfl

/-- Outside its arity it may not find them. -/
example : (cons.use [.nil]).run = none := rfl

end Builtin

end Lisp
