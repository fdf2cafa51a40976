import Lisp.Eval
import Lisp.Proofs.Builtin.Access

/-!
# Operands of numeric functions

A numeric function takes its arguments in from left to right. It stops at the first one that is not
a number, unless the numbers before have stopped it already, and its message gives a place. For all
functions but two this is the place of the argument. A difference counts the arguments after the
first from one again, and a quotient counts its only argument as the second.
-/

namespace Lisp

def Value.number? : Value → Option Number
  | .int n => some (.int n)
  | .float x => some (.float x)
  | _ => none

namespace Number

variable {op : Builtin} {place : Nat} {v : Value}

theorem toValue_of_number? {n : Number} (h : v.number? = some n) : n.toValue = v := by
  unfold Value.number? at h
  split at h <;> cases h <;> rfl

/-- Arguments that are not all numbers begin with numbers up to the first one that is not. -/
theorem exists_first_not_number {args : List Value} (h : ∃ v ∈ args, v.number? = none) :
    ∃ (ns : List Number) (v : Value) (vs : List Value),
      args = ns.map toValue ++ v :: vs ∧ v.number? = none := by
  induction args with
  | nil => simp at h
  | cons w args ih =>
    cases hw : w.number? with
    | none => exact ⟨[], w, args, rfl, hw⟩
    | some n =>
      obtain ⟨ns, v, vs, rfl, hv⟩ := ih (by simpa [hw] using h)
      exact ⟨n :: ns, v, vs, by simp [toValue_of_number? hw], hv⟩

@[simp] theorem ofValue_toValue (op : Builtin) (place : Nat) (n : Number) :
    ofValue op place n.toValue = .ok n := by
  cases n <;> rfl

theorem ofValue_of_not_number (hv : v.number? = none) :
    ofValue op place v = .error (.notNumber op place v.typeName) := by
  cases v with
  | atom a => cases a <;> first | rfl | cases hv
  | _ => rfl

/-- Arguments that are numbers are all read. -/
theorem ofValues_map_toValue (op : Builtin) (place : Nat) (ns : List Number) :
    ofValues op place (ns.map toValue) = .ok ns := by
  induction ns generalizing place with
  | nil => rfl
  | cons n ns ih =>
    rw [List.map_cons, ofValues, ofValue_toValue, ih]
    rfl

theorem ofValues_of_not_number (op : Builtin) (place : Nat) (ns : List Number)
    (hv : v.number? = none) (vs : List Value) :
    ofValues op place (ns.map toValue ++ v :: vs) =
      .error (.notNumber op (place + ns.length) v.typeName) := by
  induction ns generalizing place with
  | nil =>
    rw [List.map_nil, List.nil_append, ofValues, ofValue_of_not_number hv]
    rfl
  | cons n ns ih =>
    rw [List.map_cons, List.cons_append, ofValues, ofValue_toValue]
    simp only [bind, Except.bind, ih, List.length_cons]
    rw [Nat.add_assoc, Nat.add_comm 1]

theorem quotient_zero (op : Builtin) (a : Number) :
    quotient op a (int 0) = .error .divisionByZero := by
  cases a <;> rfl

theorem quotient_int_int (op : Builtin) (m : Int64) {n : Int64} (hn : n ≠ 0) :
    quotient op (int m) (int n) =
      if m.toInt.tmod n.toInt = 0 then exact op (m.toInt.tdiv n.toInt)
      else .ok (float ((int m).toFloat / (int n).toFloat)) := by
  unfold quotient
  split
  · rename_i h
    exact absurd (int.inj h) hn
  · rename_i hm hn'
    cases hm
    cases hn'
    rfl
  · rename_i h
    exact absurd rfl (h m n rfl)

theorem quotient_float_int (op : Builtin) (x : Float) {n : Int64} (hn : n ≠ 0) :
    quotient op (float x) (int n) = .ok (float (x / (int n).toFloat)) := by
  unfold quotient
  split
  · rename_i h
    exact absurd (int.inj h) hn
  · rename_i hm _
    cases hm
  · rfl

theorem quotient_float (op : Builtin) (a : Number) (y : Float) :
    quotient op a (float y) = .ok (float (a.toFloat / y)) := by
  cases a <;> rfl

theorem exact_eq_error {n : Int} {e : BuiltinError} (h : exact op n = .error e) :
    e = .overflow op := by
  unfold exact at h
  split at h
  · cases h
  · cases h
    rfl

theorem quotient_eq_error {a b : Number} {e : BuiltinError} (h : quotient op a b = .error e) :
    e = .overflow op ∨ e = .divisionByZero := by
  cases b with
  | float y =>
    rw [quotient_float] at h
    cases h
  | int n =>
    by_cases hn : n = 0
    · subst hn
      rw [quotient_zero] at h
      cases h
      exact .inr rfl
    · cases a with
      | float x =>
        rw [quotient_float_int op x hn] at h
        cases h
      | int m =>
        rw [quotient_int_int op m hn] at h
        split at h
        · exact .inl (exact_eq_error h)
        · cases h

end Number

theorem Operation.combine_eq_error {o : Operation} {op : Builtin} {a b : Number}
    {e : BuiltinError} (h : o.combine op a b = .error e) : e = .overflow op := by
  cases a with
  | int m =>
    cases b with
    | int n => exact Number.exact_eq_error h
    | float y => cases h
  | float x => cases b <;> cases h

/-- What holds of every error of a step holds of the errors of a run. -/
theorem error_of_foldlM {step : Number → Number → Except BuiltinError Number} {acc : Number}
    {ns : List Number} {e : BuiltinError} {P : BuiltinError → Prop}
    (hstep : ∀ a b e, step a b = .error e → P e) (h : ns.foldlM step acc = .error e) : P e := by
  induction ns generalizing acc with
  | nil => cases h
  | cons n ns ih =>
    rw [List.foldlM_cons] at h
    cases hn : step acc n with
    | error e' =>
      rw [hn] at h
      cases h
      exact hstep _ _ _ hn
    | ok b =>
      rw [hn] at h
      exact ih h

/-- A way to take in arguments one by one: each is read as a number at its place and goes into what
was reached so far. -/
structure TakesIn (op : Builtin) (step : Number → Number → Except BuiltinError Number)
    (f : Nat → Number → List Value → Except BuiltinError Number) : Prop where
  nil (place : Nat) (acc : Number) : f place acc [] = .ok acc
  cons (place : Nat) (acc : Number) (v : Value) (vs : List Value) :
    f place acc (v :: vs) =
      Number.ofValue op place v >>= fun n => step acc n >>= fun b => f (place + 1) b vs

theorem Operation.takesIn_fold (o : Operation) (op : Builtin) :
    TakesIn op (o.combine op) (o.fold op) :=
  ⟨fun _ _ => rfl, fun _ _ _ _ => rfl⟩

theorem Number.takesIn_divideBy (op : Builtin) :
    TakesIn op (Number.quotient op) (Number.divideBy op) :=
  ⟨fun _ _ => rfl, fun _ _ _ _ => rfl⟩

namespace TakesIn

variable {op : Builtin} {step : Number → Number → Except BuiltinError Number}
  {f : Nat → Number → List Value → Except BuiltinError Number}

theorem append (h : TakesIn op step f) (place : Nat) (acc : Number) (ns : List Number)
    (vs : List Value) :
    f place acc (ns.map Number.toValue ++ vs) =
      ns.foldlM step acc >>= fun b => f (place + ns.length) b vs := by
  induction ns generalizing place acc with
  | nil => rfl
  | cons n ns ih =>
    rw [List.map_cons, List.cons_append, h.cons, Number.ofValue_toValue, List.foldlM_cons,
      bind_assoc]
    change (step acc n >>= fun b => _) = _
    congr 1
    funext b
    rw [ih, List.length_cons, Nat.add_assoc, Nat.add_comm 1]

theorem map_toValue (h : TakesIn op step f) (place : Nat) (acc : Number) (ns : List Number) :
    f place acc (ns.map Number.toValue) = ns.foldlM step acc := by
  have happend := h.append place acc ns []
  simp only [List.append_nil, h.nil] at happend
  rw [happend]
  exact bind_pure (ns.foldlM step acc)

/-- The first argument that is not a number ends it, unless something before it did. -/
theorem of_not_number (h : TakesIn op step f) (place : Nat) (acc : Number) (ns : List Number)
    {v : Value} (hv : v.number? = none) (vs : List Value) :
    f place acc (ns.map Number.toValue ++ v :: vs) =
      ns.foldlM step acc >>= fun _ =>
        .error (.notNumber op (place + ns.length) v.typeName) := by
  rw [h.append]
  congr 1
  funext b
  rw [h.cons, Number.ofValue_of_not_number hv]
  rfl

end TakesIn

namespace Builtin

/-- The functions that change the state, and those of the embedding program. -/
def isEffectful : Builtin → Bool
  | gensym | print | println | native _ => true
  | _ => false

variable {op : Builtin}

theorem run_eq_compute (hop : op.isEffectful = false) (args : List Value) :
    op.run args = Eval.ofCause ((op.compute args).mapError .builtin) := by
  cases op with
  | gensym | print | println | native => cases hop
  | _ => rfl

theorem label_eq_name (hop : op.isEffectful = false) : op.label = op.name := by
  cases op with
  | native => cases hop
  | _ => rfl

/-! ## The first argument that is not a number -/

def numeric : List Builtin :=
  [add, mul, sub, div, inc, dec, less, greater, lessEq, greaterEq]

/-- The numbers that come first do not stop a call: no result on the way overflows, and nothing is
divided by zero. A comparison only reads them. -/
def GetsPast : Builtin → List Number → Prop
  | add, ns => ∃ b, ns.foldlM (Operation.sum.combine add) (.int 0) = .ok b
  | mul, ns => ∃ b, ns.foldlM (Operation.product.combine mul) (.int 1) = .ok b
  | sub, n :: ns => ∃ b, ns.foldlM (Operation.difference.combine sub) n = .ok b
  | div, n :: ns => ∃ b, ns.foldlM (Number.quotient div) n = .ok b
  | _, _ => True

/-- The place that a message gives for an argument, from the numbers of arguments before and after
it. -/
def shownPlace (op : Builtin) (before after : Nat) : Nat :=
  if op = sub ∧ before ≠ 0 then before
  else if op = div ∧ before = 0 ∧ after = 0 then 2
  else before + 1

/-- The place is that of the argument but for an argument after the first of a difference, and for
the only argument of a quotient. -/
theorem shownPlace_eq_iff (op : Builtin) (before after : Nat) :
    op.shownPlace before after = before + 1 ↔
      ¬(op = sub ∧ before ≠ 0) ∧ ¬(op = div ∧ before = 0 ∧ after = 0) := by
  unfold shownPlace
  split_ifs with hsub hdiv
  · simp [hsub]
  · simp [hdiv]
  · exact iff_of_true rfl ⟨hsub, hdiv⟩

variable {ns : List Number} {v : Value} {vs : List Value}

/-- A call fails at an argument that is not a number, or the numbers before have stopped it. -/
structure FailsAt (op : Builtin) (ns : List Number) (v : Value) (vs : List Value) : Prop where
  notNumber (h : op.GetsPast ns) : op.compute (ns.map Number.toValue ++ v :: vs) =
    .error (.notNumber op (op.shownPlace ns.length vs.length) v.typeName)
  stopped (h : ¬op.GetsPast ns) :
    op.compute (ns.map Number.toValue ++ v :: vs) = .error (.overflow op) ∨
      op.compute (ns.map Number.toValue ++ v :: vs) = .error .divisionByZero

theorem failsAt_of_getsPast (hpast : op.GetsPast ns)
    (h : op.compute (ns.map Number.toValue ++ v :: vs) =
      .error (.notNumber op (op.shownPlace ns.length vs.length) v.typeName)) :
    op.FailsAt ns v vs :=
  ⟨fun _ => h, fun hstopped => absurd hpast hstopped⟩

/-- A call that reads its first argument before all else. -/
theorem failsAt_of_first {g : Number → Except BuiltinError Value} (hpast : op.GetsPast [])
    (hcompute : op.compute (v :: vs) = Number.ofValue op (op.shownPlace 0 vs.length) v >>= g)
    (hv : v.number? = none) : op.FailsAt [] v vs := by
  apply failsAt_of_getsPast hpast
  rw [List.map_nil, List.nil_append, hcompute, Number.ofValue_of_not_number hv]
  rfl

theorem map_toValue_bind_error (r : Except BuiltinError Number) (e : BuiltinError) :
    Number.toValue <$> (r >>= fun _ => .error e) = (r >>= fun _ => .error e) := by
  cases r <;> rfl

/-- A call that takes in its arguments step by step, with a first number that may be one of them. -/
theorem failsAt_of_takesIn {step : Number → Number → Except BuiltinError Number}
    {f : Nat → Number → List Value → Except BuiltinError Number} (htakes : TakesIn op step f)
    (place : Nat) (first : Number) (ms : List Number)
    (hstep : ∀ a b e, step a b = .error e → e = .overflow op ∨ e = .divisionByZero)
    (hpast : op.GetsPast ns ↔ ∃ b, ms.foldlM step first = .ok b)
    (hcompute : op.compute (ns.map Number.toValue ++ v :: vs) =
      Number.toValue <$> f place first (ms.map Number.toValue ++ v :: vs))
    (hplace : op.shownPlace ns.length vs.length = place + ms.length) (hv : v.number? = none) :
    op.FailsAt ns v vs := by
  rw [htakes.of_not_number place first ms hv, map_toValue_bind_error, ← hplace] at hcompute
  cases hms : ms.foldlM step first with
  | ok b =>
    rw [hms] at hcompute
    exact failsAt_of_getsPast (hpast.mpr ⟨b, hms⟩) hcompute
  | error e =>
    rw [hms] at hcompute hpast
    refine ⟨fun hgets => ?_, fun _ => ?_⟩
    · obtain ⟨b, hb⟩ := hpast.mp hgets
      cases hb
    · obtain rfl | rfl := error_of_foldlM hstep hms
      · exact .inl hcompute
      · exact .inr hcompute

theorem failsAt_of_fold (o : Operation) (first : Number) (ms : List Number)
    (hpast : op.GetsPast ns ↔ ∃ b, ms.foldlM (o.combine op) first = .ok b)
    (hcompute : op.compute (ns.map Number.toValue ++ v :: vs) =
      Number.toValue <$> o.fold op 1 first (ms.map Number.toValue ++ v :: vs))
    (hplace : op.shownPlace ns.length vs.length = ms.length + 1) (hv : v.number? = none) :
    op.FailsAt ns v vs :=
  failsAt_of_takesIn (o.takesIn_fold op) 1 first ms
    (fun _ _ _ h => .inl (Operation.combine_eq_error h)) hpast hcompute
    (hplace.trans (Nat.add_comm ms.length 1)) hv

theorem failsAt_of_divideBy (first : Number) (ms : List Number)
    (hpast : div.GetsPast ns ↔ ∃ b, ms.foldlM (Number.quotient div) first = .ok b)
    (hcompute : div.compute (ns.map Number.toValue ++ v :: vs) =
      Number.toValue <$> Number.divideBy div 2 first (ms.map Number.toValue ++ v :: vs))
    (hplace : div.shownPlace ns.length vs.length = ms.length + 2) (hv : v.number? = none) :
    div.FailsAt ns v vs :=
  failsAt_of_takesIn (Number.takesIn_divideBy div) 2 first ms
    (fun _ _ _ => Number.quotient_eq_error) hpast hcompute
    (hplace.trans (Nat.add_comm ms.length 2)) hv

theorem compute_sub_cons (n : Number) (hvs : vs ≠ []) :
    sub.compute (n.toValue :: vs) =
      Number.toValue <$> Operation.difference.fold sub 1 n vs := by
  cases vs with
  | nil => exact absurd rfl hvs
  | cons w ws => cases n <;> rfl

theorem compute_div_cons (n : Number) (hvs : vs ≠ []) :
    div.compute (n.toValue :: vs) = Number.toValue <$> Number.divideBy div 2 n vs := by
  cases vs with
  | nil => exact absurd rfl hvs
  | cons w ws => cases n <;> rfl

theorem failsAt_add (ns : List Number) (hv : v.number? = none) (vs : List Value) :
    add.FailsAt ns v vs :=
  failsAt_of_fold .sum (.int 0) ns Iff.rfl rfl rfl hv

theorem failsAt_mul (ns : List Number) (hv : v.number? = none) (vs : List Value) :
    mul.FailsAt ns v vs :=
  failsAt_of_fold .product (.int 1) ns Iff.rfl rfl rfl hv

/-- A difference reads its first argument apart, and starts from the first place again. -/
theorem failsAt_sub (ns : List Number) (hv : v.number? = none) (vs : List Value) :
    sub.FailsAt ns v vs := by
  cases ns with
  | nil => cases vs <;> exact failsAt_of_first trivial rfl hv
  | cons n ns =>
    exact failsAt_of_fold .difference n ns Iff.rfl (compute_sub_cons n (by simp)) rfl hv

/-- A quotient reads its first argument apart and goes on from the second place. A single argument
divides one, and is read as if it were the second. -/
theorem failsAt_div (ns : List Number) (hv : v.number? = none) (vs : List Value) :
    div.FailsAt ns v vs := by
  cases ns with
  | nil =>
    cases vs with
    | nil => exact failsAt_of_divideBy (.int 1) [] (iff_of_true trivial ⟨_, rfl⟩) rfl rfl hv
    | cons w ws => exact failsAt_of_first trivial rfl hv
  | cons n ns => exact failsAt_of_divideBy n ns Iff.rfl (compute_div_cons n (by simp)) rfl hv

/-- A comparison reads all arguments before it compares any. -/
theorem compare_of_not_number (op : Builtin) (c : Comparison) (ns : List Number)
    (hv : v.number? = none) (vs : List Value) :
    compare op c (ns.map Number.toValue ++ v :: vs) =
      .error (.notNumber op (ns.length + 1) v.typeName) := by
  rw [compare, Number.ofValues_of_not_number _ _ _ hv, Nat.add_comm]
  rfl

theorem failsAt_compare {c : Comparison} (hcompute : ∀ args, op.compute args = compare op c args)
    (hpast : op.GetsPast ns) (hplace : op.shownPlace ns.length vs.length = ns.length + 1)
    (hv : v.number? = none) : op.FailsAt ns v vs := by
  apply failsAt_of_getsPast hpast
  rw [hcompute, compare_of_not_number op c ns hv, hplace]

theorem failsAt_of_numeric (hop : op ∈ numeric) (hv : v.number? = none)
    (h : op.arity.accepts (ns.length + 1 + vs.length) = true) : op.FailsAt ns v vs := by
  -- A function of one argument has neither numbers before it nor arguments after it.
  have hone (hop : op.arity = .exactly 1) : ns = [] ∧ vs = [] := by
    rw [hop] at h
    have hmost := (Arity.accepts_iff.1 h).2 1 rfl
    exact ⟨List.length_eq_zero_iff.mp (by omega), List.length_eq_zero_iff.mp (by omega)⟩
  cases op with
  | add => exact failsAt_add ns hv vs
  | mul => exact failsAt_mul ns hv vs
  | sub => exact failsAt_sub ns hv vs
  | div => exact failsAt_div ns hv vs
  | inc =>
    obtain ⟨rfl, rfl⟩ := hone rfl
    exact failsAt_of_fold .sum (.int 1) [] (iff_of_true trivial ⟨_, rfl⟩) rfl rfl hv
  | dec =>
    obtain ⟨rfl, rfl⟩ := hone rfl
    exact failsAt_of_first trivial rfl hv
  | less | greater | lessEq | greaterEq =>
    exact failsAt_compare (fun _ => rfl) trivial rfl hv
  | _ => simp [numeric] at hop

end Builtin

namespace Eval

open Builtin

/-- A call of a function without effects ends with what it computes, and a fault leaves the call. -/
theorem apply_compute (limit : Option Nat) (ev : Evaluator) (s : State) {op : Builtin}
    (hop : op.isEffectful = false) {args : List Value} (h : op.arity.accepts args.length = true) :
    apply limit ev (.builtin op) args s =
      match op.compute args with
      | .ok v => .value v s
      | .error e => .fault { cause := .builtin e, passed := [⟨op.name, none⟩] } s := by
  rw [apply, callBuiltin, if_pos h, within, mapFault, run_eq_compute hop, label_eq_name hop]
  cases op.compute args <;> rfl

/-- Applied to arguments of which one is not a number, a numeric function fails. If the numbers
before the first such argument do not stop it, the message names the function, a place and the type
of the argument. The place is that of the argument, but for an argument after the first of a
difference and for the only argument of a quotient. -/
theorem apply_not_number (limit : Option Nat) (ev : Evaluator) (s : State) (op : Builtin)
    (hop : op ∈ numeric) (ns : List Number) (v : Value) (hv : v.number? = none) (vs : List Value)
    (h : op.arity.accepts (ns.length + 1 + vs.length) = true) :
    let place := op.shownPlace ns.length vs.length
    ∃ e, apply limit ev (.builtin op) (ns.map Number.toValue ++ v :: vs) s = .fault e s ∧
      e.kind = .native ∧ e.stack = [⟨op.name, none⟩] ∧
      (op.GetsPast ns → e.message =
        op.name ++ " expects number (arg " ++ Decimal.ofNat place ++ "), got " ++ v.typeName) ∧
      (¬op.GetsPast ns →
        e.message = "integer overflow in " ++ op.name ∨ e.message = "division by zero") ∧
      (place = ns.length + 1 ↔ ¬(op = sub ∧ ns ≠ []) ∧ ¬(op = div ∧ ns = [] ∧ vs = [])) := by
  intro place
  have hplace := op.shownPlace_eq_iff ns.length vs.length
  simp only [ne_eq, List.length_eq_zero_iff] at hplace
  have heffectless : op.isEffectful = false := by
    cases op <;> first | rfl | simp [numeric] at hop
  have hlength : op.arity.accepts (ns.map Number.toValue ++ v :: vs).length = true := by
    rw [List.length_append, List.length_map, List.length_cons, Nat.add_comm vs.length,
      ← Nat.add_assoc]
    exact h
  have happly := apply_compute limit ev s heffectless hlength
  obtain ⟨hnumber, hstopped⟩ := failsAt_of_numeric hop hv h
  by_cases hpast : op.GetsPast ns
  · rw [hnumber hpast] at happly
    exact ⟨_, happly, rfl, rfl, fun _ => rfl, fun hnot => absurd hpast hnot, hplace⟩
  · rcases hstopped hpast with hstop | hstop <;> rw [hstop] at happly
    · exact ⟨_, happly, rfl, rfl, fun hgets => absurd hgets hpast, fun _ => .inl rfl, hplace⟩
    · exact ⟨_, happly, rfl, rfl, fun hgets => absurd hgets hpast, fun _ => .inr rfl, hplace⟩

/-- The second argument of a difference is called the first, and the only one of a quotient the
second. -/
theorem apply_not_number_misplaced :
    (∃ e, apply none (eval none 0) (.builtin sub) [.int 1, .nil] {} = .fault e {} ∧
        e.message = "- expects number (arg 1), got nil") ∧
      ∃ e, apply none (eval none 0) (.builtin div) [.nil] {} = .fault e {} ∧
        e.message = "/ expects number (arg 2), got nil" := by
  obtain ⟨e, he, -, -, hsub, -⟩ := apply_not_number none (eval none 0) {} sub (by decide)
    [.int 1] .nil rfl [] rfl
  obtain ⟨e', he', -, -, hdiv, -⟩ := apply_not_number none (eval none 0) {} div (by decide)
    [] .nil rfl [] rfl
  exact ⟨⟨e, he, (hsub ⟨_, rfl⟩).trans (by decide +kernel)⟩, ⟨e', he', (hdiv trivial).trans (by decide +kernel)⟩⟩

/-- Not every message names the place of the argument that is no number. -/
theorem not_place_of_not_number :
    ¬∀ op ∈ numeric, ∀ (ns : List Number) (v : Value) (vs : List Value), v.number? = none →
      op.arity.accepts (ns.length + 1 + vs.length) = true → op.GetsPast ns →
      ∃ e, apply none (eval none 0) (.builtin op) (ns.map Number.toValue ++ v :: vs) {} =
          .fault e {} ∧
        e.message = op.name ++ " expects number (arg " ++ Decimal.ofNat (ns.length + 1) ++
          "), got " ++ v.typeName := by
  intro hall
  obtain ⟨e, he, hmessage⟩ := hall sub (by decide) [.int 1] .nil [] rfl rfl ⟨_, rfl⟩
  cases he
  exact absurd hmessage (by decide +kernel)

end Eval

end Lisp
