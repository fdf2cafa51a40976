import Mathlib.Algebra.BigOperators.Group.List.Basic
import Mathlib.Algebra.Order.Ring.Int
import Mathlib.Data.List.Infix
import Lisp.Proofs.Builtin.Operands

/-!
# Exact integer arithmetic

Addition, multiplication and subtraction of integers give the exact result, or they fail. They go
through their arguments from left to right, and they fail as soon as a result on the way does not fit
in 64 bits, even if the whole result would.
-/

namespace Lisp

namespace Decimal

def Fits (n : Int) : Prop := -2 ^ 63 ≤ n ∧ n < 2 ^ 63

instance : DecidablePred Fits := fun _ => inferInstanceAs (Decidable (_ ∧ _))

theorem fits_toInt (w : Int64) : Fits w.toInt := ⟨w.le_toInt, w.toInt_lt⟩

theorem exists_fit_of_fits {n : Int} (h : Fits n) : ∃ w, fit n = some w ∧ w.toInt = n := by
  have hfit : fit n = some (Int64.ofInt n) := if_pos h
  exact ⟨_, hfit, fit_eq_some_iff.mp hfit⟩

theorem fit_eq_none_of_not_fits {n : Int} (h : ¬Fits n) : fit n = none := if_neg h

end Decimal

open Decimal (Fits)

namespace Operation

variable {o : Operation} {op : Builtin} {a : Int64} {ns : List Int64}

theorem foldl_difference (n : Int) (ns : List Int) : ns.foldl difference.ints n = n - ns.sum := by
  induction ns generalizing n with
  | nil => simp
  | cons m ns ih =>
    rw [List.foldl_cons, ih, List.sum_cons]
    exact Int.sub_sub n m ns.sum

theorem fold_int_cons (o : Operation) (op : Builtin) (place : Nat) (a n : Int64)
    (ns : List Int64) :
    o.fold op place (.int a) ((n :: ns).map Value.int) =
      match Decimal.fit (o.ints a.toInt n.toInt) with
      | some w => o.fold op (place + 1) (.int w) (ns.map Value.int)
      | none => .error (.overflow op) := by
  rw [List.map_cons, fold, Number.ofValue]
  simp only [combine, Number.exact, bind, Except.bind]
  cases Decimal.fit (o.ints a.toInt n.toInt) <;> rfl

/-- A fold over integers is exact if every result on the way fits. -/
theorem fold_of_fits (op : Builtin) (place : Nat)
    (h : ∀ ms, ms <+: ns.map Int64.toInt → Fits (ms.foldl o.ints a.toInt)) :
    ∃ w, o.fold op place (.int a) (ns.map Value.int) = .ok (.int w) ∧
      w.toInt = (ns.map Int64.toInt).foldl o.ints a.toInt := by
  induction ns generalizing a place with
  | nil => exact ⟨a, rfl, rfl⟩
  | cons n ns ih =>
    obtain ⟨b, hb, hexact⟩ := Decimal.exists_fit_of_fits (h [n.toInt] (by simp))
    rw [List.foldl_cons, List.foldl_nil] at hb hexact
    obtain ⟨w, hw, hresult⟩ := ih (a := b) (place + 1) fun ms hms => by
      rw [hexact]
      exact h (n.toInt :: ms) ((List.prefix_cons_inj n.toInt).mpr hms)
    refine ⟨w, ?_, ?_⟩
    · rw [fold_int_cons, hb]
      exact hw
    · rw [hresult, hexact]
      rfl

/-- A fold over integers overflows if a result on the way does not fit. -/
theorem fold_of_not_fits (place : Nat) {ms : List Int} (hms : ms <+: ns.map Int64.toInt)
    (h : ¬Fits (ms.foldl o.ints a.toInt)) :
    o.fold op place (.int a) (ns.map Value.int) = .error (.overflow op) := by
  induction ns generalizing a place ms with
  | nil =>
    rw [List.map_nil, List.prefix_nil] at hms
    subst hms
    exact absurd (Decimal.fits_toInt a) h
  | cons n ns ih =>
    rw [fold_int_cons]
    by_cases hfits : Fits (o.ints a.toInt n.toInt)
    · obtain ⟨b, hb, hexact⟩ := Decimal.exists_fit_of_fits hfits
      rw [hb]
      rcases List.prefix_cons_iff.mp hms with rfl | ⟨rest, rfl, hrest⟩
      · exact absurd (Decimal.fits_toInt a) h
      · refine ih (place + 1) hrest ?_
        rw [hexact]
        exact h
    · rw [Decimal.fit_eq_none_of_not_fits hfits]

end Operation

namespace Builtin

def arithmetic : List Builtin := [add, mul, sub, inc, dec]

theorem mem_arithmetic_iff {op : Builtin} :
    op ∈ arithmetic ↔ op = add ∨ op = mul ∨ op = sub ∨ op = inc ∨ op = dec := by
  simp [arithmetic]

def exactResult : Builtin → List Int → Int
  | add, ns => ns.sum
  | mul, ns => ns.prod
  | sub, [n] => -n
  | sub, n :: ns => n - ns.sum
  | inc, [n] => n + 1
  | dec, [n] => n - 1
  | _, _ => 0

/-- The exact results on the way from left to right, one for each argument that is taken in, and the
number that a sum, a product or a difference starts from. -/
def exactResults : Builtin → List Int → List Int
  | add, ns => ns.inits.map List.sum
  | mul, ns => ns.inits.map List.prod
  | sub, [n] => [-n]
  | sub, n :: ns => ns.inits.map (n - ·.sum)
  | inc, [n] => [n + 1]
  | dec, [n] => [n - 1]
  | _, _ => []

variable {op : Builtin} {ns : List Int64}

/-- A call with integers is a fold of an operation from a number on, and the exact results on the way
are those of the fold. -/
structure IsFold (op : Builtin) (ns : List Int64) (o : Operation) (a : Int64) (ms : List Int64) :
    Prop where
  compute_eq : op.compute (ns.map Value.int) =
    Number.toValue <$> o.fold op 1 (.int a) (ms.map Value.int)
  result : op.exactResult (ns.map Int64.toInt) = (ms.map Int64.toInt).foldl o.ints a.toInt
  results : (∀ n ∈ op.exactResults (ns.map Int64.toInt), Fits n) ↔
    ∀ l, l <+: ms.map Int64.toInt → Fits (l.foldl o.ints a.toInt)

theorem forall_mem_map_inits {f : List Int → Int} {ms : List Int} {P : Int → Prop} :
    (∀ n ∈ ms.inits.map f, P n) ↔ ∀ l, l <+: ms → P (f l) := by
  simp [List.mem_inits]

/-- A fold over one integer has one result on the way. -/
theorem isFold_of_singleton {o : Operation} {a n : Int64}
    (hcompute : op.compute (ns.map Value.int) =
      Number.toValue <$> o.fold op 1 (.int a) [.int n])
    (hresult : op.exactResult (ns.map Int64.toInt) = o.ints a.toInt n.toInt)
    (hresults : op.exactResults (ns.map Int64.toInt) = [o.ints a.toInt n.toInt]) :
    op.IsFold ns o a [n] := by
  refine ⟨hcompute, hresult, ?_⟩
  rw [hresults]
  simp [List.prefix_cons_iff, Decimal.fits_toInt]

theorem isFold_add (ns : List Int64) : add.IsFold ns .sum 0 ns := by
  have hsum (l : List Int) : l.foldl Operation.sum.ints (0 : Int64).toInt = l.sum :=
    List.sum_eq_foldl.symm
  refine ⟨rfl, (hsum _).symm, ?_⟩
  simp only [exactResults, forall_mem_map_inits, hsum]

theorem isFold_mul (ns : List Int64) : mul.IsFold ns .product 1 ns := by
  have hprod (l : List Int) : l.foldl Operation.product.ints (1 : Int64).toInt = l.prod :=
    List.prod_eq_foldl.symm
  refine ⟨rfl, (hprod _).symm, ?_⟩
  simp only [exactResults, forall_mem_map_inits, hprod]

theorem isFold_sub (n m : Int64) (ns : List Int64) :
    sub.IsFold (n :: m :: ns) .difference n (m :: ns) := by
  refine ⟨rfl, (Operation.foldl_difference _ _).symm, ?_⟩
  simp only [List.map_cons, exactResults, forall_mem_map_inits, Operation.foldl_difference]

/-- The negative of a number is its difference from zero. -/
theorem isFold_negate (n : Int64) : sub.IsFold [n] .difference 0 [n] := by
  have hzero : -n.toInt = Operation.difference.ints (0 : Int64).toInt n.toInt :=
    (Int.zero_sub n.toInt).symm
  refine isFold_of_singleton ?_ hzero (congrArg (fun m => [m]) hzero)
  change (Number.exact sub (-n.toInt) >>= fun m => .ok m.toValue) = _
  rw [hzero, Number.exact, Operation.fold, Number.ofValue]
  simp only [bind, Except.bind, Operation.combine, Number.exact]
  cases Decimal.fit (Operation.difference.ints (0 : Int64).toInt n.toInt) <;> rfl

theorem isFold_inc (n : Int64) : inc.IsFold [n] .sum 1 [n] := by
  have hone : n.toInt + 1 = Operation.sum.ints (1 : Int64).toInt n.toInt := Int.add_comm n.toInt 1
  exact isFold_of_singleton rfl hone (congrArg (fun m => [m]) hone)

theorem isFold_dec (n : Int64) : dec.IsFold [n] .difference n [1] :=
  isFold_of_singleton rfl rfl rfl

theorem exists_isFold (hop : op ∈ arithmetic) (h : op.arity.accepts ns.length = true) :
    ∃ o a ms, op.IsFold ns o a ms := by
  rcases mem_arithmetic_iff.mp hop with rfl | rfl | rfl | rfl | rfl
  · exact ⟨_, _, _, isFold_add ns⟩
  · exact ⟨_, _, _, isFold_mul ns⟩
  · obtain ⟨n, ns, rfl⟩ := eq_cons_of_accepts h (rfl : sub.arity = _)
    cases ns with
    | nil => exact ⟨_, _, _, isFold_negate n⟩
    | cons m ns => exact ⟨_, _, _, isFold_sub n m ns⟩
  · obtain ⟨n, rfl⟩ := List.length_eq_one_iff.mp (length_of_accepts h (rfl : inc.arity = _))
    exact ⟨_, _, _, isFold_inc n⟩
  · obtain ⟨n, rfl⟩ := List.length_eq_one_iff.mp (length_of_accepts h (rfl : dec.arity = _))
    exact ⟨_, _, _, isFold_dec n⟩

/-- Integers give the exact result where every result on the way fits. -/
theorem compute_of_fits (hop : op ∈ arithmetic) (h : op.arity.accepts ns.length = true)
    (hfits : ∀ n ∈ op.exactResults (ns.map Int64.toInt), Fits n) :
    ∃ r : Int64, op.compute (ns.map Value.int) = .ok (.int r) ∧
      r.toInt = op.exactResult (ns.map Int64.toInt) := by
  obtain ⟨o, a, ms, hfold⟩ := exists_isFold hop h
  obtain ⟨r, hr, hexact⟩ := Operation.fold_of_fits op 1 (hfold.results.mp hfits)
  refine ⟨r, ?_, hexact.trans hfold.result.symm⟩
  rw [hfold.compute_eq, hr]
  rfl

/-- Integers overflow where a result on the way does not fit. -/
theorem compute_of_not_fits (hop : op ∈ arithmetic) (h : op.arity.accepts ns.length = true)
    (hfits : ¬∀ n ∈ op.exactResults (ns.map Int64.toInt), Fits n) :
    op.compute (ns.map Value.int) = .error (.overflow op) := by
  obtain ⟨o, a, ms, hfold⟩ := exists_isFold hop h
  rw [hfold.results] at hfits
  obtain ⟨l, hl, hover⟩ : ∃ l, l <+: ms.map Int64.toInt ∧ ¬Fits (l.foldl o.ints a.toInt) := by
    simpa using hfits
  rw [hfold.compute_eq, Operation.fold_of_not_fits 1 hl hover]
  rfl

end Builtin

namespace Eval

open Builtin

theorem apply_arithmetic (limit : Option Nat) (ev : Evaluator) (s : State) {op : Builtin}
    (hop : op ∈ arithmetic) {args : List Value} (h : op.arity.accepts args.length = true) :
    apply limit ev (.builtin op) args s =
      match op.compute args with
      | .ok v => .value v s
      | .error e => .fault { cause := .builtin e, passed := [⟨op.name, none⟩] } s := by
  refine apply_compute limit ev s ?_ h
  rcases mem_arithmetic_iff.mp hop with rfl | rfl | rfl | rfl | rfl <;> rfl

/-- Applied to integers, a function that adds, multiplies or subtracts returns an integer exactly
when every result on the way, from left to right, fits in 64 bits. It is the exact result then, and
else the call fails with an overflow of the function. -/
theorem apply_int_iff_fits (limit : Option Nat) (ev : Evaluator) (s : State) (op : Builtin)
    (hop : op ∈ arithmetic) (ns : List Int64) (h : op.arity.accepts ns.length = true) :
    let result := apply limit ev (.builtin op) (ns.map Value.int) s
    let results := op.exactResults (ns.map Int64.toInt)
    ((∃ r : Int64, result = .value (.int r) s) ↔ ∀ n ∈ results, Fits n) ∧
      (∀ v t, result = .value v t → t = s ∧
        ∃ r : Int64, v = .int r ∧ r.toInt = op.exactResult (ns.map Int64.toInt)) ∧
      ((∃ n ∈ results, ¬Fits n) → ∃ e, result = .fault e s ∧ e.kind = .native ∧
        e.message = "integer overflow in " ++ op.name ∧ e.stack = [⟨op.name, none⟩]) := by
  intro result results
  have happly : result = _ := apply_arithmetic limit ev s hop (by rwa [List.length_map])
  by_cases hfits : ∀ n ∈ results, Fits n
  · obtain ⟨r, hr, hexact⟩ := compute_of_fits hop h hfits
    rw [hr] at happly
    refine ⟨⟨fun _ => hfits, fun _ => ⟨r, happly⟩⟩, ?_, ?_⟩
    · intro v t hvalue
      cases happly.symm.trans hvalue
      exact ⟨rfl, r, rfl, hexact⟩
    · rintro ⟨n, hn, hover⟩
      exact absurd (hfits n hn) hover
  · rw [compute_of_not_fits hop h hfits] at happly
    refine ⟨⟨?_, fun hall => absurd hall hfits⟩, ?_, fun _ => ⟨_, happly, rfl, rfl, rfl⟩⟩
    · rintro ⟨r, hvalue⟩
      cases happly.symm.trans hvalue
    · intro v t hvalue
      cases happly.symm.trans hvalue

/-- The least integer is a difference, but a product of zero overflows on the way. -/
theorem apply_int_iff_fits_limits :
    (∃ r : Int64, apply none (eval none 0) (.builtin sub) [.int (-1), .int 0x7fffffffffffffff] {} =
        .value (.int r) {} ∧ r.toInt = -2 ^ 63) ∧
      ∃ e, apply none (eval none 0) (.builtin mul)
          [.int 0x7fffffffffffffff, .int 2, .int 0] {} = .fault e {} ∧
        e.message = "integer overflow in *" := by
  obtain ⟨hsub, hexact, -⟩ := apply_int_iff_fits none (eval none 0) {} sub (by decide)
    [-1, 0x7fffffffffffffff] rfl
  obtain ⟨-, -, hmul⟩ := apply_int_iff_fits none (eval none 0) {} mul (by decide)
    [0x7fffffffffffffff, 2, 0] rfl
  constructor
  · obtain ⟨r, hr⟩ := hsub.mpr (by decide)
    obtain ⟨-, r', ⟨⟩, hr'⟩ := hexact _ _ hr
    exact ⟨r, hr, hr'⟩
  · obtain ⟨e, he, -, hmessage, -⟩ := hmul ⟨2 * (2 ^ 63 - 1), by decide, by decide⟩
    exact ⟨e, he, hmessage⟩

end Eval

end Lisp
