import Mathlib.Data.List.Chain
import Mathlib.Order.Lattice
import Lisp.Proofs.Builtin.Operands

/-!
# Comparisons

A comparison looks at each argument and the next one. For integers this decides about all pairs,
since the orders are transitive, and it is exact. Every argument has to be a number, even after a
pair that is not in order.
-/

namespace Lisp

namespace Builtin

def order? : Builtin → Option (Int → Int → Prop)
  | less => some (· < ·)
  | greater => some (· > ·)
  | lessEq => some (· ≤ ·)
  | greaterEq => some (· ≥ ·)
  | _ => none

def opposite : Builtin → Builtin
  | less => greater
  | greater => less
  | lessEq => greaterEq
  | greaterEq => lessEq
  | op => op

structure Compares (op : Builtin) (c : Comparison) (R : Int → Int → Prop) : Prop where
  compute_eq (args : List Value) : op.compute args = compare op c args
  ints_iff (a b : Int) : c.ints a b = true ↔ R a b
  trans {a b c : Int} : R a b → R b c → R a c
  effectless : op.isEffectful = false
  arity_eq : op.arity = .atLeast 1

theorem compares_less : less.Compares .less (· < ·) :=
  ⟨fun _ => rfl, fun _ _ => decide_eq_true_iff, lt_trans, rfl, rfl⟩

theorem compares_greater : greater.Compares .greater (· > ·) :=
  ⟨fun _ => rfl, fun _ _ => decide_eq_true_iff, gt_trans, rfl, rfl⟩

theorem compares_lessEq : lessEq.Compares .lessEq (· ≤ ·) :=
  ⟨fun _ => rfl, fun _ _ => decide_eq_true_iff, le_trans, rfl, rfl⟩

theorem compares_greaterEq : greaterEq.Compares .greaterEq (· ≥ ·) :=
  ⟨fun _ => rfl, fun _ _ => decide_eq_true_iff, ge_trans, rfl, rfl⟩

variable {op : Builtin} {R : Int → Int → Prop}

theorem exists_compares (h : op.order? = some R) : ∃ c, op.Compares c R := by
  cases op with
  | less => cases h; exact ⟨_, compares_less⟩
  | greater => cases h; exact ⟨_, compares_greater⟩
  | lessEq => cases h; exact ⟨_, compares_lessEq⟩
  | greaterEq => cases h; exact ⟨_, compares_greaterEq⟩
  | _ => cases h

theorem order?_opposite (h : op.order? = some R) :
    op.opposite.order? = some fun a b => R b a := by
  cases op with
  | less | greater | lessEq | greaterEq => cases h; rfl
  | _ => cases h

end Builtin

namespace Comparison

variable {c : Comparison} {R : Int → Int → Prop}

/-- A chain of integers holds if each stands in the order to the next one. -/
theorem chain_int_iff (hc : ∀ a b, c.ints a b = true ↔ R a b) (ns : List Int64) :
    c.chain (ns.map Number.int) = true ↔ (ns.map Int64.toInt).IsChain R := by
  induction ns with
  | nil => simp [chain]
  | cons n ns ih =>
    cases ns with
    | nil => simp [chain]
    | cons m ns =>
      simp only [List.map_cons, chain, Bool.and_eq_true, List.isChain_cons_cons] at ih ⊢
      exact and_congr (hc _ _) ih

end Comparison

namespace Builtin.Compares

variable {op : Builtin} {c : Comparison} {R : Int → Int → Prop}

/-- Adjacent integers decide about all pairs. -/
theorem chain_iff_pairwise (h : op.Compares c R) (ns : List Int64) :
    c.chain (ns.map Number.int) = true ↔ (ns.map Int64.toInt).Pairwise R := by
  have : IsTrans Int R := ⟨fun _ _ _ => h.trans⟩
  rw [Comparison.chain_int_iff h.ints_iff, List.isChain_iff_pairwise]

theorem compute_int (h : op.Compares c R) (ns : List Int64) :
    op.compute (ns.map Value.int) = .ok (.bool (c.chain (ns.map Number.int))) := by
  have hread := Number.ofValues_map_toValue op 1 (ns.map Number.int)
  rw [List.map_map] at hread
  rw [h.compute_eq, compare]
  change (Number.ofValues op 1 (ns.map (Number.toValue ∘ Number.int)) >>= _) = _
  rw [hread]
  rfl

end Builtin.Compares

namespace Eval

open Builtin

variable {op : Builtin} {c : Comparison} {R : Int → Int → Prop}

theorem apply_compares_int (limit : Option Nat) (ev : Evaluator) (s : State)
    (h : op.Compares c R) {ns : List Int64} (hns : ns ≠ []) :
    apply limit ev (.builtin op) (ns.map Value.int) s =
      .value (.bool (c.chain (ns.map Number.int))) s := by
  have haccepts : op.arity.accepts (ns.map Value.int).length = true := by
    rw [h.arity_eq, List.length_map]
    exact Arity.accepts_iff.mpr ⟨List.length_pos_iff.mpr hns, nofun⟩
  rw [apply_compute limit ev s h.effectless haccepts, h.compute_int]

theorem apply_compares_not_number (limit : Option Nat) (ev : Evaluator) (s : State)
    (h : op.Compares c R) {args : List Value} (hargs : ∃ v ∈ args, v.number? = none) :
    ∃ e, apply limit ev (.builtin op) args s = .fault e s ∧ e.kind = .native := by
  obtain ⟨ns, v, vs, rfl, hv⟩ := Number.exists_first_not_number hargs
  have haccepts : op.arity.accepts (ns.map Number.toValue ++ v :: vs).length = true := by
    rw [h.arity_eq]
    exact Arity.accepts_iff.mpr ⟨List.length_pos_iff.mpr (by simp), nofun⟩
  have happly := apply_compute limit ev s h.effectless haccepts
  rw [h.compute_eq, compare_of_not_number op c ns hv] at happly
  exact ⟨_, happly, rfl⟩

/-- Applied to integers, a comparison is true exactly when all pairs of them are in order, each with
every later one. The opposite comparison says the same of the integers in reverse. If any argument
is not a number, the call fails. -/
theorem apply_order_iff_pairwise (limit : Option Nat) (ev : Evaluator) (s : State) (op : Builtin)
    (R : Int → Int → Prop) (hop : op.order? = some R) (ns : List Int64) (hns : ns ≠ []) :
    let result := apply limit ev (.builtin op) (ns.map Value.int) s
    (∃ b, result = .value (.bool b) s ∧ (b = true ↔ (ns.map Int64.toInt).Pairwise R)) ∧
      result = apply limit ev (.builtin op.opposite) (ns.reverse.map Value.int) s ∧
      ∀ args, (∃ v ∈ args, Value.number? v = none) →
        ∃ e, apply limit ev (.builtin op) args s = .fault e s ∧ e.kind = .native := by
  intro result
  obtain ⟨c, hc⟩ := exists_compares hop
  obtain ⟨c', hc'⟩ := exists_compares (order?_opposite hop)
  have hresult := apply_compares_int limit ev s hc hns
  refine ⟨⟨_, hresult, hc.chain_iff_pairwise ns⟩, ?_,
    fun args => apply_compares_not_number limit ev s hc⟩
  have hchain : c.chain (ns.map Number.int) = c'.chain (ns.reverse.map Number.int) := by
    rw [Bool.eq_iff_iff, hc.chain_iff_pairwise, hc'.chain_iff_pairwise, List.map_reverse,
      List.pairwise_reverse]
  rw [apply_compares_int limit ev s hc' (by simpa using hns), ← hchain]
  exact hresult

/-- Neighbours that doubles do not tell apart are still in order, and a text after a pair out of
order is an error. -/
theorem apply_order_iff_pairwise_large :
    apply none (eval none 0) (.builtin less)
        [.int 0x20000000000000, .int 0x20000000000001] {} = .value (.bool true) {} ∧
      ∃ e, apply none (eval none 0) (.builtin less) [.int 2, .int 1, .str "x"] {} =
        .fault e {} := by
  obtain ⟨⟨b, hb, hiff⟩, -, hnot⟩ := apply_order_iff_pairwise none (eval none 0) {} less _ rfl
    [0x20000000000000, 0x20000000000001] (by simp)
  obtain ⟨e, he, -⟩ := hnot [.int 2, .int 1, .str "x"] ⟨.str "x", by simp, rfl⟩
  obtain rfl := hiff.mpr (by decide)
  exact ⟨hb, e, he⟩

end Eval

end Lisp
