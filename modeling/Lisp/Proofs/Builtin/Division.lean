import Lisp.Proofs.Builtin.Arithmetic

/-!
# Exact division

A number is divided by integers from left to right. It stays an integer as long as every division
comes out even, and it is a double from then on. A divisor of zero ends the division wherever it
stands. The only quotient of integers that comes out even and does not fit in 64 bits is that of the
least integer and -1.
-/

namespace Lisp

open Decimal (Fits)

namespace Number

def int? : Number → Option Int
  | int n => some n.toInt
  | float _ => none

/-- The quotient of two integers, if the division comes out even and the quotient fits. -/
def evenQuotient? (n d : Int) : Option Int :=
  if d ≠ 0 ∧ d ∣ n ∧ Fits (n / d) then some (n / d) else none

/-- The integer that is left after divisions from left to right. There is none after a division that
does not come out even, has the divisor zero, or does not fit. -/
def integerQuotient? (q : Option Int) (ds : List Int) : Option Int :=
  ds.foldl (fun q d => q.bind (evenQuotient? · d)) q

/-- The least integer meets the divisor -1 on the way. No divisor before is zero then. -/
def Overflows (q : Option Int) (ds : List Int) : Prop :=
  ∃ before after, ds = before ++ -1 :: after ∧ integerQuotient? q before = some (-2 ^ 63)

/-- A divisor is zero, and no division before it overflows. -/
def MeetsZero (q : Option Int) (ds : List Int) : Prop :=
  ∃ before after, ds = before ++ 0 :: after ∧ ¬Overflows q before

variable {q : Option Int} {d n : Int} {ds : List Int}

theorem integerQuotient?_cons (q : Option Int) (d : Int) (ds : List Int) :
    integerQuotient? q (d :: ds) = integerQuotient? (q.bind (evenQuotient? · d)) ds := rfl

theorem not_exists_split_nil {x : Int} {P : List Int → Prop} :
    ¬∃ before after, [] = before ++ x :: after ∧ P before := by
  rintro ⟨before, after, h, -⟩
  cases before <;> cases h

theorem not_overflows_nil (q : Option Int) : ¬Overflows q [] := not_exists_split_nil

theorem not_meetsZero_nil (q : Option Int) : ¬MeetsZero q [] := not_exists_split_nil

/-- A divisor is met first of all, or after the first one. -/
theorem exists_split_cons_iff {x : Int} {P : List Int → Prop} :
    (∃ before after, d :: ds = before ++ x :: after ∧ P before) ↔
      d = x ∧ P [] ∨ ∃ before after, ds = before ++ x :: after ∧ P (d :: before) := by
  constructor
  · rintro ⟨before, after, h, hbefore⟩
    cases before with
    | nil =>
      cases h
      exact .inl ⟨rfl, hbefore⟩
    | cons b before =>
      cases h
      exact .inr ⟨before, after, rfl, hbefore⟩
  · rintro (⟨rfl, hbefore⟩ | ⟨before, after, rfl, hbefore⟩)
    · exact ⟨[], ds, rfl, hbefore⟩
    · exact ⟨d :: before, after, rfl, hbefore⟩

theorem integerQuotient?_none (ds : List Int) : integerQuotient? none ds = none := by
  induction ds with
  | nil => rfl
  | cons d ds ih => exact ih

theorem not_overflows_none (ds : List Int) : ¬Overflows none ds := by
  rintro ⟨before, after, -, h⟩
  rw [integerQuotient?_none] at h
  cases h

theorem bind_evenQuotient?_zero (q : Option Int) : q.bind (evenQuotient? · 0) = none := by
  cases q with
  | none => rfl
  | some n => simp [evenQuotient?]

theorem integerQuotient?_append (q : Option Int) (before after : List Int) :
    integerQuotient? q (before ++ d :: after) =
      integerQuotient? ((integerQuotient? q before).bind (evenQuotient? · d)) after :=
  List.foldl_append

/-- No integer is left after a divisor of zero. -/
theorem MeetsZero.integerQuotient?_eq (h : MeetsZero q ds) : integerQuotient? q ds = none := by
  obtain ⟨before, after, rfl, -⟩ := h
  rw [integerQuotient?_append, bind_evenQuotient?_zero, integerQuotient?_none]

/-- No integer is left after an overflow. -/
theorem Overflows.integerQuotient?_eq (h : Overflows q ds) : integerQuotient? q ds = none := by
  obtain ⟨before, after, rfl, hleast⟩ := h
  have hbeyond : (some (-2 ^ 63)).bind (evenQuotient? · (-1)) = none := by decide
  rw [integerQuotient?_append, hleast, hbeyond, integerQuotient?_none]

theorem overflows_cons_iff :
    Overflows q (d :: ds) ↔
      q = some (-2 ^ 63) ∧ d = -1 ∨ Overflows (q.bind (evenQuotient? · d)) ds := by
  rw [Overflows, exists_split_cons_iff, and_comm]
  rfl

theorem meetsZero_cons_iff :
    MeetsZero q (d :: ds) ↔
      d = 0 ∨ ¬(q = some (-2 ^ 63) ∧ d = -1) ∧ MeetsZero (q.bind (evenQuotient? · d)) ds := by
  rw [MeetsZero, exists_split_cons_iff]
  simp only [not_overflows_nil, not_false_eq_true, and_true, overflows_cons_iff, not_or]
  refine or_congr_right ⟨?_, ?_⟩
  · rintro ⟨before, after, hds, hd, hover⟩
    exact ⟨hd, before, after, hds, hover⟩
  · rintro ⟨hd, before, after, hds, hover⟩
    exact ⟨before, after, hds, hd, hover⟩

/-- The integer that is left, times the divisors, is the one from the beginning. -/
theorem eq_mul_prod_of_integerQuotient? {m : Int} (h : integerQuotient? q ds = some m) :
    q = some (m * ds.prod) := by
  induction ds generalizing q with
  | nil => simpa [integerQuotient?] using h
  | cons d ds ih =>
    rw [integerQuotient?_cons] at h
    obtain ⟨n, rfl, hn⟩ := Option.bind_eq_some_iff.mp (ih h)
    unfold evenQuotient? at hn
    split at hn
    · rename_i heven
      rw [Option.some.injEq] at hn
      rw [List.prod_cons, mul_left_comm, ← hn, Int.mul_ediv_cancel' heven.2.1]
    · cases hn

/-- An even quotient of 64-bit integers fits, but for that of the least one and -1. -/
theorem fits_ediv_iff (hn : Fits n) (hd : d ≠ 0) (heven : d ∣ n) :
    Fits (n / d) ↔ ¬(n = -2 ^ 63 ∧ d = -1) := by
  obtain ⟨k, rfl⟩ := heven
  rw [Int.mul_ediv_cancel_left k hd]
  have hle : k.natAbs ≤ (d * k).natAbs := by
    rw [Int.natAbs_mul]
    exact Nat.le_mul_of_pos_left _ (Int.natAbs_pos.mpr hd)
  unfold Fits at *
  constructor
  · rintro hk ⟨hleast, rfl⟩
    omega
  · intro hnot
    by_contra hk
    obtain rfl : k = 2 ^ 63 := by omega
    exact hnot ⟨by omega, by omega⟩

inductive QuotientOf (op : Builtin) (q : Option Int) (d : Int) :
    Except BuiltinError Number → Prop
  | zero (h : d = 0) : QuotientOf op q d (.error .divisionByZero)
  | overflow (h : q = some (-2 ^ 63)) (hd : d = -1) : QuotientOf op q d (.error (.overflow op))
  | ok {b : Number} (hd : d ≠ 0) (h : ¬(q = some (-2 ^ 63) ∧ d = -1))
    (hb : b.int? = q.bind (evenQuotient? · d)) : QuotientOf op q d (.ok b)

theorem quotientOf_quotient (op : Builtin) (a : Number) (d : Int64) :
    QuotientOf op a.int? d.toInt (quotient op a (int d)) := by
  by_cases hd : d = 0
  · subst hd
    rw [quotient_zero]
    exact .zero rfl
  have hd' : d.toInt ≠ 0 := fun h => hd (Int64.toInt_inj.mp h)
  cases a with
  | float x =>
    rw [quotient_float_int op x hd]
    exact .ok hd' (by simp [int?]) rfl
  | int n =>
    rw [quotient_int_int op n hd]
    by_cases heven : d.toInt ∣ n.toInt
    · rw [if_pos (Int.tmod_eq_zero_of_dvd heven), Int.tdiv_eq_ediv_of_dvd heven]
      have hfits := fits_ediv_iff (Decimal.fits_toInt n) hd' heven
      by_cases hq : Fits (n.toInt / d.toInt)
      · obtain ⟨w, hw, hexact⟩ := Decimal.exists_fit_of_fits hq
        rw [exact, hw]
        refine .ok hd' (by simpa [int?] using hfits.mp hq) ?_
        rw [int?, hexact]
        exact (if_pos ⟨hd', heven, hq⟩).symm
      · obtain ⟨hleast, hone⟩ := not_not.mp (mt hfits.mpr hq)
        rw [exact, Decimal.fit_eq_none_of_not_fits hq]
        exact .overflow (congrArg some hleast) hone
    · rw [if_neg fun h => heven (Int.dvd_of_tmod_eq_zero h)]
      -- Minus one divides every integer, so this is not the overflowing case either.
      refine .ok hd' ?_ (if_neg fun h => heven h.2.1).symm
      rintro ⟨-, hone⟩
      exact heven (hone ▸ Int.neg_dvd.mpr (one_dvd _))

inductive DivisionOf (op : Builtin) (q : Option Int) (ds : List Int) :
    Except BuiltinError Number → Prop
  | zero (h : MeetsZero q ds) (hover : ¬Overflows q ds) :
    DivisionOf op q ds (.error .divisionByZero)
  | overflow (h : Overflows q ds) (hzero : ¬MeetsZero q ds) :
    DivisionOf op q ds (.error (.overflow op))
  | ok {b : Number} (hzero : ¬MeetsZero q ds) (hover : ¬Overflows q ds)
    (hb : b.int? = integerQuotient? q ds) : DivisionOf op q ds (.ok b)

/-- After a first division without an error the others decide. -/
theorem DivisionOf.cons {op : Builtin} {r : Except BuiltinError Number} (hd : d ≠ 0)
    (h : ¬(q = some (-2 ^ 63) ∧ d = -1))
    (hr : DivisionOf op (q.bind (evenQuotient? · d)) ds r) : DivisionOf op q (d :: ds) r := by
  have hzero : MeetsZero q (d :: ds) ↔ MeetsZero (q.bind (evenQuotient? · d)) ds := by
    rw [meetsZero_cons_iff]
    exact ⟨fun hmeets => (hmeets.resolve_left hd).2, fun hmeets => .inr ⟨h, hmeets⟩⟩
  have hover : Overflows q (d :: ds) ↔ Overflows (q.bind (evenQuotient? · d)) ds := by
    rw [overflows_cons_iff]
    exact ⟨fun hover => hover.resolve_left h, .inr⟩
  cases hr with
  | zero hmeets hnot => exact .zero (hzero.mpr hmeets) (mt hover.mp hnot)
  | overflow hmeets hnot => exact .overflow (hover.mpr hmeets) (mt hzero.mp hnot)
  | ok hnot hnot' hb => exact .ok (mt hzero.mp hnot) (mt hover.mp hnot') hb

theorem divisionOf_foldlM (op : Builtin) (a : Number) (ds : List Int64) :
    DivisionOf op a.int? (ds.map Int64.toInt) ((ds.map int).foldlM (quotient op) a) := by
  induction ds generalizing a with
  | nil => exact .ok (not_meetsZero_nil _) (not_overflows_nil _) rfl
  | cons d ds ih =>
    have hstep := quotientOf_quotient op a d
    rw [List.map_cons, List.map_cons, List.foldlM_cons]
    cases hq : quotient op a (int d) with
    | error e =>
      rw [hq] at hstep
      cases hstep with
      | zero hd =>
        -- No integer is left after the zero, so nothing can overflow there.
        refine .zero (meetsZero_cons_iff.mpr (.inl hd)) ?_
        rw [overflows_cons_iff, hd, bind_evenQuotient?_zero]
        rintro (⟨-, ⟨⟩⟩ | hover)
        exact not_overflows_none _ hover
      | overflow hleast hd =>
        refine .overflow (overflows_cons_iff.mpr (.inl ⟨hleast, hd⟩)) ?_
        rw [meetsZero_cons_iff, hd]
        rintro (⟨⟨⟩⟩ | ⟨hnot, -⟩)
        exact hnot ⟨hleast, rfl⟩
    | ok b =>
      rw [hq] at hstep
      cases hstep with
      | ok hd hnot hb => exact .cons hd hnot (hb ▸ ih b)

namespace DivisionOf

variable {op : Builtin} {r : Except BuiltinError Number}

theorem eq_zero_iff (h : DivisionOf op q ds r) :
    r = .error .divisionByZero ↔ MeetsZero q ds := by
  cases h with
  | zero hzero hover => exact iff_of_true rfl hzero
  | overflow hover hzero => exact iff_of_false nofun hzero
  | ok hzero hover hb => exact iff_of_false nofun hzero

theorem eq_overflow_iff (h : DivisionOf op q ds r) :
    r = .error (.overflow op) ↔ Overflows q ds := by
  cases h with
  | zero hzero hover => exact iff_of_false nofun hover
  | overflow hover hzero => exact iff_of_true rfl hover
  | ok hzero hover hb => exact iff_of_false nofun hover

theorem exists_int_iff (h : DivisionOf op q ds r) :
    (∃ w, r = .ok (int w)) ↔ ∃ m, integerQuotient? q ds = some m := by
  cases h with
  | zero hzero hover => simp [hzero.integerQuotient?_eq]
  | overflow hover hzero => simp [hover.integerQuotient?_eq]
  | @ok b hzero hover hb =>
    rw [← hb]
    cases b <;> simp [int?]

theorem eq_mul_prod {w : Int64} (h : DivisionOf op q ds (.ok (int w))) :
    q = some (w.toInt * ds.prod) := by
  cases h with
  | ok hzero hover hb => exact eq_mul_prod_of_integerQuotient? hb.symm

end DivisionOf

end Number

namespace Builtin

open Number

theorem divisionOf_compute (a : Number) (d : Int64) (ds : List Int64) :
    ∃ r, DivisionOf div a.int? ((d :: ds).map Int64.toInt) r ∧
      div.compute (a.toValue :: (d :: ds).map Value.int) = toValue <$> r := by
  refine ⟨_, divisionOf_foldlM div a (d :: ds), ?_⟩
  rw [compute_div_cons a (by simp), ← (takesIn_divideBy div).map_toValue 2, List.map_map]
  rfl

end Builtin

namespace Eval

open Builtin Number

/-- A number divided by integers. The result is an integer exactly when every division on the way
comes out even and fits, and it times the divisors is the number then. A divisor of zero is an error
unless a division before it overflows, and -1 is one where it meets the least integer. In all other
cases the result is a double. A single argument divides one. -/
theorem apply_div_int (limit : Option Nat) (ev : Evaluator) (s : State) (a : Number) (d : Int64)
    (ds : List Int64) :
    let divisors := (d :: ds).map Int64.toInt
    let result := apply limit ev (.builtin div) (a.toValue :: (d :: ds).map Value.int) s
    let Fails (e : BuiltinError) : Prop :=
      result = .fault { cause := .builtin e, passed := [⟨"/", none⟩] } s
    ((∃ r, result = .value (.int r) s) ↔ ∃ q, integerQuotient? a.int? divisors = some q) ∧
      (∀ r t, result = .value (.int r) t → t = s ∧ a.int? = some (r.toInt * divisors.prod)) ∧
      (Fails .divisionByZero ↔ MeetsZero a.int? divisors) ∧
      (Fails (.overflow div) ↔ Overflows a.int? divisors) ∧
      ((∀ r, result ≠ .value (.int r) s) → ¬Fails .divisionByZero → ¬Fails (.overflow div) →
        ∃ x, result = .value (.float x) s) ∧
      ∀ v, apply limit ev (.builtin div) [v] s = apply limit ev (.builtin div) [.int 1, v] s := by
  intro divisors result Fails
  obtain ⟨r, hr, hcompute⟩ := divisionOf_compute a d ds
  have happly : result = _ := apply_compute limit ev s rfl rfl
  rw [hcompute] at happly
  have hfails (e : BuiltinError) : Fails e ↔ r = .error e := by
    change result = _ ↔ _
    rw [happly]
    cases r <;> simp [Functor.map, Except.map, name]
  have hint (w : Int64) (t : State) : result = .value (.int w) t ↔ t = s ∧ r = .ok (.int w) := by
    rw [happly]
    rcases r with e | w' | x <;> simp [Functor.map, Except.map, toValue, eq_comm, and_comm]
  have hone (v : Value) : div.compute [v] = div.compute [.int 1, v] :=
    (compute_div_cons (.int 1) (by simp)).symm
  refine ⟨?_, ?_, (hfails _).trans hr.eq_zero_iff, (hfails _).trans hr.eq_overflow_iff, ?_, ?_⟩
  · simpa only [hint, true_and] using hr.exists_int_iff
  · intro w t hresult
    obtain ⟨rfl, rfl⟩ := (hint w t).mp hresult
    exact ⟨rfl, hr.eq_mul_prod⟩
  · intro hnot hzero hover
    rcases r with e | w | x
    · cases hr with
      | zero => exact absurd ((hfails _).mpr rfl) hzero
      | overflow => exact absurd ((hfails _).mpr rfl) hover
    · exact absurd ((hint w s).mpr ⟨rfl, rfl⟩) (hnot w)
    · exact ⟨x, happly⟩
  · intro v
    rw [apply_compute limit ev s rfl rfl, apply_compute limit ev s rfl rfl, hone]

/-- A zero divides what is a double already, but it comes too late after an overflow. -/
theorem apply_div_int_zero :
    apply none (eval none 0) (.builtin div) [.int 7, .int 2, .int 0] {} =
        .fault { cause := .builtin .divisionByZero, passed := [⟨"/", none⟩] } {} ∧
      apply none (eval none 0) (.builtin div) [.int Int64.minValue, .int (-1), .int 0] {} =
        .fault { cause := .builtin (.overflow div), passed := [⟨"/", none⟩] } {} := by
  obtain ⟨-, -, hzero, -⟩ := apply_div_int none (eval none 0) {} (.int 7) 2 [0]
  obtain ⟨-, -, -, hover, -⟩ := apply_div_int none (eval none 0) {} (.int Int64.minValue) (-1) [0]
  refine ⟨hzero.mpr ⟨[2], [], rfl, ?_⟩, hover.mpr ⟨[], [0], rfl, rfl⟩⟩
  rw [overflows_cons_iff]
  rintro (⟨⟨⟩, -⟩ | hnone)
  exact not_overflows_nil _ hnone

end Eval

end Lisp
