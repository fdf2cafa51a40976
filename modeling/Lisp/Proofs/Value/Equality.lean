import Mathlib.Data.List.Pairwise
import Mathlib.Logic.Function.Basic
import Mathlib.Logic.Relation
import Lisp.Proofs.Builtin.Operands

/-!
# Equality by content

Two values are equal exactly when they have the same content: what is left of a value without the
brackets of its sequences, the signs of its zeros and all of a closure but its identity. A NaN has
no content, and neither has a sequence with one at any depth. So equality is symmetric and
transitive, and only a value with a NaN in it differs from itself.
-/

namespace Lisp

open Float.Model (UnpackedFloat)
open Float.Model.UnpackedFloat (Sign)

/-- Both values are there, and they are the same. -/
def Agree {α : Type} (p q : Option α) : Prop := ∃ a, p = some a ∧ q = some a

namespace Agree

variable {α β : Type} {p q r : Option α} {a b : α} {f : α → β}

theorem comm : Agree p q ↔ Agree q p := by
  simp only [Agree, and_comm]

theorem trans (h : Agree p q) (h' : Agree q r) : Agree p r := by
  obtain ⟨a, hp, hq⟩ := h
  obtain ⟨b, hq', hr⟩ := h'
  cases hq.symm.trans hq'
  exact ⟨a, hp, hr⟩

theorem self_iff : Agree p p ↔ p ≠ none := by
  rw [Option.ne_none_iff_exists']
  exact exists_congr fun a => and_self_iff

theorem some_iff : Agree (some a) (some b) ↔ a = b := by
  simp [Agree, eq_comm]

theorem map_iff (hf : f.Injective) : Agree (p.map f) (q.map f) ↔ Agree p q := by
  constructor
  · rintro ⟨c, hp, hq⟩
    obtain ⟨a, ha, rfl⟩ := Option.map_eq_some_iff.mp hp
    obtain ⟨b, hb, hba⟩ := Option.map_eq_some_iff.mp hq
    exact ⟨a, ha, hf hba ▸ hb⟩
  · rintro ⟨a, rfl, rfl⟩
    exact ⟨f a, rfl, rfl⟩

end Agree

/-- The number that a double is. Both zeros are the same number, and a NaN is none. -/
def settled? : UnpackedFloat → Option UnpackedFloat
  | .notANumber => none
  | .zero _ => some (.zero .positive)
  | u => some u

theorem settled?_infinity (s : Sign) : settled? (.infinity s) = some (.infinity s) := rfl

theorem settled?_finite (s : Sign) {m : Nat} (hm : 0 < m) (e : Int) :
    settled? (.finite s m e hm) = some (.finite s m e hm) := rfl

theorem compare_infinity_eq_iff (s t : Sign) :
    (UnpackedFloat.infinity s).compare (.infinity t) = some .eq ↔ s = t := by
  change some (compare s t) = some .eq ↔ s = t
  cases s <;> cases t <;> simp <;> rfl

theorem compare_finite_eq_iff (s t : Sign) {m n : Nat} (hm : 0 < m) (hn : 0 < n) (e e' : Int) :
    (UnpackedFloat.finite s m e hm).compare (.finite t n e' hn) = some .eq ↔
      s = t ∧ m = n ∧ e = e' := by
  have horder : (compare e e').then (compare m n) = .eq ↔ m = n ∧ e = e' := by
    rw [Ordering.then_eq_eq, Int.compare_eq_eq, Nat.compare_eq_eq, and_comm]
  cases s with
  | negative =>
    cases t with
    | negative =>
      change some ((compare e e').then (compare m n)).swap = some .eq ↔ _
      simp [horder]
    | positive => exact iff_of_false nofun nofun
  | positive =>
    cases t with
    | negative => exact iff_of_false nofun nofun
    | positive =>
      change some ((compare e e').then (compare m n)) = some .eq ↔ _
      simp [horder]

/-- Two doubles of different kinds never compare as equal, and neither does a NaN. -/
theorem compare_eq_iff (u w : UnpackedFloat) :
    u.compare w = some .eq ↔ Agree (settled? u) (settled? w) := by
  cases u with
  | notANumber => exact iff_of_false nofun (by rintro ⟨_, ⟨⟩, _⟩)
  | infinity s =>
    cases w with
    | infinity t =>
      rw [compare_infinity_eq_iff, settled?_infinity, settled?_infinity, Agree.some_iff,
        UnpackedFloat.infinity.injEq]
    | _ => cases s <;> exact iff_of_false nofun (by rintro ⟨_, ⟨⟩, ⟨⟩⟩)
  | zero s =>
    cases w with
    | notANumber => exact iff_of_false nofun (by rintro ⟨_, ⟨⟩, ⟨⟩⟩)
    | zero t => exact iff_of_true rfl ⟨_, rfl, rfl⟩
    | infinity t | finite t => cases t <;> exact iff_of_false nofun (by rintro ⟨_, ⟨⟩, ⟨⟩⟩)
  | finite s m e hm =>
    cases w with
    | finite t n e' hn =>
      rw [compare_finite_eq_iff, settled?_finite, settled?_finite, Agree.some_iff,
        UnpackedFloat.finite.injEq]
    | infinity t => cases s <;> cases t <;> exact iff_of_false nofun (by rintro ⟨_, ⟨⟩, ⟨⟩⟩)
    | _ => cases s <;> exact iff_of_false nofun (by rintro ⟨_, ⟨⟩, ⟨⟩⟩)

theorem float_beq_iff (x y : Float) :
    (x == y) = true ↔ Agree (settled? x.toModel.unpack) (settled? y.toModel.unpack) := by
  rw [← compare_eq_iff]
  -- Equality of doubles is decided on their unpacked forms.
  change (x.toModel.unpack.compare y.toModel.unpack == some .eq) = true ↔ _
  exact beq_iff_eq

theorem settled?_eq_none_iff (x : Float) :
    settled? x.toModel.unpack = none ↔ x.isNaN = true := by
  change _ ↔ x.toModel.unpack.isNaN = true
  cases x.toModel.unpack with
  | notANumber => exact iff_of_true rfl rfl
  | _ => exact iff_of_false nofun nofun

/-! ## Contents -/

/-- What equality looks at in an atom. A double counts as the number that it is. -/
inductive Scalar where
  | double (u : UnpackedFloat)
  | other (a : Atom)

def Atom.scalar? : Atom → Option Scalar
  | .float x => (settled? x.toModel.unpack).map .double
  | a => some (.other a)

theorem Atom.same_iff (a b : Atom) : a.same b = true ↔ Agree a.scalar? b.scalar? := by
  unfold same scalar?
  cases a with
  | float x =>
    cases b with
    | float y => exact (float_beq_iff x y).trans (Agree.map_iff fun _ _ => Scalar.double.inj).symm
    | _ => simp [Agree]
  | _ => cases b <;> simp [Agree] <;> exact eq_comm

theorem Atom.scalar?_eq_none_iff (a : Atom) :
    a.scalar? = none ↔ ∃ x, a = .float x ∧ x.isNaN = true := by
  cases a with
  | float x =>
    rw [scalar?, Option.map_eq_none_iff, settled?_eq_none_iff]
    simp only [float.injEq, exists_eq_left']
  | _ => simp [scalar?]

/-- What equality looks at in a value. -/
inductive Content where
  | atom (c : Scalar)
  | seq (cs : List Content)
  | closure (role : Role) (id : Nat)
  | builtin (b : Builtin)

namespace Value

mutual

def content? : Value → Option Content
  | atom a => a.scalar?.map .atom
  | seq _ items => (contents? items).map .seq
  | closure c => some (.closure c.role c.id)
  | builtin b => some (.builtin b)

def contents? : List Value → Option (List Content)
  | [] => some []
  | v :: vs => v.content?.bind fun c => (contents? vs).map (c :: ·)

end

variable {v v' w w' : Value} {vs : List Value}

theorem contents?_cons_eq_some_iff {cs : List Content} :
    contents? (v :: vs) = some cs ↔
      ∃ c, v.content? = some c ∧ ∃ ds, contents? vs = some ds ∧ c :: ds = cs := by
  simp only [contents?, Option.bind_eq_some_iff, Option.map_eq_some_iff]

theorem contents?_cons_eq_none_iff :
    contents? (v :: vs) = none ↔ v.content? = none ∨ contents? vs = none := by
  cases hv : v.content? <;> simp [contents?, hv]

theorem contents?_append (vs ws : List Value) :
    contents? (vs ++ ws) = (contents? vs).bind fun cs => (contents? ws).map (cs ++ ·) := by
  induction vs with
  | nil => simp [contents?]
  | cons v vs ih =>
    simp only [List.cons_append, contents?, ih]
    cases v.content? <;> cases contents? vs <;> cases contents? ws <;> rfl

theorem agree_contents?_cons_iff {ws : List Value} :
    Agree (contents? (v :: vs)) (contents? (w :: ws)) ↔
      Agree v.content? w.content? ∧ Agree (contents? vs) (contents? ws) := by
  simp only [Agree, contents?_cons_eq_some_iff]
  constructor
  · rintro ⟨_, ⟨c, hv, cs, hvs, rfl⟩, d, hw, ds, hws, hcons⟩
    cases hcons
    exact ⟨⟨c, hv, hw⟩, cs, hvs, hws⟩
  · rintro ⟨⟨c, hv, hw⟩, cs, hvs, hws⟩
    exact ⟨c :: cs, ⟨c, hv, cs, hvs, rfl⟩, c, hw, cs, hws, rfl⟩

theorem not_agree_contents?_nil_cons : ¬Agree (contents? []) (contents? (v :: vs)) := by
  rintro ⟨cs, hnil, hcons⟩
  cases hnil
  obtain ⟨c, -, ds, -, hcs⟩ := contents?_cons_eq_some_iff.mp hcons
  cases hcs

mutual

/-- Equality compares contents. -/
theorem same_iff (v w : Value) : v.same w = true ↔ Agree v.content? w.content? := by
  cases v with
  | atom a =>
    cases w with
    | atom b =>
      rw [content?, content?, Agree.map_iff fun _ _ => Content.atom.inj]
      exact a.same_iff b
    | _ => simp [same, content?, Agree]
  | seq b vs =>
    cases w with
    | seq b' ws =>
      rw [content?, content?, Agree.map_iff fun _ _ => Content.seq.inj]
      exact sameAll_iff vs ws
    | _ => simp [same, content?, Agree]
  | closure c =>
    cases w with
    | closure d => simp [same, content?, Agree.some_iff]
    | _ => simp [same, content?, Agree]
  | builtin b =>
    cases w with
    | builtin c => simp [same, content?, Agree.some_iff]
    | _ => simp [same, content?, Agree]

theorem sameAll_iff (vs ws : List Value) :
    sameAll vs ws = true ↔ Agree (contents? vs) (contents? ws) := by
  cases vs with
  | nil =>
    cases ws with
    | nil => exact iff_of_true rfl ⟨[], rfl, rfl⟩
    | cons w ws => exact iff_of_false nofun not_agree_contents?_nil_cons
  | cons v vs =>
    cases ws with
    | nil => exact iff_of_false nofun (mt Agree.comm.mp not_agree_contents?_nil_cons)
    | cons w ws =>
      rw [sameAll, Bool.and_eq_true, same_iff v w, sameAll_iff vs ws, agree_contents?_cons_iff]

end

theorem same_comm (v w : Value) : v.same w = w.same v := by
  rw [Bool.eq_iff_iff, same_iff, same_iff, Agree.comm]

theorem same_trans {u v w : Value} (h : u.same v = true) (h' : v.same w = true) :
    u.same w = true :=
  (same_iff u w).mpr (((same_iff u v).mp h).trans ((same_iff v w).mp h'))

/-- There is a NaN in a value, at some depth of its lists and vectors. -/
inductive HasNaN : Value → Prop
  | float {x : Float} (h : x.isNaN = true) : HasNaN (.float x)
  | item {b : Bracket} {items : List Value} {v : Value} (hmem : v ∈ items) (h : HasNaN v) :
    HasNaN (.seq b items)

theorem contents?_eq_none_of_mem (hmem : v ∈ vs) (h : v.content? = none) :
    contents? vs = none := by
  induction vs with
  | nil => cases hmem
  | cons w vs ih =>
    rw [contents?_cons_eq_none_iff]
    rcases List.mem_cons.mp hmem with rfl | hmem
    · exact .inl h
    · exact .inr (ih hmem)

theorem HasNaN.content?_eq_none (h : HasNaN v) : v.content? = none := by
  induction h with
  | float h =>
    rw [content?, Option.map_eq_none_iff, Atom.scalar?_eq_none_iff]
    exact ⟨_, rfl, h⟩
  | item hmem _ ih =>
    rw [content?, Option.map_eq_none_iff]
    exact contents?_eq_none_of_mem hmem ih

mutual

theorem hasNaN_of_content?_eq_none {v : Value} (h : v.content? = none) : HasNaN v := by
  cases v with
  | atom a =>
    rw [content?, Option.map_eq_none_iff, Atom.scalar?_eq_none_iff] at h
    obtain ⟨x, rfl, hx⟩ := h
    exact .float hx
  | seq b vs =>
    rw [content?, Option.map_eq_none_iff] at h
    obtain ⟨v, hmem, hv⟩ := exists_hasNaN_of_contents?_eq_none h
    exact .item hmem hv
  | closure c => cases h
  | builtin b => cases h

theorem exists_hasNaN_of_contents?_eq_none {vs : List Value} (h : contents? vs = none) :
    ∃ v ∈ vs, HasNaN v := by
  cases vs with
  | nil => cases h
  | cons v vs =>
    rcases contents?_cons_eq_none_iff.mp h with h | h
    · exact ⟨v, List.mem_cons_self, hasNaN_of_content?_eq_none h⟩
    · obtain ⟨w, hmem, hw⟩ := exists_hasNaN_of_contents?_eq_none h
      exact ⟨w, List.mem_cons_of_mem v hmem, hw⟩

end

/-- Only a value with a NaN in it differs from itself. -/
theorem same_self_iff (v : Value) : v.same v = true ↔ ¬v.HasNaN := by
  rw [same_iff, Agree.self_iff]
  exact not_congr ⟨hasNaN_of_content?_eq_none, HasNaN.content?_eq_none⟩

/-- One list becomes a vector with the same elements, or the reverse, at some depth of a value. -/
inductive Rebracketed : Value → Value → Prop
  | whole (b b' : Bracket) (items : List Value) : Rebracketed (.seq b items) (.seq b' items)
  | item (b : Bracket) (before after : List Value) {v w : Value} (h : Rebracketed v w) :
    Rebracketed (.seq b (before ++ v :: after)) (.seq b (before ++ w :: after))

theorem Rebracketed.content?_eq (h : Rebracketed v w) : v.content? = w.content? := by
  induction h with
  | whole b b' items => rfl
  | item b before after _ ih => simp only [content?, contents?_append, contents?, ih]

open Relation (ReflTransGen)

theorem content?_eq_of_reflTransGen (h : ReflTransGen Rebracketed v w) :
    v.content? = w.content? := by
  induction h with
  | refl => rfl
  | tail _ hstep ih => exact ih.trans hstep.content?_eq

theorem same_eq_of_rebracketed (h : ReflTransGen Rebracketed v v')
    (h' : ReflTransGen Rebracketed w w') : v.same w = v'.same w' := by
  rw [Bool.eq_iff_iff, same_iff, same_iff, content?_eq_of_reflTransGen h,
    content?_eq_of_reflTransGen h']

/-! ## Many values -/

/-- Some values have one content. -/
def OneContent (vs : List Value) : Prop := ∃ c, ∀ v ∈ vs, v.content? = some c

theorem oneContent_congr {vs ws : List Value} (h : vs.Perm ws) : OneContent vs ↔ OneContent ws := by
  simp only [OneContent, h.mem_iff]

/-- It is enough to compare the first value with the others, if there are others. -/
theorem oneContent_cons_iff (hvs : vs ≠ []) :
    OneContent (v :: vs) ↔ ∀ w ∈ vs, v.same w = true := by
  constructor
  · rintro ⟨c, hc⟩ w hw
    exact (same_iff v w).mpr ⟨c, hc v List.mem_cons_self, hc w (List.mem_cons_of_mem v hw)⟩
  · intro hsame
    -- Alone, the first value might have no content, so it takes another one that it equals.
    obtain ⟨w, hw⟩ := List.exists_mem_of_ne_nil vs hvs
    obtain ⟨c, hv, -⟩ := (same_iff v w).mp (hsame w hw)
    refine ⟨c, List.forall_mem_cons.mpr ⟨hv, fun u hu => ?_⟩⟩
    obtain ⟨d, hv', hu⟩ := (same_iff v u).mp (hsame u hu)
    rwa [hv.symm.trans hv']

theorem pairwise_same_iff (hvs : vs ≠ []) :
    ((v :: vs).Pairwise fun v w => v.same w = true) ↔ OneContent (v :: vs) := by
  rw [List.pairwise_cons, ← oneContent_cons_iff hvs]
  refine and_iff_left_of_imp fun ⟨c, hc⟩ => List.pairwise_of_forall_mem_list fun u hu w hw => ?_
  exact (same_iff u w).mpr
    ⟨c, hc u (List.mem_cons_of_mem v hu), hc w (List.mem_cons_of_mem v hw)⟩

theorem all_same_iff (hvs : vs ≠ []) :
    vs.all (·.same v) = true ↔ OneContent (v :: vs) := by
  simp only [oneContent_cons_iff hvs, List.all_eq_true, same_comm v]

end Value

namespace Eval

open Relation (ReflTransGen)
open Builtin Value

theorem apply_equal (limit : Option Nat) (ev : Evaluator) (s : State) {args : List Value}
    (hargs : 2 ≤ args.length) :
    ∃ b, apply limit ev (.builtin equal) args s = .value (.bool b) s ∧
      (b = true ↔ OneContent args) := by
  cases args with
  | nil => cases hargs
  | cons v vs =>
    have haccepts : equal.arity.accepts (v :: vs).length = true :=
      Arity.accepts_iff.mpr ⟨Nat.le_of_succ_le hargs, nofun⟩
    have hvs : vs ≠ [] := List.length_pos_iff.mp (Nat.le_of_succ_le_succ hargs)
    exact ⟨_, apply_compute limit ev s rfl haccepts, all_same_iff hvs⟩

/-- Equality is symmetric and transitive, and a value equals itself exactly when there is no NaN in
it. Lists and vectors may stand for each other. So the equality function compares all pairs of its
arguments, in whatever order they come. -/
theorem apply_equal_iff_pairwise (limit : Option Nat) (ev : Evaluator) (s : State) :
    (∀ v w : Value, v.same w = w.same v) ∧
      (∀ u v w : Value, u.same v = true → v.same w = true → u.same w = true) ∧
      (∀ v : Value, v.same v = true ↔ ¬v.HasNaN) ∧
      (∀ v v' w w' : Value, ReflTransGen Rebracketed v v' → ReflTransGen Rebracketed w w' →
        v.same w = v'.same w') ∧
      ∀ args : List Value, 2 ≤ args.length → ∃ b,
        (∀ args', args'.Perm args →
          apply limit ev (.builtin equal) args' s = .value (.bool b) s) ∧
        (b = true ↔ args.Pairwise fun v w => v.same w = true) := by
  refine ⟨same_comm, fun u v w => same_trans, same_self_iff,
    fun v v' w w' => same_eq_of_rebracketed, fun args hargs => ?_⟩
  obtain ⟨b, hb, hiff⟩ := apply_equal limit ev s hargs
  refine ⟨b, fun args' hperm => ?_, ?_⟩
  · obtain ⟨b', hb', hiff'⟩ := apply_equal limit ev s (hperm.length_eq ▸ hargs)
    rw [hb', Bool.eq_iff_iff.mpr (hiff'.trans ((oneContent_congr hperm).trans hiff.symm))]
  · cases args with
    | nil => cases hargs
    | cons v vs =>
      rw [hiff, pairwise_same_iff (List.length_pos_iff.mp (Nat.le_of_succ_le_succ hargs))]

/-- Zeros of either sign are equal in lists and vectors, and in any order. A list with a NaN in it
differs from itself. -/
theorem apply_equal_iff_pairwise_zero :
    let positive := Value.list [.float 0.0]
    let negative := Value.vector [.float (-0.0)]
    let nan := Value.list [.float (0.0 / 0.0)]
    positive.same positive = true ∧ (Value.list [negative]).same (.list [positive]) = true ∧
      apply none (eval none 0) (.builtin equal) [negative, positive, positive] {} =
        .value (.bool true) {} ∧
      nan.same nan ≠ true := by
  intro positive negative nan
  obtain ⟨-, htrans, hself, hbrackets, hpairs⟩ := apply_equal_iff_pairwise none (eval none 0) {}
  obtain ⟨b, hb, hiff⟩ := hpairs [positive, positive, negative] (by decide)
  obtain rfl := hiff.mpr (by decide +kernel)
  refine ⟨htrans _ negative _ (by decide +kernel) (by decide +kernel), ?_,
    hb _ (List.perm_append_singleton negative [positive, positive]).symm, ?_⟩
  · have hitem : Rebracketed (.list [negative]) (.list [.list [.float (-0.0)]]) :=
      .item .list [] [] (.whole .vector .list _)
    rw [hbrackets _ _ _ _ (.single hitem) .refl]
    decide +kernel
  · rw [ne_eq, hself, not_not]
    exact .item List.mem_cons_self (.float (by decide +kernel))

end Eval

end Lisp
