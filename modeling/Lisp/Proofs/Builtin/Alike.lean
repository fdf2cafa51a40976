import Lisp.Builtin.Run
import Lisp.Proofs.Value.Alike

/-!
# Built-in functions cannot look into closures

Given alike arguments, a built-in function fails with the same error, or it gives alike values.
-/

namespace Lisp

/-- Two results have the same error, or related values. -/
inductive SameResult {ε α β : Type} (V : α → β → Prop) : Except ε α → Except ε β → Prop
  | ok {a : α} {b : β} (h : V a b) : SameResult V (.ok a) (.ok b)
  | error (e : ε) : SameResult V (.error e) (.error e)

namespace SameResult

variable {ε ε' α α' β β' : Type} {V : α → α' → Prop} {W : β → β' → Prop} {x : Except ε α}
  {y : Except ε α'}

theorem bind {f : α → Except ε β} {g : α' → Except ε β'} (h : SameResult V x y)
    (hf : ∀ a b, V a b → SameResult W (f a) (g b)) : SameResult W (x >>= f) (y >>= g) := by
  cases h with
  | ok hab => exact hf _ _ hab
  | error e => exact .error e

theorem map {f : α → β} {g : α' → β'} (h : SameResult V x y) (hf : ∀ a b, V a b → W (f a) (g b)) :
    SameResult W (f <$> x) (g <$> y) := by
  cases h with
  | ok hab => exact .ok (hf _ _ hab)
  | error e => exact .error e

theorem mapError (h : SameResult V x y) (f : ε → ε') :
    SameResult V (x.mapError f) (y.mapError f) := by
  cases h with
  | ok hab => exact .ok hab
  | error e => exact .error (f e)

theorem of_eq {x y : Except ε α} (h : x = y) : SameResult Eq x y := by
  subst h
  cases x with
  | ok a => exact .ok rfl
  | error e => exact .error e

end SameResult

theorem optionRel_or {α β : Type} {R : α → β → Prop} {a c : Option α} {b d : Option β}
    (h : Option.Rel R a b) (h' : Option.Rel R c d) : Option.Rel R (a.or c) (b.or d) := by
  cases h with
  | some hab => exact .some hab
  | none => exact h'

theorem forall₂_getElem? {α β : Type} {R : α → β → Prop} {xs : List α} {ys : List β}
    (h : List.Forall₂ R xs ys) (i : Nat) : Option.Rel R xs[i]? ys[i]? := by
  induction h generalizing i with
  | nil => exact .none
  | cons hxy _ ih =>
    cases i with
    | zero => exact .some hxy
    | succ i => simpa using ih i

open Value (Alike)

variable {r : Sight} {v w : Value} {vs ws : List Value}

namespace Number

theorem ofValue_eq (op : Builtin) (place : Nat) (h : Alike r v w) :
    ofValue op place v = ofValue op place w := by
  cases h with
  | atom a => rfl
  | seq hitems => rfl
  | closure hrole => simp only [ofValue, Value.typeName, hrole]
  | builtin b => rfl

theorem ofValues_eq (op : Builtin) (place : Nat) (h : List.Forall₂ (Alike r) vs ws) :
    ofValues op place vs = ofValues op place ws := by
  induction h generalizing place with
  | nil => rfl
  | cons hv _ ih => simp only [ofValues, ofValue_eq op place hv, ih]

theorem divideBy_eq (op : Builtin) (place : Nat) (acc : Number)
    (h : List.Forall₂ (Alike r) vs ws) : divideBy op place acc vs = divideBy op place acc ws := by
  induction h generalizing place acc with
  | nil => rfl
  | cons hv _ ih => simp only [divideBy, ofValue_eq op place hv, ih]

end Number

theorem Operation.fold_eq (o : Operation) (op : Builtin) (place : Nat) (acc : Number)
    (h : List.Forall₂ (Alike r) vs ws) : o.fold op place acc vs = o.fold op place acc ws := by
  induction h generalizing place acc with
  | nil => rfl
  | cons hv _ ih => simp only [fold, Number.ofValue_eq op place hv, ih]

namespace Builtin

theorem itemsOf_alike (op : Builtin) (h : Alike r v w) :
    SameResult (List.Forall₂ (Alike r)) (itemsOf op v) (itemsOf op w) := by
  cases h with
  | atom a => cases a <;> first | exact .error _ | exact .ok .nil
  | seq hitems => exact .ok hitems
  | closure hrole =>
    simp only [itemsOf, Value.typeName, hrole]
    exact .error _
  | builtin b => exact .error _

theorem concatItems_alike (op : Builtin) (h : List.Forall₂ (Alike r) vs ws) :
    SameResult (List.Forall₂ (Alike r)) (concatItems op vs) (concatItems op ws) := by
  induction h with
  | nil => exact .ok .nil
  | cons hv _ ih =>
    apply (itemsOf_alike op hv).bind
    intro items items' hitems
    apply ih.bind
    intro rest rest' hrest
    exact .ok (List.rel_append hitems hrest)

theorem indexOf_eq (op : Builtin) (h : Alike r v w) : indexOf op v = indexOf op w := by
  have hdisplay := h.display_eq
  cases h with
  | atom a => rfl
  | seq hitems => simp only [indexOf, hdisplay]
  | closure hrole => simp only [indexOf, hdisplay]
  | builtin b => rfl

theorem textOf_eq (op : Builtin) (h : Alike r v w) : textOf op v = textOf op w := by
  cases h with
  | atom a => rfl
  | seq hitems => rfl
  | closure hrole => simp only [textOf, Value.typeName, hrole]
  | builtin b => rfl

theorem lengthOf_eq (op : Builtin) (h : Alike r v w) : lengthOf op v = lengthOf op w := by
  cases h with
  | atom a => rfl
  | seq hitems => exact congrArg Except.ok hitems.length_eq
  | closure hrole => simp only [lengthOf, itemsOf, Value.typeName, hrole]
  | builtin b => rfl

theorem element_alike (op : Builtin) {index index' : Value} {other other' : Option Value}
    (h : Alike r v w) (hindex : Alike r index index') (hother : Option.Rel (Alike r) other other') :
    SameResult (Alike r) (element op v index other) (element op w index' other') := by
  apply (itemsOf_alike op h).bind
  intro items items' hitems
  rw [indexOf_eq op hindex]
  apply (SameResult.of_eq rfl).bind
  rintro i _ rfl
  have hfound := optionRel_or (forall₂_getElem? hitems i) hother
  generalize items[i]?.or other = found, items'[i]?.or other' = found' at hfound
  cases hfound with
  | some hw => exact .ok hw
  | none =>
    rw [hitems.length_eq]
    exact .error _

theorem argument_alike (op : Builtin) (h : List.Forall₂ (Alike r) vs ws) (i : Nat) :
    SameResult (Alike r) (argument op vs i) (argument op ws i) := by
  have hfound := forall₂_getElem? h i
  unfold argument
  generalize vs[i]? = found, ws[i]? = found' at hfound
  cases hfound with
  | some hw => exact .ok hw
  | none => exact .error _

theorem compare_alike (op : Builtin) (c : Comparison) (h : List.Forall₂ (Alike r) vs ws) :
    SameResult (Alike r) (compare op c vs) (compare op c ws) := by
  unfold compare
  rw [Number.ofValues_eq op 1 h]
  apply (SameResult.of_eq rfl).bind
  rintro numbers _ rfl
  exact .ok (.atom _)

theorem all_same_eq (h : Alike r v w) (hs : List.Forall₂ (Alike r) vs ws) :
    vs.all (·.same v) = ws.all (·.same w) := by
  induction hs with
  | nil => rfl
  | cons hx _ ih => simp only [List.all_cons, hx.same_eq h, ih]

theorem shownTexts_eq (h : List.Forall₂ (Alike r) vs ws) :
    (vs.filter fun v => !(v matches .nil)).map Value.plain =
      (ws.filter fun v => !(v matches .nil)).map Value.plain := by
  induction h with
  | nil => rfl
  | cons hv _ ih =>
    have hplain := hv.plain_eq
    cases hv with
    | atom a => cases a <;> simp [ih]
    | _ => simp [ih, hplain]

/-- A function of one argument needs to be looked at for one argument only. -/
theorem compute_alike_of_one (op : Builtin) (hnone : compute op [] = .error (.missingArgument op))
    (hmany : ∀ a b rest, compute op (a :: b :: rest) = .error (.missingArgument op))
    (hone : ∀ v w, Alike r v w → SameResult (Alike r) (compute op [v]) (compute op [w]))
    (h : List.Forall₂ (Alike r) vs ws) : SameResult (Alike r) (compute op vs) (compute op ws) := by
  rcases h with _ | ⟨hv, _ | _⟩
  · rw [hnone]
    exact .error _
  · exact hone _ _ hv
  · rw [hmany, hmany]
    exact .error _

/-- The functions without effects make numbers, truth values, texts and symbols of what shows of
their arguments, pick an element out of an argument, or put elements of arguments together. -/
theorem compute_alike (op : Builtin) (h : List.Forall₂ (Alike r) vs ws) :
    SameResult (Alike r) (compute op vs) (compute op ws) := by
  have hatom (a : Atom) : SameResult (Alike r) (.ok (.atom a) : Except BuiltinError Value)
      (.ok (.atom a)) := .ok (.atom a)
  have hatoms {α : Type} (x : Except BuiltinError α) (f : α → Atom) :
      SameResult (Alike r) ((fun a => Value.atom (f a)) <$> x)
        ((fun a => Value.atom (f a)) <$> x) := by
    apply (SameResult.of_eq rfl).map
    rintro a _ rfl
    exact .atom _
  have hnumber (x : Except BuiltinError Number) :
      SameResult (Alike r) (Number.toValue <$> x) (Number.toValue <$> x) := by
    apply (SameResult.of_eq rfl).map
    rintro n _ rfl
    cases n <;> exact .atom _
  have hnumbers {α : Type} (x : Except BuiltinError α) (f : α → Except BuiltinError Number) :
      SameResult (Alike r) (x >>= fun a => Number.toValue <$> f a)
        (x >>= fun a => Number.toValue <$> f a) := by
    apply (SameResult.of_eq rfl).bind
    rintro a _ rfl
    exact hnumber _
  cases op
  case add =>
    simp only [compute, Operation.fold_eq _ _ _ _ h]
    exact hnumber _
  case mul =>
    simp only [compute, Operation.fold_eq _ _ _ _ h]
    exact hnumber _
  case sub =>
    rcases h with _ | ⟨hv, _ | ⟨hw, hvs⟩⟩
    · exact .error _
    · simp only [compute, Number.ofValue_eq _ _ hv]
      exact hnumbers _ _
    · simp only [compute, Number.ofValue_eq _ _ hv, Operation.fold_eq _ _ _ _ (.cons hw hvs)]
      exact hnumbers _ _
  case div =>
    rcases h with _ | ⟨hv, _ | ⟨hw, hvs⟩⟩
    · exact .error _
    · simp only [compute, Number.divideBy_eq _ _ _ (.cons hv .nil)]
      exact hnumber _
    · simp only [compute, Number.ofValue_eq _ _ hv, Number.divideBy_eq _ _ _ (.cons hw hvs)]
      exact hnumbers _ _
  case inc =>
    refine compute_alike_of_one _ rfl (fun _ _ _ => rfl) (fun v w hv => ?_) h
    simp only [compute, Operation.fold_eq _ _ _ _ (.cons hv .nil)]
    exact hnumber _
  case dec =>
    refine compute_alike_of_one _ rfl (fun _ _ _ => rfl) (fun v w hv => ?_) h
    simp only [compute, Number.ofValue_eq _ _ hv]
    exact hnumbers _ _
  case equal =>
    rcases h with _ | ⟨hv, hvs⟩
    · exact .error _
    · simp only [compute, all_same_eq hv hvs]
      exact hatom _
  case less => exact compare_alike _ _ h
  case greater => exact compare_alike _ _ h
  case lessEq => exact compare_alike _ _ h
  case greaterEq => exact compare_alike _ _ h
  case not =>
    refine compute_alike_of_one _ rfl (fun _ _ _ => rfl) (fun v w hv => ?_) h
    simp only [compute, hv.truthy_eq]
    exact hatom _
  case list => exact .ok (.seq h)
  case vector => exact .ok (.seq h)
  case cons =>
    rcases h with _ | ⟨hv, _ | ⟨hw, _ | _⟩⟩
    · exact .error _
    · exact .error _
    · exact (itemsOf_alike _ hw).bind fun _ _ hitems => .ok (.seq (.cons hv hitems))
    · exact .error _
  case first =>
    refine compute_alike_of_one _ rfl (fun _ _ _ => rfl) (fun v w hv => ?_) h
    apply (itemsOf_alike _ hv).bind
    rintro _ _ (_ | ⟨hitem, _⟩)
    · exact hatom _
    · exact .ok hitem
  case rest =>
    refine compute_alike_of_one _ rfl (fun _ _ _ => rfl) (fun v w hv => ?_) h
    apply (itemsOf_alike _ hv).bind
    rintro _ _ (_ | ⟨_, hitems⟩)
    · exact .ok (.seq .nil)
    · exact .ok (.seq hitems)
  case count =>
    refine compute_alike_of_one _ rfl (fun _ _ _ => rfl) (fun v w hv => ?_) h
    simp only [compute, lengthOf_eq _ hv]
    exact hatoms _ _
  case concat => exact (concatItems_alike _ h).map fun _ _ hitems => .seq hitems
  case nth =>
    rcases h with _ | ⟨hv, _ | ⟨hi, _ | ⟨hw, _ | _⟩⟩⟩
    · exact .error _
    · exact .error _
    · exact element_alike _ hv hi .none
    · exact element_alike _ hv hi (.some hw)
    · exact .error _
  case isNil =>
    refine compute_alike_of_one _ rfl (fun _ _ _ => rfl) (fun v w hv => ?_) h
    cases hv <;> exact hatom _
  case isList =>
    refine compute_alike_of_one _ rfl (fun _ _ _ => rfl) (fun v w hv => ?_) h
    cases hv with
    | @seq b => cases b <;> exact hatom _
    | _ => exact hatom _
  case isSymbol =>
    refine compute_alike_of_one _ rfl (fun _ _ _ => rfl) (fun v w hv => ?_) h
    simp only [compute, hv.symbol?_eq]
    exact hatom _
  case isFunction =>
    refine compute_alike_of_one _ rfl (fun _ _ _ => rfl) (fun v w hv => ?_) h
    simp only [compute, hv.isCallable_eq]
    exact hatom _
  case str =>
    have hstr {a b : String} (hab : a = b) : SameResult (Alike r)
        (.ok (.str a) : Except BuiltinError Value) (.ok (.str b)) := hab ▸ hatom _
    exact hstr (congrArg String.join (shownTexts_eq h))
  case symbol =>
    refine compute_alike_of_one _ rfl (fun _ _ _ => rfl) (fun v w hv => ?_) h
    simp only [compute, textOf_eq _ hv]
    exact hatoms _ _
  all_goals exact .error _

end Builtin

end Lisp
