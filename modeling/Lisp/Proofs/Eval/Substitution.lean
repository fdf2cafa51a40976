import Lisp.Proofs.Eval.Draws
import Lisp.Proofs.Eval.Holes
import Mathlib.Data.List.Nodup

/-!
# Templates are filled all at once

Filling a template in one pass comes to the same as two passes, one that meets its holes and one that
substitutes what was found. The names that are substituted were all generated in the first pass, one
for each symbol.
-/

namespace Lisp

namespace Eval

variable {α : Type} {ev : Evaluator} {env : Env Value} {names names' : Renaming} {hole : Hole}
  {holes : List Hole} {values : List Value} {s t : State}

mutual

/-- Only the holes of a template are replaced. -/
theorem substitute_congr {σ τ : String → String} (values : List Value) (v : Value)
    (h : ∀ x base hx, .name x base hx ∈ v.holes → σ x = τ x) :
    v.substitute σ values = v.substitute τ values := by
  cases v with
  | atom a =>
    cases a with
    | symbol name =>
      cases hauto : autoBase? name with
      | none => simp [Value.substitute, hauto]
      | some base =>
        have hmem : .name name base hauto ∈ (Value.symbol name).holes := by
          simp [Value.holes, Hole.ofSymbol?_of_some hauto]
        simp [Value.substitute, hauto, h name base hauto hmem]
    | _ => rfl
  | seq b items =>
    have hitems : (∀ x base hx, .name x base hx ∈ Value.holesOfItems items → σ x = τ x) →
        Value.substituteItems σ values items = Value.substituteItems τ values items :=
      substituteItems_congr values items
    cases b with
    | list =>
      simp only [Value.holes] at h
      simp only [Value.substitute]
      grind
    | vector =>
      simp only [Value.holes] at h
      simp only [Value.substitute, hitems h]
  | closure c => rfl
  | builtin b => rfl

theorem substituteItems_congr {σ τ : String → String} (values : List Value) (items : List Value)
    (h : ∀ x base hx, .name x base hx ∈ Value.holesOfItems items → σ x = τ x) :
    Value.substituteItems σ values items = Value.substituteItems τ values items := by
  cases items with
  | nil => rfl
  | cons item rest =>
    simp only [Value.holesOfItems] at h
    simp only [Value.substituteItems]
    cases hsplice : spliceList? item with
    | some items =>
      simp only [hsplice] at h
      simp only
      rw [substituteItems_congr values.tail rest fun x base hx hmem => h x base hx (by simp [hmem])]
    | none =>
      simp only [hsplice] at h
      simp only
      rw [substitute_congr _ item fun x base hx hmem => h x base hx (by simp [hmem]),
        substituteItems_congr _ rest fun x base hx hmem => h x base hx (by simp [hmem])]

end

theorem rename_eq (ev : Evaluator) (env : Env Value) {base symbol : String}
    (h : autoBase? symbol = some base) :
    rename base symbol names = do
      let r ← answer ev env names (.name symbol base h)
      return (r.2.apply symbol, r.2) := by
  cases hknown : names.lookup symbol with
  | some fresh => simp [rename, answer, hknown, Renaming.apply]
  | none => simp [rename, answer, hknown, Renaming.apply]

theorem unquote_eq (items : List Value) :
    (do
      let form ← operand .unquote items
      return (← ev env form, names)) = (do
      let r ← answer ev env names (.ofMarked .unquote .value items)
      return (r.1.headD .nil, r.2)) := by
  rcases items with _ | ⟨mark, _ | ⟨form, _ | ⟨more, rest⟩⟩⟩ <;>
    simp only [operand, Hole.ofMarked, answer, fail_bind, pure_bind, bind_assoc]
  rfl

theorem splice_eq (items : List Value) (go : List Value → Renaming → Eval α) :
    (do
      let form ← operand .splice items
      let now ← spliced (← ev env form)
      go now names) = (do
      let r ← answer ev env names (.ofMarked .splice .splice items)
      go (r.1.headD .nil).elements r.2) := by
  rcases items with _ | ⟨mark, _ | ⟨form, _ | ⟨more, rest⟩⟩⟩ <;>
    simp only [operand, Hole.ofMarked, answer, fail_bind, pure_bind, bind_assoc]
  congr 1
  funext v
  rcases v with (_ | _ | _ | _ | _ | _) | _ | _ | _ <;> rfl

theorem length_of_answer_splice {items : List Value}
    (h : answer ev env names (.ofMarked .splice .splice items) s = .value (values, names') t) :
    values.length = 1 := by
  obtain ⟨form, hform⟩ | ⟨cause, hcause⟩ := Hole.ofMarked_eq .splice .splice items
  · rw [hform] at h
    exact (answer_eq_value h).2.2
  · rw [hcause] at h
    cases h

theorem substituteItems_of_splice {item : Value} {items : List Value}
    (hsplice : spliceList? item = some items) (σ : String → String) {values : List Value}
    (hlength : values.length = 1) (later rest : List Value) :
    Value.substituteItems σ (values ++ later) (item :: rest) =
      (values.headD .nil).elements ++ Value.substituteItems σ later rest := by
  obtain ⟨v, rfl⟩ := List.length_eq_one_iff.1 hlength
  simp [Value.substituteItems, hsplice]

theorem substituteItems_of_none {item : Value} (hsplice : spliceList? item = none)
    (σ : String → String) {values : List Value} (hlength : values.length = item.operandCount)
    (later rest : List Value) :
    Value.substituteItems σ (values ++ later) (item :: rest) =
      item.substitute σ values :: Value.substituteItems σ later rest := by
  simp [Value.substituteItems, hsplice, ← hlength]

mutual

/-- One pass over a template does what the two passes do. -/
theorem fill_eq (ev : Evaluator) (env : Env Value) (names : Renaming) (v : Value) :
    fill ev env names v = do
      let r ← answerAll ev env names v.holes
      return (v.substitute r.2.apply r.1, r.2) := by
  cases v with
  | atom a =>
    cases a with
    | symbol name =>
      cases hauto : autoBase? name with
      | none =>
        simp only [fill, Value.holes, Value.substitute, hauto, Hole.ofSymbol?_of_none hauto]
        rfl
      | some base =>
        simp only [fill, Value.holes, Value.substitute, hauto, Hole.ofSymbol?_of_some hauto,
          rename_eq ev env hauto, Option.toList, answerAll_cons, answerAll_nil, bind_assoc, pure_bind]
        rfl
    | _ => rfl
  | seq b items =>
    cases b with
    | list =>
      simp only [fill, Value.holes, Value.substitute]
      split
      · rw [unquote_eq]
        simp
      · split
        · rfl
        · split
          · simp_all
          · simp_all [fillItems_eq ev env names items]
    | vector => simp [fill, Value.holes, Value.substitute, fillItems_eq ev env names items]
  | closure c => rfl
  | builtin b => rfl

theorem fillItems_eq (ev : Evaluator) (env : Env Value) (names : Renaming) (items : List Value) :
    fillItems ev env names items = do
      let r ← answerAll ev env names (Value.holesOfItems items)
      return (Value.substituteItems r.2.apply r.1 items, r.2) := by
  cases items with
  | nil => rfl
  | cons item rest =>
    simp only [fillItems, Value.holesOfItems]
    cases hsplice : spliceList? item with
    | some marked =>
      simp only [splice_eq marked fun now names => do
        let r ← fillItems ev env names rest
        return (now ++ r.1, r.2)]
      simp only [fillItems_eq ev env _ rest, answerAll_cons, bind_assoc, pure_bind]
      funext s
      apply bind_congr_of_value
      rintro ⟨now, names₁⟩ t hnow
      apply bind_congr_of_value
      rintro ⟨later, names₂⟩ u -
      rw [substituteItems_of_splice hsplice _ (length_of_answer_splice hnow)]
    | none =>
      simp only [fill_eq ev env names item, fillItems_eq ev env _ rest, answerAll_append, bind_assoc,
        pure_bind]
      funext s
      apply bind_congr_of_value
      rintro ⟨now, names₁⟩ t hnow
      apply bind_congr_of_value
      rintro ⟨later, names₂⟩ u hlater
      obtain ⟨-, hmet, hcount⟩ := answerAll_eq_value hnow
      -- The names that the first element needed are still the same at the end.
      have hsame : ∀ x base hx, .name x base hx ∈ item.holes → names₁.apply x = names₂.apply x := by
        intro x base hx hmem
        obtain ⟨fresh, hfresh⟩ := Option.isSome_iff_exists.1 (hmet x base hx hmem)
        simp [Renaming.apply, hfresh, (answerAll_eq_value hlater).1 x fresh hfresh]
      rw [substituteItems_of_none hsplice _ hcount, substitute_congr now item hsame]

end

theorem template_eq (ev : Evaluator) (env : Env Value) (v : Value) :
    template ev env v = do
      let r ← answerAll ev env [] v.holes
      return v.substitute r.2.apply r.1 := by
  simp [template, fill_eq]

mutual

theorem substitute_of_holes_eq_nil (σ : String → String) (values : List Value) (v : Value)
    (h : v.holes = []) : v.substitute σ values = v := by
  cases v with
  | atom a =>
    cases a with
    | symbol name =>
      cases hauto : autoBase? name with
      | none => simp [Value.substitute, hauto]
      | some base => simp [Value.holes, Hole.ofSymbol?_of_some hauto] at h
    | _ => rfl
  | seq b items =>
    cases b with
    | list =>
      simp only [Value.holes] at h
      simp only [Value.substitute]
      split at h
      · cases h
      · split at h
        · cases h
        · split at h
          · simp_all
          · simp_all [substituteItems_of_holesOfItems_eq_nil σ values items h]
    | vector =>
      simp only [Value.holes] at h
      simp only [Value.substitute, substituteItems_of_holesOfItems_eq_nil σ values items h]
  | closure c => rfl
  | builtin b => rfl

theorem substituteItems_of_holesOfItems_eq_nil (σ : String → String) (values items : List Value)
    (h : Value.holesOfItems items = []) : Value.substituteItems σ values items = items := by
  cases items with
  | nil => rfl
  | cons item rest =>
    simp only [Value.holesOfItems] at h
    cases hsplice : spliceList? item with
    | some marked => simp [hsplice] at h
    | none =>
      simp only [hsplice, List.append_eq_nil_iff] at h
      simp only [Value.substituteItems, hsplice]
      rw [substitute_of_holes_eq_nil σ _ item h.1,
        substituteItems_of_holesOfItems_eq_nil σ _ rest h.2]

end

end Eval

theorem Renaming.mem_of_lookup {names : Renaming} {x fresh : String}
    (h : names.lookup x = some fresh) : (x, fresh) ∈ names := by
  obtain ⟨before, after, rfl, -⟩ := List.lookup_eq_some_iff.1 h
  simp

/-- Each symbol has a generated name with a number from `n` on and below `m`, and no two names are the
same. -/
structure Renaming.IsFresh (names : Renaming) (n m : Nat) : Prop where
  le : n ≤ m
  generated : ∀ p ∈ names, ∃ base k, autoBase? p.1 = some base ∧ n ≤ k ∧ k < m ∧
    p.2 = generatedName base k
  distinct : (names.map Prod.snd).Nodup

namespace Renaming.IsFresh

variable {names : Renaming} {n m m' : Nat}

theorem nil (n : Nat) : IsFresh [] n n := ⟨Nat.le_refl n, nofun, List.nodup_nil⟩

theorem mono (h : names.IsFresh n m) (hm : m ≤ m') : names.IsFresh n m' where
  le := Nat.le_trans h.le hm
  generated p hp := by
    obtain ⟨base, k, hbase, hnk, hkm, hname⟩ := h.generated p hp
    exact ⟨base, k, hbase, hnk, Nat.lt_of_lt_of_le hkm hm, hname⟩
  distinct := h.distinct

theorem cons (h : names.IsFresh n m) {symbol base : String} (hbase : autoBase? symbol = some base) :
    Renaming.IsFresh ((symbol, generatedName base m) :: names) n (m + 1) where
  le := Nat.le_succ_of_le h.le
  generated p hp := by
    rcases List.mem_cons.1 hp with rfl | hold
    · exact ⟨base, m, hbase, h.le, Nat.lt_succ_self m, rfl⟩
    · exact (h.mono (Nat.le_succ m)).generated p hold
  distinct := by
    refine List.nodup_cons.2 ⟨fun hmem => ?_, h.distinct⟩
    obtain ⟨p, hp, heq⟩ := List.mem_map.1 hmem
    obtain ⟨base', k, -, -, hkm, hname⟩ := h.generated p hp
    exact Nat.ne_of_lt hkm (generatedName_inj (hname.symm.trans heq))

/-- Different symbols get different names. -/
theorem lookup_inj (h : names.IsFresh n m) {x y fresh : String}
    (hx : names.lookup x = some fresh) (hy : names.lookup y = some fresh) : x = y := by
  have hpair := List.inj_on_of_nodup_map h.distinct (mem_of_lookup hx) (mem_of_lookup hy) rfl
  exact congrArg Prod.fst hpair

end Renaming.IsFresh

namespace Eval

variable {ev : Evaluator} {env : Env Value} {names names' : Renaming} {hole : Hole}
  {holes : List Hole} {values : List Value} {s t : State} {n : Nat}

theorem IsDrawing.drawn_le {α : Type} {x : Eval α} {a : α} (hx : IsDrawing x)
    (h : x s = .value a t) : s.drawn ≤ t.drawn := by
  obtain ⟨drawn, hdrawn⟩ := hx s
  have hnumbers := hdrawn.numbers
  rw [h] at hnumbers
  exact Nat.le.intro hnumbers.length_eq.symm

theorem isFresh_answer (hev : ∀ form, IsDrawing (ev env form))
    (h : answer ev env names hole s = .value (values, names') t)
    (hfresh : names.IsFresh n s.drawn) : names'.IsFresh n t.drawn := by
  cases hole with
  | name symbol base hsymbol =>
    cases hknown : names.lookup symbol with
    | some fresh =>
      simp only [answer, hknown] at h
      cases h
      exact hfresh
    | none =>
      simp only [answer, hknown] at h
      obtain ⟨fresh, u, hdraw, hpair⟩ := bind_eq_value_iff.1 h
      cases hdraw
      cases hpair
      exact hfresh.cons hsymbol
  | value form =>
    obtain ⟨v, u, hv, hpair⟩ := bind_eq_value_iff.1 h
    cases hpair
    exact hfresh.mono ((hev form).drawn_le hv)
  | splice form =>
    obtain ⟨v, u, hv, hpair⟩ := bind_eq_value_iff.1 h
    split at hpair
    · cases hpair
      exact hfresh.mono ((hev form).drawn_le hv)
    · cases hpair
      exact hfresh.mono ((hev form).drawn_le hv)
    · cases hpair
  | broken cause => cases h

theorem isFresh_answerAll (hev : ∀ form, IsDrawing (ev env form))
    (h : answerAll ev env names holes s = .value (values, names') t)
    (hfresh : names.IsFresh n s.drawn) : names'.IsFresh n t.drawn := by
  induction holes generalizing names values s with
  | nil =>
    cases h
    exact hfresh
  | cons hole holes ih =>
    obtain ⟨r, u, hnow, hrest⟩ := bind_eq_value_iff.1 h
    obtain ⟨r', u', hlater, hpair⟩ := bind_eq_value_iff.1 hrest
    cases hpair
    exact ih hlater (isFresh_answer hev hnow hfresh)

/-- Filling a template is one substitution, made with values and names that were found before: the
holes were met from left to right, each operand was evaluated once, in the given environment, and the
symbols go one to one to names that were generated on the way. It fails where the first hole does,
and no later hole is met. A template without holes stands for itself. -/
theorem template_eq_substitute (l : Option Nat) (fuel : Nat) (env : Env Value) (v : Value) :
    (template (eval l fuel) env v = do
      let (values, names) ← answerAll (eval l fuel) env [] v.holes
      return v.substitute names.apply values) ∧
    (∀ s values names t, answerAll (eval l fuel) env [] v.holes s = .value (values, names) t →
      values.length = v.operandCount ∧
      (∀ x base hx, .name x base hx ∈ v.holes →
        ∃ k, s.drawn ≤ k ∧ k < t.drawn ∧ names.apply x = generatedName base k) ∧
      ∀ x base hx y base' hy, .name x base hx ∈ v.holes → .name y base' hy ∈ v.holes →
        names.apply x = names.apply y → x = y) ∧
    (∀ s e t, template (eval l fuel) env v s = .fault e t ↔
      ∃ before hole after values names u, v.holes = before ++ hole :: after ∧
        answerAll (eval l fuel) env [] before s = .value (values, names) u ∧
        answer (eval l fuel) env names hole u = .fault e t) ∧
    (v.holes = [] → ∀ s, template (eval l fuel) env v s = .value v s) := by
  refine ⟨template_eq _ env v, ?_, ?_, ?_⟩
  · intro s values names t h
    obtain ⟨-, hmet, hcount⟩ := answerAll_eq_value h
    have hfresh : names.IsFresh s.drawn t.drawn :=
      isFresh_answerAll (isDrawing_eval l fuel env) h (.nil s.drawn)
    have hname : ∀ x base hx, .name x base hx ∈ v.holes →
        names.lookup x = some (names.apply x) := by
      intro x base hx hmem
      obtain ⟨fresh, hlookup⟩ := Option.isSome_iff_exists.1 (hmet x base hx hmem)
      simp [Renaming.apply, hlookup]
    refine ⟨hcount, fun x base hx hmem => ?_, fun x base hx y base' hy hxmem hymem heq => ?_⟩
    · obtain ⟨base', k, hbase', hk, hkt, hgenerated⟩ :=
        hfresh.generated _ (Renaming.mem_of_lookup (hname x base hx hmem))
      cases hx.symm.trans hbase'
      exact ⟨k, hk, hkt, hgenerated⟩
    · exact hfresh.lookup_inj (hname x base hx hxmem) (heq ▸ hname y base' hy hymem)
  · intro s e t
    rw [template_eq, bind_eq_fault_iff, ← answerAll_eq_fault_iff]
    simp [pure, Eval.pure]
  · intro h s
    rw [template_eq, h]
    exact congrArg (Outcome.value · s) (substitute_of_holes_eq_nil _ [] v h)

/-- The second operand sees the definition that the first one makes, a symbol that comes twice gets
one name, and what is no hole stays. -/
theorem template_eq_substitute_mixed :
    let v : Value := .vector [.symbol "a#",
      .list [.symbol "unquote", .list [.symbol "def", .symbol "x", .int 1]],
      .list [.symbol "unquote-splicing", .vector [.symbol "x", .symbol "x"]],
      .list [.symbol "b#", .symbol "a#"], .list [.symbol "syntax-quote", .symbol "a#"]]
    let fixed : Value := .vector [.symbol "unquote", .list [.symbol "syntax-quote", .symbol "a#"]]
    let names : Renaming := [("b#", generatedName "b" 1), ("a#", generatedName "a" 0)]
    (∃ t, answerAll (eval none 3) .empty [] v.holes {} =
        .value ([.int 1, .vector [.int 1, .int 1]], names) t ∧
      template (eval none 3) .empty v {} = .value (.vector [.symbol (generatedName "a" 0), .int 1,
        .int 1, .int 1, .list [.symbol (generatedName "b" 1), .symbol (generatedName "a" 0)],
        .list [.symbol "syntax-quote", .symbol "a#"]]) t ∧
      ∃ k, 0 ≤ k ∧ k < t.drawn ∧ names.apply "a#" = generatedName "a" k) ∧
    fixed.holes = [] ∧ template (eval none 3) .empty fixed {} = .value fixed {} := by
  intro v fixed names
  obtain ⟨htwo, hnames, -, -⟩ := template_eq_substitute none 3 .empty v
  have hanswers : answerAll (eval none 3) .empty [] v.holes {} =
      .value ([.int 1, .vector [.int 1, .int 1]], names)
        { registry := ({} : Registry).define "x" (.int 1), drawn := 2 } := rfl
  have hmem : .name "a#" "a" rfl ∈ v.holes := .head _
  refine ⟨⟨_, hanswers, ?_, (hnames _ _ _ _ hanswers).2.1 "a#" "a" rfl hmem⟩, rfl, ?_⟩
  · rw [htwo, bind_of_value hanswers]
    rfl
  · exact (template_eq_substitute none 3 .empty fixed).2.2.2 rfl {}

end Eval

end Lisp
