import Mathlib.Data.List.Forall2
import Lisp.Params

/-!
# Parameter lists and clauses as they are written

A parameter list is written as its names and then, perhaps, `&` and one more name. A clause is written
as its parameter list and its body, in brackets of its own if there are several. What is read as
parameters or clauses is exactly what is written so, and nothing else.
-/

namespace Lisp

theorem bind_eq_ok_iff {ε α β : Type} {x : Except ε α} {f : α → Except ε β} {b : β} :
    x >>= f = .ok b ↔ ∃ a, x = .ok a ∧ f a = .ok b := by
  cases x with
  | ok a => simp [bind, Except.bind]
  | error e => simp [bind, Except.bind]

namespace Params

variable {p : Params} {items : List Value} {v : Value}

/-- No name is `&`, which stands before the last one. -/
structure WellNamed (p : Params) : Prop where
  names : "&" ∉ p.names
  rest : p.rest ≠ some "&"

def toItems (p : Params) : List Value :=
  p.names.map Value.symbol ++
    match p.rest with
    | some name => [.symbol "&", .symbol name]
    | none => []

theorem wellNamed_cons {name : String} {names : List String} {rest : Option String} :
    WellNamed ⟨name :: names, rest⟩ ↔ name ≠ "&" ∧ WellNamed ⟨names, rest⟩ := by
  constructor
  · rintro ⟨hnames, hrest⟩
    rw [List.mem_cons, not_or] at hnames
    exact ⟨Ne.symm hnames.1, hnames.2, hrest⟩
  · rintro ⟨hname, hnames, hrest⟩
    exact ⟨by simpa using ⟨Ne.symm hname, hnames⟩, hrest⟩

theorem ofItems_toItems (h : p.WellNamed) : ofItems p.toItems = .ok p := by
  obtain ⟨names, rest⟩ := p
  induction names with
  | nil =>
    cases rest with
    | none => rfl
    | some name =>
      exact ofItems_last fun heq => h.rest (congrArg some heq)
  | cons name names ih =>
    obtain ⟨hname, h⟩ := wellNamed_cons.mp h
    change ofItems (.symbol name :: toItems ⟨names, rest⟩) = _
    rw [ofItems_name hname, ih h]
    rfl

theorem eq_toItems_of_ofItems (h : ofItems items = .ok p) : items = p.toItems ∧ p.WellNamed := by
  fun_induction ofItems items generalizing p with
  | case1 =>
    cases h
    exact ⟨rfl, nofun, nofun⟩
  | case2 => cases h
  | case3 name hname =>
    cases h
    exact ⟨rfl, nofun, by simpa using hname⟩
  | case4 => cases h
  | case5 name tail hname ih =>
    obtain ⟨q, hq, hp⟩ := bind_eq_ok_iff.mp h
    cases hp
    obtain ⟨rfl, hwell⟩ := ih hq
    exact ⟨rfl, wellNamed_cons.mpr ⟨hname, hwell⟩⟩
  | case6 => cases h

/-- Parameters are read from a list or vector that they are written in. -/
theorem ofValue_eq_ok_iff :
    ofValue v = .ok p ↔ (∃ b, v = .seq b p.toItems) ∧ p.WellNamed := by
  constructor
  · intro h
    unfold ofValue at h
    split at h
    · rename_i items hitems
      obtain ⟨rfl, hwell⟩ := eq_toItems_of_ofItems h
      exact ⟨Value.items?_eq_some hitems, hwell⟩
    · cases h
  · rintro ⟨⟨b, rfl⟩, hwell⟩
    exact ofItems_toItems hwell

end Params

namespace Clause

variable {v : Value} {vs body : List Value} {p : Params} {clause : Clause Value}
  {clauses : List (Clause Value)}

/-- The value is a clause in brackets of its own: its parameter list and then its body. -/
def IsWritten (v : Value) (clause : Clause Value) : Prop :=
  ∃ b params, v = .seq b (params :: clause.body) ∧ Params.ofValue params = .ok clause.params

/-- The value is a list that starts with a list or vector. -/
def StartsClause (v : Value) : Prop := ∃ b items rest, v = .list (.seq b items :: rest)

def toValue (clause : Clause Value) : Value :=
  .list (.vector clause.params.toItems :: clause.body)

theorem opens_iff : opens v = true ↔ StartsClause v := by
  constructor
  · intro h
    unfold opens at h
    split at h
    · exact ⟨_, _, _, rfl⟩
    · cases h
  · rintro ⟨b, items, rest, rfl⟩
    rfl

theorem ofValue_eq_ok_iff : ofValue v = .ok clause ↔ IsWritten v clause := by
  constructor
  · intro h
    unfold ofValue at h
    split at h
    · cases h
    · cases h
    · rename_i params body hitems
      obtain ⟨p, hp, hclause⟩ := bind_eq_ok_iff.mp h
      cases hclause
      obtain ⟨b, rfl⟩ := Value.items?_eq_some hitems
      exact ⟨b, params, rfl, hp⟩
  · rintro ⟨b, params, rfl, hparams⟩
    change (do return ⟨← Params.ofValue params, clause.body⟩) = Except.ok clause
    rw [hparams]
    rfl

theorem ofValues_eq_ok_iff : ofValues vs = .ok clauses ↔ List.Forall₂ IsWritten vs clauses := by
  induction vs generalizing clauses with
  | nil =>
    rw [List.forall₂_nil_left_iff]
    exact ⟨fun h => by cases h; rfl, fun h => by rw [h]; rfl⟩
  | cons v vs ih =>
    rw [List.forall₂_cons_left_iff]
    constructor
    · intro h
      obtain ⟨c, hc, h⟩ := bind_eq_ok_iff.mp h
      obtain ⟨cs, hcs, h⟩ := bind_eq_ok_iff.mp h
      cases h
      exact ⟨c, cs, ofValue_eq_ok_iff.mp hc, ih.mp hcs, rfl⟩
    · rintro ⟨c, cs, hc, hcs, rfl⟩
      exact bind_eq_ok_iff.mpr ⟨c, ofValue_eq_ok_iff.mpr hc, bind_eq_ok_iff.mpr ⟨cs, ih.mpr hcs, rfl⟩⟩

/-- Clauses are read from the parameters and the body of one, or from several in brackets. -/
theorem parse_eq_ok_iff : parse vs = .ok clauses ↔
    (∃ params body p, vs = params :: body ∧ ¬StartsClause params ∧
      Params.ofValue params = .ok p ∧ clauses = [⟨p, body⟩]) ∨
    (∃ first others, vs = first :: others ∧ StartsClause first ∧
      List.Forall₂ IsWritten vs clauses) := by
  cases vs with
  | nil => simp [parse]
  | cons v vs =>
    rw [parse]
    by_cases hopens : opens v = true
    · rw [if_pos hopens, ofValues_eq_ok_iff]
      have hstarts := opens_iff.mp hopens
      constructor
      · exact fun h => Or.inr ⟨v, vs, rfl, hstarts, h⟩
      · rintro (⟨_, _, _, ⟨⟩, hno, -⟩ | ⟨_, _, -, -, h⟩)
        · exact absurd hstarts hno
        · exact h
    · rw [if_neg hopens]
      have hstarts : ¬StartsClause v := fun h => hopens (opens_iff.mpr h)
      constructor
      · intro h
        obtain ⟨p, hp, hclauses⟩ := bind_eq_ok_iff.mp h
        cases hclauses
        exact Or.inl ⟨v, vs, p, rfl, hstarts, hp, rfl⟩
      · rintro (⟨_, _, p, ⟨⟩, -, hp, rfl⟩ | ⟨_, _, ⟨⟩, hyes, -⟩)
        · exact bind_eq_ok_iff.mpr ⟨p, hp, rfl⟩
        · exact absurd hyes hstarts

theorem not_startsClause_toItems (b : Bracket) (p : Params) : ¬StartsClause (.seq b p.toItems) := by
  rintro ⟨b', items, rest, h⟩
  obtain ⟨names, last⟩ := p
  cases names <;> cases last <;> simp [Params.toItems] at h

theorem isWritten_seq (b b' : Bracket) (hp : p.WellNamed) (body : List Value) :
    IsWritten (.seq b (.seq b' p.toItems :: body)) ⟨p, body⟩ :=
  ⟨b, _, rfl, Params.ofValue_eq_ok_iff.mpr ⟨⟨b', rfl⟩, hp⟩⟩

/-- Clauses are read back from what they are written as. -/
theorem parse_map_toValue (hne : clauses ≠ []) (h : ∀ clause ∈ clauses, clause.params.WellNamed) :
    parse (clauses.map toValue) = .ok clauses := by
  obtain ⟨clause, rest, rfl⟩ := List.exists_cons_of_ne_nil hne
  refine parse_eq_ok_iff.mpr (Or.inr ⟨_, _, rfl, ⟨_, _, _, rfl⟩, ?_⟩)
  rw [List.forall₂_map_left_iff, List.forall₂_same]
  exact fun c hc => isWritten_seq .list .vector (h c hc) c.body

theorem parse_single (b : Bracket) (hp : p.WellNamed) (body : List Value) :
    parse (.seq b p.toItems :: body) = .ok [⟨p, body⟩] ∧
      parse [.list (.seq b p.toItems :: body)] = .ok [⟨p, body⟩] := by
  have hread := Params.ofValue_eq_ok_iff.mpr ⟨⟨b, rfl⟩, hp⟩
  constructor
  · exact parse_eq_ok_iff.mpr (Or.inl ⟨_, _, p, rfl, not_startsClause_toItems b p, hread, rfl⟩)
  · refine parse_eq_ok_iff.mpr (Or.inr ⟨_, _, rfl, ⟨_, _, _, rfl⟩, ?_⟩)
    exact .cons (isWritten_seq .list b hp body) .nil

/-- Parameters are read from a list or vector of names, none of them `&`, and perhaps of `&` and one
more name at the end, and from nothing else. Clauses are read from the parameters and the body of one,
or from several clauses in brackets if the first item starts one, and from nothing else. So clauses
are read back from what they are written as, and one clause with or without its brackets. -/
theorem parse_iff_written :
    (∀ v p, Params.ofValue v = .ok p ↔ (∃ b, v = .seq b p.toItems) ∧ p.WellNamed) ∧
    (∀ vs clauses, parse vs = .ok clauses ↔
      (∃ params body p, vs = params :: body ∧ ¬StartsClause params ∧
        Params.ofValue params = .ok p ∧ clauses = [⟨p, body⟩]) ∨
      (∃ first others, vs = first :: others ∧ StartsClause first ∧
        List.Forall₂ IsWritten vs clauses)) ∧
    (∀ clauses : List (Clause Value), clauses ≠ [] →
      (∀ clause ∈ clauses, clause.params.WellNamed) →
      parse (clauses.map toValue) = .ok clauses) ∧
    (∀ b p body, p.WellNamed → parse (.seq b p.toItems :: body) = .ok [⟨p, body⟩] ∧
      parse [.list (.seq b p.toItems :: body)] = .ok [⟨p, body⟩]) :=
  ⟨fun _ _ => Params.ofValue_eq_ok_iff, fun _ _ => parse_eq_ok_iff,
    fun _ hne h => parse_map_toValue hne h, fun b _ body hp => parse_single b hp body⟩

/-- Two clauses, the first of them with a name after `&`, and one clause whose body starts like a
clause, in brackets and without them. -/
theorem parse_iff_written_rest :
    parse [.list [.vector [.symbol "a", .symbol "&", .symbol "more"], .symbol "a"],
        .list [.vector [], .int 1]] =
      .ok [⟨⟨["a"], some "more"⟩, [.symbol "a"]⟩, ⟨⟨[], none⟩, [.int 1]⟩] ∧
    parse [.list [.symbol "f"], .list [.vector [], .int 1]] =
      .ok [⟨⟨["f"], none⟩, [.list [.vector [], .int 1]]⟩] ∧
    parse [.list [.list [.symbol "f"], .list [.vector [], .int 1]]] =
      .ok [⟨⟨["f"], none⟩, [.list [.vector [], .int 1]]⟩] := by
  obtain ⟨-, -, hseveral, hsingle⟩ := parse_iff_written
  have hrest : Params.WellNamed ⟨["a"], some "more"⟩ := ⟨by decide, by decide⟩
  have hnone : Params.WellNamed ⟨[], none⟩ := ⟨by decide, by decide⟩
  constructor
  · refine hseveral [⟨⟨["a"], some "more"⟩, [.symbol "a"]⟩, ⟨⟨[], none⟩, [.int 1]⟩] nofun ?_
    rintro clause (_ | ⟨_, _ | ⟨_, ⟨⟩⟩⟩)
    · exact hrest
    · exact hnone
  · exact hsingle .list ⟨["f"], none⟩ [.list [.vector [], .int 1]] ⟨by decide, by decide⟩

end Clause

end Lisp
