import Lisp.Eval.Basic
import Lisp.Proofs.Clause.Choice

/-!
# Views of an environment

What a name means, the list of all bindings and the number of frames are three walks over the same
chain of frames: look-up goes outward and stops at the first binding, the list begins with the
outermost frame. They agree, in whatever order a frame lists its own bindings. Environments are
values: a binding that is set in one of them shows in no other.
-/

namespace Lisp

variable {α : Type}

theorem lookup_cons_ite (k j : String) (a : α) (rest : List (String × α)) :
    ((j, a) :: rest).lookup k = if k = j then some a else rest.lookup k := by
  by_cases h : k = j <;> simp [List.lookup_cons, h, beq_eq_false_iff_ne.2]

namespace Frame

variable {f : Frame α} {name : String} {a : α} {listed sorted : List (String × α)}

/-- The bindings in force in a frame, each name once, in some order. -/
structure Lists (f : Frame α) (listed : List (String × α)) : Prop where
  nodup : (listed.map Prod.fst).Nodup
  mem_iff : ∀ name a, (name, a) ∈ listed ↔ f.get? name = some a

theorem mem_keys_insertSorted {k : String} :
    k ∈ (insertSorted name a sorted).map Prod.fst ↔ k = name ∨ k ∈ sorted.map Prod.fst := by
  induction sorted with
  | nil => simp [insertSorted]
  | cons b rest ih =>
    obtain ⟨j, c⟩ := b
    rw [insertSorted]
    split
    · simp
    · split
      · rename_i hname
        simp [hname]
      · rw [List.map_cons, List.mem_cons, ih, List.map_cons, List.mem_cons, or_left_comm]

/-- Names stay in strict order, so that none of them comes twice. -/
theorem pairwise_insertSorted (h : (sorted.map Prod.fst).Pairwise (· < ·)) :
    ((insertSorted name a sorted).map Prod.fst).Pairwise (· < ·) := by
  induction sorted with
  | nil => simp [insertSorted]
  | cons b rest ih =>
    obtain ⟨j, c⟩ := b
    rw [List.map_cons, List.pairwise_cons] at h
    rw [insertSorted]
    split
    · rename_i hlt
      refine List.pairwise_cons.mpr ⟨fun k hk => ?_, List.pairwise_cons.mpr h⟩
      rcases List.mem_cons.mp hk with rfl | hk
      · exact hlt
      · exact String.lt_trans hlt (h.1 k hk)
    · rename_i hnlt
      split
      · rename_i hname
        exact List.pairwise_cons.mpr ⟨fun k hk => hname ▸ h.1 k hk, h.2⟩
      · rename_i hname
        have hgt : j < name :=
          String.not_le.mp fun hle => hname (String.le_antisymm hle (String.not_lt.mp hnlt))
        refine List.pairwise_cons.mpr ⟨fun k hk => ?_, ih h.2⟩
        rcases mem_keys_insertSorted.mp hk with rfl | hk
        · exact hgt
        · exact h.1 k hk

theorem lookup_insertSorted (k : String) (sorted : List (String × α)) :
    (insertSorted name a sorted).lookup k = if k = name then some a else sorted.lookup k := by
  induction sorted with
  | nil => rw [insertSorted, lookup_cons_ite]
  | cons b rest ih =>
    obtain ⟨j, c⟩ := b
    rw [insertSorted]
    split
    · rw [lookup_cons_ite]
    · split
      · rename_i hname
        subst hname
        by_cases hk : k = name <;> simp [lookup_cons_ite, hk]
      · rename_i hname
        rw [lookup_cons_ite, lookup_cons_ite, ih]
        by_cases hk : k = name
        · simp [hk, hname]
        · simp [hk]

theorem pairwise_entries (f : Frame α) : (f.entries.map Prod.fst).Pairwise (· < ·) := by
  obtain ⟨bindings⟩ := f
  induction bindings with
  | nil => exact .nil
  | cons b bindings ih => exact pairwise_insertSorted ih

theorem lookup_entries (f : Frame α) (name : String) : f.entries.lookup name = f.get? name := by
  obtain ⟨bindings⟩ := f
  induction bindings with
  | nil => rfl
  | cons b bindings ih =>
    obtain ⟨j, c⟩ := b
    change (insertSorted j c (entries ⟨bindings⟩)).lookup name = ((j, c) :: bindings).lookup name
    rw [lookup_insertSorted, lookup_cons_ite, ih, get?]

/-- In a list where no name comes twice, every binding is found. -/
theorem mem_iff_lookup_of_nodup (h : (listed.map Prod.fst).Nodup) :
    (name, a) ∈ listed ↔ listed.lookup name = some a := by
  induction listed with
  | nil => simp
  | cons b rest ih =>
    obtain ⟨j, c⟩ := b
    obtain ⟨hj, hrest⟩ := List.nodup_cons.mp h
    rw [List.mem_cons, lookup_cons_ite, ih hrest]
    by_cases hname : name = j
    · have hnone : rest.lookup name ≠ some a := fun hfound =>
        hj (List.mem_map.mpr ⟨_, (ih hrest).mpr hfound, hname⟩)
      subst hname
      simp [hnone, eq_comm]
    · simp [hname]

theorem lists_entries (f : Frame α) : f.Lists f.entries := by
  have hnodup : (f.entries.map Prod.fst).Nodup :=
    (pairwise_entries f).imp fun h => String.ne_of_lt h
  refine ⟨hnodup, fun name a => ?_⟩
  rw [mem_iff_lookup_of_nodup hnodup, lookup_entries]

/-- Where each name comes once, the order does not matter. -/
theorem Lists.lookup_reverse (h : f.Lists listed) (name : String) :
    listed.reverse.lookup name = f.get? name := by
  have hnodup : (listed.reverse.map Prod.fst).Nodup :=
    ((List.reverse_perm listed).map Prod.fst).nodup_iff.mpr h.nodup
  ext a
  rw [← mem_iff_lookup_of_nodup hnodup, List.mem_reverse, h.mem_iff]

end Frame

namespace Env

variable {e : Env α} {listed : List (String × α)}

/-- The bindings of all frames, each frame in some order of its own, those of the outermost frame
first. -/
def Lists (e : Env α) (listed : List (String × α)) : Prop :=
  ∃ parts, List.Forall₂ Frame.Lists e.frames parts ∧ listed = parts.reverse.flatten

theorem lists_flatten (e : Env α) : e.Lists e.flatten := by
  refine ⟨e.frames.map Frame.entries, ?_, ?_⟩
  · rw [List.forall₂_map_right_iff, List.forall₂_same]
    exact fun f _ => f.lists_entries
  · rw [flatten, List.flatMap, List.map_reverse]

/-- The first frame with a binding, from the inside, has the last binding of the list. -/
theorem lookup_reverse_of_frames {frames : List (Frame α)} {parts : List (List (String × α))}
    (h : List.Forall₂ Frame.Lists frames parts) (name : String) :
    parts.reverse.flatten.reverse.lookup name = frames.findSome? (·.get? name) := by
  induction h with
  | nil => rfl
  | cons hf _ ih =>
    -- the frame of this step is the innermost one, whose bindings end the list
    rw [List.reverse_cons, List.flatten_append, List.reverse_append, List.lookup_append, ih,
      List.flatten_singleton, hf.lookup_reverse, List.findSome?_cons]
    cases Frame.get? _ name <;> rfl

theorem Lists.lookup_reverse (h : e.Lists listed) (name : String) :
    listed.reverse.lookup name = e.get? name := by
  obtain ⟨parts, hparts, rfl⟩ := h
  exact lookup_reverse_of_frames hparts name

/-- What a program can do with the environments that it holds, each under its number. -/
inductive Move (α : Type) where
  | child (i : Nat)
  | copy (i : Nat)
  | set (i : Nat) (name : String) (a : α)
  | bind (i : Nat) (name : String) (a : α)

def Move.Sets (i : Nat) : Move α → Prop
  | set j _ _ => j = i
  | _ => False

/-- The environments that are held after a move. One is changed in its place, and a new one comes to
the end. -/
def move (held : List (Env α)) : Move α → List (Env α)
  | .child i => held ++ (held[i]?.map child).toList
  | .copy i => held ++ held[i]?.toList
  | .set i name a => held.modify i (·.set name a)
  | .bind i name a => held ++ (held[i]?.map (·.set name a)).toList

/-- The environments that are held after some moves, the first one with nothing bound. -/
def heldAfter (moves : List (Move α)) : List (Env α) := moves.foldl move [empty]

theorem heldAfter_append (moves later : List (Move α)) :
    heldAfter (moves ++ later) = later.foldl move (heldAfter moves) :=
  List.foldl_append

variable {held : List (Env α)} {i : Nat}

/-- A move leaves an environment as it is, unless it sets a binding in it. -/
theorem getElem?_move {m : Move α} (h : held[i]? = some e) (hm : ¬m.Sets i) :
    (move held m)[i]? = some e := by
  have hlt : i < held.length := (List.getElem?_eq_some_iff.mp h).1
  cases m with
  | set j name a => rw [move, List.getElem?_modify_ne _ _ hm, h]
  | _ => rw [move, List.getElem?_append_left hlt, h]

theorem getElem?_foldl_move {later : List (Move α)} (h : held[i]? = some e)
    (hlater : ∀ m ∈ later, ¬m.Sets i) : (later.foldl move held)[i]? = some e := by
  induction later generalizing held with
  | nil => exact h
  | cons m later ih =>
    rw [List.forall_mem_cons] at hlater
    exact ih (getElem?_move h hlater.1) hlater.2

/-- A bound copy is what setting the binding makes of a copy. -/
theorem move_bind_eq (h : held[i]? = some e) (name : String) (a : α) :
    move held (.bind i name a) = held ++ [e.set name a] ∧
      move (move held (.copy i)) (.set held.length name a) = held ++ [e.set name a] := by
  constructor
  · rw [move, h]
    rfl
  · rw [move, move, h, List.modify_eq_take_drop]
    simp

theorem get?_eq_some_iff_isLastBinding {e : Env Value} {listed : List (String × Value)}
    (h : e.Lists listed) (name : String) (v : Value) :
    e.get? name = some v ↔ IsLastBinding listed name v := by
  rw [← h.lookup_reverse, lookup_reverse_eq_some_iff]

theorem get?_eq_none_iff_not_mem (h : e.Lists listed) (name : String) :
    e.get? name = none ↔ name ∉ listed.map Prod.fst := by
  rw [← h.lookup_reverse, List.lookup_eq_none_iff]
  constructor
  · intro hne hmem
    obtain ⟨b, hb, rfl⟩ := List.mem_map.mp hmem
    simpa using hne b (List.mem_reverse.mpr hb)
  · intro hmem b hb
    rw [bne_iff_ne]
    rintro rfl
    exact hmem (List.mem_map_of_mem (List.mem_reverse.mp hb))

/-- However an environment was made, what a name means in it is its last binding in the list of
all bindings, in which every frame has each of its names once and an outer frame comes before an
inner one. It has as many frames as its depth says. A copy with a binding is what setting the
binding makes of a copy, and it leaves the environment itself as it is, whatever is done to others
later. A name means its binding here, or else its global definition, or else it is unbound. -/
theorem views_of_heldAfter (moves : List (Move Value)) (i : Nat) (e : Env Value)
    (h : (heldAfter moves)[i]? = some e) :
    (e.Lists e.flatten ∧ e.depth = e.frames.length) ∧
    (∀ listed, e.Lists listed → ∀ name,
      (∀ v, e.get? name = some v ↔ IsLastBinding listed name v) ∧
      (e.get? name = none ↔ name ∉ listed.map Prod.fst)) ∧
    (∀ name v, ∃ bound,
      heldAfter (moves ++ [.bind i name v]) = heldAfter moves ++ [bound] ∧
      heldAfter (moves ++ [.copy i, .set (heldAfter moves).length name v]) =
        heldAfter moves ++ [bound] ∧
      (∀ k, bound.get? k = if k = name then some v else e.get? k) ∧
      bound.depth = e.depth ∧ bound.parent? = e.parent? ∧
      ∀ later, (∀ m ∈ later, ¬m.Sets i) →
        (heldAfter (moves ++ .bind i name v :: later))[i]? = some e) ∧
    ∀ name s, Eval.resolve e name s =
      match e.get? name, s.registry.get? name with
      | some v, _ => .value v s
      | none, some v => .value v s
      | none, none => .fault { cause := .unbound name } s := by
  refine ⟨⟨e.lists_flatten, rfl⟩, fun listed hlisted name => ⟨fun v => ?_, ?_⟩,
    fun name v => ⟨e.set name v, ?_, ?_, fun k => get?_set e name k v, rfl, rfl, ?_⟩,
    fun name s => ?_⟩
  · exact get?_eq_some_iff_isLastBinding hlisted name v
  · exact get?_eq_none_iff_not_mem hlisted name
  · rw [heldAfter_append]
    exact (move_bind_eq h name v).1
  · rw [heldAfter_append]
    exact (move_bind_eq h name v).2
  · intro later hlater
    rw [heldAfter_append]
    exact getElem?_foldl_move h (List.forall_mem_cons.mpr ⟨id, hlater⟩)
  · rw [Eval.resolve, Registry.resolve?]
    cases e.get? name <;> cases s.registry.get? name <;> rfl

/-- A child with a name of its parent bound again, whose parent is bound again later. A copy of the
child is bound and changed, and the child stays as it is. -/
theorem views_of_heldAfter_hidden :
    let moves : List (Move Value) := [.set 0 "x" (.int 1), .child 0, .set 1 "y" (.int 2),
      .set 1 "x" (.int 3), .set 0 "x" (.int 4)]
    let e : Env Value := ⟨⟨[("x", .int 3), ("y", .int 2)]⟩, [⟨[("x", .int 1)]⟩]⟩
    (heldAfter moves)[1]? = some e ∧
      e.Lists [("x", .int 1), ("x", .int 3), ("y", .int 2)] ∧
      IsLastBinding [("x", .int 1), ("x", .int 3), ("y", .int 2)] "x" (.int 3) ∧
      (heldAfter (moves ++ [.bind 1 "x" (.int 5), .set 2 "y" (.int 6)]))[1]? = some e := by
  intro moves e
  have he : (heldAfter moves)[1]? = some e := rfl
  obtain ⟨⟨hlists, -⟩, hlast, hbind, -⟩ := views_of_heldAfter moves 1 e he
  obtain ⟨bound, -, -, -, -, -, hlater⟩ := hbind "x" (.int 5)
  have hflatten : e.flatten = [("x", .int 1), ("x", .int 3), ("y", .int 2)] := rfl
  rw [hflatten] at hlists
  refine ⟨he, hlists, ((hlast _ hlists "x").1 _).mp rfl, hlater [.set 2 "y" (.int 6)] ?_⟩
  simp [Move.Sets]

end Env

end Lisp
