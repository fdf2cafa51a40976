import Lisp.Proofs.Source.Derivation

/-!
# Places of forms and faults

Every form of a text, however deep it stands in others, has the place where its own text starts: its
opening bracket, quotation mark or mark, or the first character of its word. The head that a mark
stands for has no text of its own and shares the place of the mark. A fault has the place that was
reached when it was met.
-/

namespace Lisp

inductive Form.Contains : Form → Form → Prop where
  | refl (f : Form) : Contains f f
  | item {p : Position} {b : Bracket} {items : List Form} {f g : Form} :
    f ∈ items → Contains f g → Contains (.seq p b items) g

theorem Form.contains_atom_iff {p : Position} {a : Atom} {g : Form} :
    (Form.atom p a).Contains g ↔ g = .atom p a := by
  constructor
  · rintro ⟨⟩
    rfl
  · rintro rfl
    exact .refl _

theorem Form.contains_seq_iff {p : Position} {b : Bracket} {items : List Form} {g : Form} :
    (Form.seq p b items).Contains g ↔ g = .seq p b items ∨ ∃ f ∈ items, f.Contains g := by
  constructor
  · rintro (_ | ⟨hf, hg⟩)
    · exact Or.inl rfl
    · exact Or.inr ⟨_, hf, hg⟩
  · rintro (rfl | ⟨f, hf, hg⟩)
    · exact .refl _
    · exact .item hf hg

namespace Source

variable {before cs after text : List Char} {f g : Form} {fs : List Form}

/-- The text that a form has, with `before` before and `after` after it. The head that a mark stands
for has the text of the marked form. -/
inductive HasText (before cs after : List Char) : Form → Prop where
  | form {f : Form} : FormAt before cs after f → HasText before cs after f
  | head (m : Mark) {more : List Char} {p : Position} {f : Form} :
    cs = m.text ++ more → FormAt before cs after (.seq p .list [.atom p (.symbol m.head), f]) →
      HasText before cs after (.atom p (.symbol m.head))

theorem HasText.pos_eq (h : HasText before cs after g) : g.pos = .after before := by
  cases h with
  | form h => exact h.pos_eq
  | head m _ h => exact h.pos_eq

theorem HasText.ne_nil (h : HasText before cs after g) : cs ≠ [] := by
  cases h with
  | form h => exact h.ne_nil
  | head m _ h => exact h.ne_nil

/-- A part of a text is the text that a form has. -/
def StandsIn (text : List Char) (g : Form) : Prop :=
  ∃ before cs after, text = before ++ (cs ++ after) ∧ HasText before cs after g

mutual

/-- Everything inside a form that stands at its place stands at its place. -/
theorem FormAt.standsIn : ∀ {before cs after : List Char} {f : Form},
    FormAt before cs after f → ∀ {g : Form}, f.Contains g → StandsIn (before ++ (cs ++ after)) g
  | _, _, _, _, .word hcs hafter ha, _, hg => by
    rw [Form.contains_atom_iff.mp hg]
    exact ⟨_, _, _, rfl, .form (.word hcs hafter ha)⟩
  | _, _, _, _, .string h, _, hg => by
    rw [Form.contains_atom_iff.mp hg]
    exact ⟨_, _, _, rfl, .form (.string h)⟩
  | _, _, _, _, .seq b h, _, hg => by
    rcases Form.contains_seq_iff.mp hg with heq | ⟨f, hf, hg⟩
    · rw [heq]
      exact ⟨_, _, _, rfl, .form (.seq b h)⟩
    · simpa using h.standsIn hf hg
  | _, _, _, _, .marked m hblanks h hm, _, hg => by
    rw [Form.contains_seq_iff, List.exists_mem_cons_iff, Form.contains_atom_iff] at hg
    rcases hg with heq | heq | ⟨f, hf, hg⟩
    · rw [heq]
      exact ⟨_, _, _, rfl, .form (.marked m hblanks h hm)⟩
    · rw [heq]
      exact ⟨_, _, _, rfl, .head m rfl (.marked m hblanks h hm)⟩
    · rw [List.mem_singleton.mp hf] at hg
      simpa using h.standsIn hg

theorem FormsAt.standsIn : ∀ {before cs after : List Char} {fs : List Form},
    FormsAt before cs after fs → ∀ {f g : Form}, f ∈ fs → f.Contains g →
      StandsIn (before ++ (cs ++ after)) g
  | _, _, _, _, .form h, _, _, hf, hg => by
    rw [List.mem_singleton.mp hf] at hg
    exact h.standsIn hg
  | _, _, _, _, .append h h', _, _, hf, hg => by
    rcases List.mem_append.mp hf with hf | hf
    · simpa using h.standsIn hf hg
    · simpa using h'.standsIn hf hg

end

/-- A fault has the place that was reached when it was met. -/
theorem exists_pos_of_readChars {e : Fault} (h : readChars text = .error e) :
    ∃ before, before <+: text ∧ e.pos = some (.after before) := by
  have hfault {s : Scan} {before : List Char} (r : ReadError)
      (hread : (Scan.start .start).feed before = .ok s) :
      (s.fault r).pos = some (.after before) := by
    rw [Scan.fault, Scan.pos_feed hread]
    rfl
  rcases readChars_eq_error h with hfeed | ⟨s, hread, hfinish⟩
  · obtain ⟨before, t, hbefore, hread, r, -, rfl⟩ := Scan.exists_feed_of_error hfeed
    exact ⟨before, hbefore, hfault r hread⟩
  · obtain ⟨r, rfl⟩ := Scan.fault_of_finish hfinish
    exact ⟨text, List.prefix_rfl, hfault r hread⟩

/-- The forms that are read stand at their places in the text, and so does every form inside them:
the character there is the first one of its text, and line and column are what the text before it
says. The place of every fault is a place of the text or its end. -/
theorem pointsInto_of_readAll (text : String) :
    (∀ fs, readAll text = .ok fs →
      FormsAt [] text.toList [] fs ∧
      ∀ f ∈ fs, ∀ g, f.Contains g →
        g.pos.PointsInto text.toList ∧ g.pos.index < text.length ∧
        ∃ before c cs after, text.toList = before ++ (c :: cs ++ after) ∧
          HasText before (c :: cs) after g ∧ before.length = g.pos.index ∧
          text.toList[g.pos.index]? = some c) ∧
    ∀ e, readAll text = .error e → ∃ p, e.pos = some p ∧ p.PointsInto text.toList := by
  constructor
  · intro fs hread
    have hforms := formsAt_of_readChars hread
    refine ⟨hforms, fun f hf g hg => ?_⟩
    obtain ⟨before, cs, after, htext, hg⟩ := hforms.standsIn hf hg
    rw [List.nil_append, List.append_nil] at htext
    obtain ⟨c, cs, rfl⟩ := List.exists_cons_of_ne_nil hg.ne_nil
    have hindex : before.length = g.pos.index := by rw [hg.pos_eq, Position.index_after]
    refine ⟨?_, ?_, before, c, cs, after, htext, hg, hindex, ?_⟩
    · rw [hg.pos_eq, htext]
      exact Position.pointsInto_after before _
    · rw [← String.length_toList, htext, ← hindex]
      simp
    · rw [htext, ← hindex]
      simp
  · intro e hread
    obtain ⟨before, hbefore, hpos⟩ := exists_pos_of_readChars hread
    exact ⟨_, hpos, Position.pointsInto_of_isPrefix hbefore⟩

/-- A string with a newline inside and a mark of two characters, below a comment, and a number that
cannot be read on a second line. -/
theorem pointsInto_of_readAll_newlines :
    readAll "; c\n'(\"x\ny\" ~@b)" =
        .ok [.seq ⟨2, 1, 4⟩ .list [.atom ⟨2, 1, 4⟩ (.symbol "quote"),
          .seq ⟨2, 2, 5⟩ .list [.atom ⟨2, 3, 6⟩ (.str "x\ny"),
            .seq ⟨3, 4, 12⟩ .list [.atom ⟨3, 4, 12⟩ (.symbol "unquote-splicing"),
              .atom ⟨3, 6, 14⟩ (.symbol "b")]]]] ∧
      Position.PointsInto ⟨3, 4, 12⟩ "; c\n'(\"x\ny\" ~@b)".toList ∧
      Position.PointsInto ⟨2, 3, 5⟩ "(a\n1x".toList := by
  have hread : readAll "; c\n'(\"x\ny\" ~@b)" =
      .ok [.seq ⟨2, 1, 4⟩ .list [.atom ⟨2, 1, 4⟩ (.symbol "quote"),
        .seq ⟨2, 2, 5⟩ .list [.atom ⟨2, 3, 6⟩ (.str "x\ny"),
          .seq ⟨3, 4, 12⟩ .list [.atom ⟨3, 4, 12⟩ (.symbol "unquote-splicing"),
            .atom ⟨3, 6, 14⟩ (.symbol "b")]]]] := rfl
  refine ⟨hread, ?_, ?_⟩
  · have hpoints := ((pointsInto_of_readAll _).1 _ hread).2 _ (.head _)
      (.atom ⟨3, 4, 12⟩ (.symbol "unquote-splicing"))
      (.item (.tail _ (.head _)) (.item (.tail _ (.head _)) (.item (.head _) (.refl _))))
    exact hpoints.1
  · obtain ⟨p, hp, hpoints⟩ := (pointsInto_of_readAll "(a\n1x").2 _ rfl
    cases hp
    exact hpoints

end Source

end Lisp
