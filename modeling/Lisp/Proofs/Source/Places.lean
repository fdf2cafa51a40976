import Mathlib.Data.List.DropRight
import Lisp.Proofs.Source.Grammar
import Lisp.Proofs.Source.Lines

/-!
# Where forms stand in a text

The place of a character is counted along the whole text before it, through strings and comments. It
is the same as what the text itself says about the place: how many newlines stand before it, and how
far the last of them is away. `FormAt` and `FormsAt` are the rules of the grammar for forms with their
places: `before` is the text that comes before theirs.
-/

namespace Lisp

namespace Position

def after (cs : List Char) : Position := cs.foldl next .start

theorem after_concat (cs : List Char) (c : Char) : after (cs ++ [c]) = (after cs).next c := by
  simp [after]

/-- The place is what the text says about it: its lines are those that end before it, and its columns
are the characters after the last newline before it, or after the start. -/
structure PointsInto (p : Position) (text : List Char) : Prop where
  index_le : p.index ≤ text.length
  line_eq : p.line = 1 + (text.take p.index).count '\n'
  col_eq : p.col = 1 + ((text.take p.index).rtakeWhile (· ≠ '\n')).length

theorem line_after (cs : List Char) : (after cs).line = 1 + cs.count '\n' :=
  (foldl_next .start cs).1

@[simp] theorem index_after (cs : List Char) : (after cs).index = cs.length := by
  rw [after, (foldl_next .start cs).2, start, Nat.zero_add]

theorem col_after (cs : List Char) :
    (after cs).col = 1 + (cs.rtakeWhile (· ≠ '\n')).length := by
  induction cs using List.reverseRecOn with
  | nil => rfl
  | append_singleton cs c ih =>
    rw [after_concat, List.rtakeWhile_concat, next]
    by_cases hc : c = '\n'
    · simp [hc]
    · simp [hc, ih, Nat.add_assoc]

theorem pointsInto_after (before rest : List Char) : (after before).PointsInto (before ++ rest) := by
  have htake : (before ++ rest).take (after before).index = before := by simp
  refine ⟨by simp, ?_, ?_⟩
  · rw [htake, line_after]
  · rw [htake, col_after]

theorem pointsInto_of_isPrefix {before text : List Char} (h : before <+: text) :
    (after before).PointsInto text := by
  obtain ⟨rest, rfl⟩ := h
  exact pointsInto_after before rest

end Position

namespace Source

variable {before cs after : List Char} {f : Form}

mutual

/-- The text of a form that stands at its place, with `before` before and `after` after it. The head
that a mark stands for has the place of the mark. -/
inductive FormAt : List Char → List Char → List Char → Form → Prop where
  | word {before cs after : List Char} {a : Atom} :
    IsWord cs → EndsWord after → StandsFor cs a →
      FormAt before cs after (.atom (.after before) a)
  | string {before cs after text : List Char} :
    Spells cs text →
      FormAt before ('"' :: (cs ++ ['"'])) after
        (.atom (.after before) (.str (String.ofList text)))
  | seq (b : Bracket) {before cs after : List Char} {fs : List Form} :
    FormsAt (before ++ [b.opening]) cs (b.closing :: after) fs →
      FormAt before (b.opening :: (cs ++ [b.closing])) after (.seq (.after before) b fs)
  | marked (m : Mark) {before blanks cs after : List Char} {f : Form} :
    FormsAt (before ++ m.text) blanks (cs ++ after) [] →
      FormAt (before ++ (m.text ++ blanks)) cs after f →
      (m = .unquote → (blanks ++ (cs ++ after)).head? ≠ some '@') →
      FormAt before (m.text ++ (blanks ++ cs)) after
        (.seq (.after before) .list [.atom (.after before) (.symbol m.head), f])

/-- The text of some forms that stand at their places, with blanks between and around them. -/
inductive FormsAt : List Char → List Char → List Char → List Form → Prop where
  | nil {before after : List Char} : FormsAt before [] after []
  | separator {c : Char} {before after : List Char} :
    isSeparator c = true → FormsAt before [c] after []
  | comment {before cs after : List Char} :
    '\n' ∉ cs → (∀ c ∈ after.head?, c = '\n') → FormsAt before (';' :: cs) after []
  | form {before cs after : List Char} {f : Form} :
    FormAt before cs after f → FormsAt before cs after [f]
  | append {before cs ds after : List Char} {fs gs : List Form} :
    FormsAt before cs (ds ++ after) fs → FormsAt (before ++ cs) ds after gs →
      FormsAt before (cs ++ ds) after (fs ++ gs)

end

mutual

theorem FormAt.isForm : ∀ {before cs after : List Char} {f : Form},
    FormAt before cs after f → IsForm cs after f.toValue
  | _, _, _, _, .word hcs hafter ha => by
    rw [Form.toValue]
    exact .word hcs hafter ha
  | _, _, _, _, .string h => by
    rw [Form.toValue]
    exact .string h
  | _, _, _, _, .seq b h => by
    rw [Form.toValue, Form.toValues_eq_map]
    exact .seq b h.areForms
  | _, _, _, _, .marked m hblanks h hm => by
    simpa [Form.toValue, Form.toValues] using IsForm.marked m hblanks.areForms h.isForm hm

theorem FormsAt.areForms : ∀ {before cs after : List Char} {fs : List Form},
    FormsAt before cs after fs → AreForms cs after (fs.map Form.toValue)
  | _, _, _, _, .nil => .nil
  | _, _, _, _, .separator hc => .separator hc
  | _, _, _, _, .comment hcs hafter => .comment hcs hafter
  | _, _, _, _, .form h => .form h.isForm
  | _, _, _, _, .append h h' => by
    rw [List.map_append]
    exact .append h.areForms h'.areForms

end

theorem FormAt.pos_eq (h : FormAt before cs after f) : f.pos = .after before := by
  cases h <;> rfl

theorem FormAt.ne_nil (h : FormAt before cs after f) : cs ≠ [] := by
  cases h with
  | word hcs =>
    rintro rfl
    exact absurd hcs.starts (by decide)
  | string => exact List.cons_ne_nil _ _
  | seq => exact List.cons_ne_nil _ _
  | marked m =>
    refine List.append_ne_nil_of_left_ne_nil ?_ _
    cases m <;> exact List.cons_ne_nil _ _

end Source

end Lisp
