import Lisp.Proofs.Source.Displacement
import Lisp.Proofs.Source.Incomplete
import Lisp.Proofs.Source.Transition

/-!
# Texts joined at a newline

Where a text can be read, nothing waits at its end: a newline ends its last word or comment and
leaves the scan as at the beginning of a text, further down. So the forms of two texts with a newline
between them are the forms of the first and then those of the second.
-/

namespace Lisp

/-- How far a text moves what follows it and a newline. -/
def Displacement.below (cs : List Char) : Displacement :=
  .down (cs.count '\n' + 1) (cs.length + 1)

theorem Position.foldl_next (p : Position) (cs : List Char) :
    (cs.foldl Position.next p).line = p.line + cs.count '\n' ∧
      (cs.foldl Position.next p).index = p.index + cs.length := by
  induction cs generalizing p with
  | nil => simp
  | cons c cs ih =>
    have hnext : (p.next c).line = p.line + if c = '\n' then 1 else 0 := by
      unfold Position.next
      split <;> rfl
    obtain ⟨hline, hindex⟩ := ih (p.next c)
    constructor
    · rw [List.foldl_cons, hline, hnext, List.count_cons]
      simp only [beq_iff_eq]
      omega
    · rw [List.foldl_cons, hindex, Position.index_next, List.length_cons]
      omega

/-- After a text and a newline, reading stands where it would stand at the start, moved. -/
theorem Position.foldl_next_newline (cs : List Char) :
    (cs.foldl Position.next .start).next '\n' = (Displacement.below cs).move .start := by
  obtain ⟨hline, hindex⟩ := Position.foldl_next .start cs
  rw [Position.next, if_pos rfl, hline, hindex]
  simp [Displacement.below, Displacement.down, Position.start, Nat.add_assoc]

namespace Source

namespace Scan

variable {s t : Scan}

/-- Where a text may end, a newline leaves a scan with the same complete forms and nothing else. -/
theorem step_newline_of_finish (h : s.finish = .ok t) :
    s.step '\n' = .ok ⟨s.pos.next '\n', t.done, [], .between⟩ := by
  cases finishes_of_finish h with
  | between hmode hlayers => rw [step_of_isSeparator hmode (by decide), hmode, hlayers]
  | comment hmode hlayers =>
    rw [step_of_comment hmode, hlayers]
    rfl
  | word p chars a hmode ha hlayers =>
    have hsettle : s.settle '\n' = .ok (s.deliver (.atom p a)) := by
      rw [settle_of_endsWord hmode (by decide), endWord, ha]
    rw [step_of_settle hsettle, ← step_of_between rfl, step_of_isSeparator rfl (by decide), hlayers]
    rfl

theorem completed_of_isSeparator {cs : List Char} (h : ∀ c ∈ cs, isSeparator c = true)
    (p : Position) (done : List Form) :
    (Scan.mk p done [] .between).completed cs = .ok done := by
  induction cs generalizing p with
  | nil => rfl
  | cons c cs ih =>
    rw [completed_cons, step_of_isSeparator rfl (h c (by simp))]
    exact ih (fun c' hc' => h c' (by simp [hc'])) _

end Scan

/-- A blank text holds no form. -/
theorem readChars_of_isSeparator {cs : List Char} (h : ∀ c ∈ cs, isSeparator c = true) :
    readChars cs = .ok [] := by
  rw [readChars_eq_completed]
  change ((Scan.mk .start [] [] .between).completed cs).map List.reverse = _
  rw [Scan.completed_of_isSeparator h]
  rfl

/-- The forms of two texts with a newline between them. -/
theorem readChars_append_newline {cs : List Char} {fs : List Form} (h : readChars cs = .ok fs)
    (ds : List Char) :
    readChars (cs ++ '\n' :: ds) =
      match readChars ds with
      | .ok gs => .ok (fs ++ gs.map (Form.displace (.below cs)))
      | .error e => .error (e.displace (.below cs)) := by
  obtain ⟨s, t, hfeed, hfinish, rfl⟩ := readChars_eq_ok h
  -- The scan after the newline is one at the start of a text, moved and after these forms.
  have hstart : (⟨s.pos.next '\n', t.done, [], .between⟩ : Scan) =
      (Scan.start .start).displace (.below cs) t.done := by
    rw [Scan.pos_feed hfeed]
    exact congrArg (Scan.mk · _ _ _) (Position.foldl_next_newline cs)
  rw [readChars_eq_completed, readChars_eq_completed, Scan.completed_append, hfeed]
  change (s.completed ('\n' :: ds)).map List.reverse = _
  rw [Scan.completed_cons, Scan.step_newline_of_finish hfinish, hstart]
  change (Scan.completed _ ds).map List.reverse = _
  rw [Scan.completed_displace]
  cases (Scan.start .start).completed ds with
  | error e => rfl
  | ok gs => simp [Except.map]

/-- After a text that can be read and a newline, every text is read as it is read alone: its forms
come after those of the first text, and all their places, or the place of its fault, are as many
lines and characters further on as the first text and the newline have. -/
theorem readAll_append_newline_of_ok (text more : String) (fs : List Form)
    (h : readAll text = .ok fs) :
    let d := Displacement.down (text.toList.count '\n' + 1) (text.length + 1)
    (∀ gs, readAll more = .ok gs →
      readAll (text ++ "\n" ++ more) = .ok (fs ++ gs.map (Form.displace d))) ∧
    ∀ e, readAll more = .error e →
      readAll (text ++ "\n" ++ more) = .error (e.displace d) ∧
      (e.displace d).incomplete = e.incomplete ∧
      ∃ p, e.pos = some p ∧ (e.displace d).pos = some (d.move p) := by
  intro d
  have hd : Displacement.below text.toList = d := rfl
  have hchars : (text ++ "\n" ++ more).toList = text.toList ++ '\n' :: more.toList := by simp
  have hread := readChars_append_newline h more.toList
  rw [hd, ← hchars] at hread
  constructor
  · intro gs hgs
    rw [show readChars more.toList = .ok gs from hgs] at hread
    exact hread
  · intro e he
    rw [show readChars more.toList = .error e from he] at hread
    obtain ⟨r, p, rfl⟩ := fault_of_readAll he
    refine ⟨hread, ?_, p, rfl, rfl⟩
    cases r <;> rfl

/-- A text with a newline inside a string and a comment at its end, before a vector and before a
bracket that does not fit, whose fault tells where the other one is. -/
theorem readAll_append_newline_of_ok_comment :
    readAll ("(\"b\n\") ; d" ++ "\n" ++ "[\n x]") =
        .ok [.seq ⟨1, 1, 0⟩ .list [.atom ⟨1, 2, 1⟩ (.str "b\n")],
          .seq ⟨3, 1, 11⟩ .vector [.atom ⟨4, 2, 14⟩ (.symbol "x")]] ∧
      readAll ("(\"b\n\") ; d" ++ "\n" ++ " (]") =
        .error { cause := .read (.mismatchedCloser .vector .list ⟨3, 2, 12⟩),
                 pos := some ⟨3, 3, 13⟩ } := by
  have hread : readAll "(\"b\n\") ; d" =
      .ok [.seq ⟨1, 1, 0⟩ .list [.atom ⟨1, 2, 1⟩ (.str "b\n")]] := rfl
  exact ⟨(readAll_append_newline_of_ok _ "[\n x]" _ hread).1 _ rfl,
    ((readAll_append_newline_of_ok _ " (]" _ hread).2 _ rfl).1⟩

end Source

end Lisp
