import Lisp.Proofs.Source.Displacement
import Lisp.Proofs.Source.Transition

/-!
# Reading form by form

`Cursor.next` reads one form and stops, and the whole text is read by one scan. Reading form by form
gives the same forms and the same fault: when the first form is complete, a scan waits for nothing,
so going on is starting anew from where it stands.
-/

namespace Lisp.Source

/-- The forms from a place on, read one by one, and the fault that ended reading, if one did. -/
def Cursor.forms (cur : Cursor) : List Form × Option Fault :=
  match _h : cur.next with
  | .ended => ([], none)
  | .failed e _ => ([], some e)
  | .form f left => (f :: left.forms.1, left.forms.2)
termination_by cur.rest.length
decreasing_by all_goals exact Cursor.length_lt_of_next _h

namespace Scan

variable {s t : Scan}

def between (p : Position) (done : List Form) : Scan := ⟨p, done, [], .between⟩

/-- No form is complete, or the first one is and nothing was read after it. -/
def OnFirst (s : Scan) : Prop := s.done = [] ∨ ∃ f, s = between s.pos [f]

theorem place_nil (layers : List Layer) (f : Form) :
    (place [] layers f).1 = [] ∨ ∃ g, place [] layers f = ([g], []) := by
  induction layers generalizing f with
  | nil => exact Or.inr ⟨f, rfl⟩
  | cons l layers ih =>
    cases l with
    | opened b p items => exact Or.inl rfl
    | marked m p => exact ih _

theorem onFirst_deliver (h : s.done = []) (f : Form) : (s.deliver f).OnFirst := by
  rcases place_nil s.layers f with hdone | ⟨g, hplace⟩
  · left
    rw [deliver, h]
    exact hdone
  · right
    refine ⟨g, ?_⟩
    rw [deliver, h, hplace]
    rfl

theorem Settles.onFirst {c : Char} (h : Settles s c t) (hs : s.done = []) : t.OnFirst := by
  cases h with
  | stays => exact Or.inl hs
  | word p chars a => exact onFirst_deliver hs _
  | tilde p => exact Or.inl hs

theorem Absorbs.onFirst {c : Char} (h : Absorbs s c t) (hs : s.done = []) : t.OnFirst := by
  cases h with
  | closing b p items rest => exact onFirst_deliver (s := { s with layers := rest }) hs _
  | endString p chars => exact onFirst_deliver hs _
  | _ => exact Or.inl hs

theorem onFirst_take {c : Char} (hs : s.done = []) (h : s.take c = .ok t) : t.OnFirst := by
  unfold take at h
  cases habsorb : s.absorb c with
  | error e => simp [habsorb, Except.map] at h
  | ok u =>
    simp only [habsorb, Except.map, Except.ok.injEq] at h
    subst h
    rcases (absorbs_of_absorb habsorb).onFirst hs with hdone | ⟨f, hu⟩
    · exact Or.inl hdone
    · right
      rw [hu]
      exact ⟨f, rfl⟩

theorem Finishes.onFirst (h : Finishes s t) (hs : s.done = []) : t.OnFirst := by
  cases h with
  | word p chars a => exact onFirst_deliver hs _
  | _ => exact Or.inl hs

theorem displace_between (p : Position) (f : Form) (before : List Form) :
    (between p [f]).displace .still before = between p (f :: before) :=
  displace_still before _

theorem run_between (p : Position) (f : Form) (cs : List Char) :
    (between p [f]).run cs = .form f ⟨p, cs⟩ := by
  unfold run
  rfl

/-- What a scan on its first form completes: that form and all that follows from there, or a
fault. -/
theorem completed_eq_run (hs : s.OnFirst) (before : List Form) (cs : List Char) :
    (s.displace .still before).completed cs =
      match s.run cs with
      | .form f left => (between left.pos (f :: before)).completed left.rest
      | .ended => .ok before
      | .failed e _ => .error e := by
  induction cs generalizing s with
  | nil =>
    rcases hs with hdone | ⟨f, hf⟩
    · rw [completed_nil, finish_displace]
      unfold run
      simp only [hdone]
      cases hfinish : s.finish with
      | error e => simp [displaceResult, Except.map]
      | ok t =>
        rcases (finishes_of_finish hfinish).onFirst hdone with ht | ⟨f, ht⟩
        · simp [displaceResult, displace, Except.map, ht]
        · rw [ht, displaceResult, displace_between]
          rfl
    · rw [hf, run_between, displace_between]
  | cons c cs ih =>
    rcases hs with hdone | ⟨f, hf⟩
    · unfold run
      simp only [hdone]
      have hsettled : (s.displace .still before).settle c = _ := settle_displace s c
      cases hsettle : s.settle c with
      | error e =>
        rw [hsettle] at hsettled
        rw [completed_cons, step, hsettled]
        simp [displaceResult, bind, Except.bind]
      | ok t =>
        rw [hsettle] at hsettled
        rw [completed_of_settle hsettled]
        rcases (settles_of_settle hsettle).onFirst hdone with ht | ⟨f, ht⟩
        · simp only [ht]
          rw [take_displace]
          cases htake : t.take c with
          | error e => simp [displaceResult, bind, Except.bind]
          | ok u => exact ih (onFirst_take ht htake)
        · rw [ht, displace_between]
          exact (completed_of_settle (settle_of_between rfl c) cs).symm
    · rw [hf, run_between, displace_between]

end Scan

namespace Cursor

/-- What a scan does between forms or inside a comment. -/
def idleMode (inComment : Bool) : Mode := if inComment then .comment else .between

/-- Blanks and comments between forms change nothing but the place. -/
theorem completed_skipBlanks (inComment : Bool) (p : Position) (done : List Form)
    (cs : List Char) :
    (Scan.mk p done [] (idleMode inComment)).completed cs =
      (Scan.between (skipBlanks inComment p cs).pos done).completed
        (skipBlanks inComment p cs).rest := by
  induction cs generalizing inComment p with
  | nil => cases inComment <;> rfl
  | cons c cs ih =>
    cases inComment with
    | true =>
      have hmode : (if c = '\n' then Mode.between else .comment) = idleMode (c ≠ '\n') := by
        by_cases hc : c = '\n' <;> simp [idleMode, hc]
      rw [skipBlanks, if_pos rfl, ← ih, Scan.completed_cons, Scan.step_of_comment rfl, hmode]
      rfl
    | false =>
      rw [skipBlanks, if_neg (by decide)]
      split
      · rename_i hsep
        rw [← ih, Scan.completed_cons, Scan.step_of_isSeparator rfl hsep]
        rfl
      · split
        · rename_i hsemicolon
          subst hsemicolon
          rw [← ih, Scan.completed_cons]
          rfl
        · rfl

/-- What is complete at the end of a text is the next form and all that follows, or a fault. -/
theorem completed_eq_next (cur : Cursor) (done : List Form) :
    (Scan.between cur.pos done).completed cur.rest =
      match cur.next with
      | .form f left => (Scan.between left.pos (f :: done)).completed left.rest
      | .ended => .ok done
      | .failed e _ => .error e := by
  refine (completed_skipBlanks false cur.pos done cur.rest).trans ?_
  unfold next
  obtain ⟨p, rest⟩ := skipBlanks false cur.pos cur.rest
  cases rest with
  | nil => rfl
  | cons c cs =>
    have hstart : Scan.between p done = (Scan.start p).displace .still done := rfl
    simp only
    rw [hstart, Scan.completed_of_settle (Scan.settle_of_between rfl c), Scan.take_displace]
    cases htake : (Scan.start p).take c with
    | error e => simp [Scan.displaceResult, bind, Except.bind]
    | ok s => exact Scan.completed_eq_run (Scan.onFirst_take rfl htake) done cs

/-- Reading form by form completes what reading the whole text completes. -/
theorem completed_eq_forms (cur : Cursor) (done : List Form) :
    (Scan.between cur.pos done).completed cur.rest =
      match cur.forms with
      | (fs, none) => .ok (fs.reverse ++ done)
      | (_, some e) => .error e := by
  fun_induction forms cur generalizing done with
  | case1 cur hnext =>
    rw [completed_eq_next, hnext]
    rfl
  | case2 cur e left hnext => rw [completed_eq_next, hnext]
  | case3 cur f left hnext ih =>
    rw [completed_eq_next, hnext]
    simp only
    rw [ih]
    cases hforms : left.forms with
    | mk fs e => cases e <;> simp

end Cursor

theorem readAll_eq_forms (text : String) :
    readAll text =
      match (Cursor.ofString text).forms with
      | (fs, none) => .ok fs
      | (_, some e) => .error e := by
  have h := Cursor.completed_eq_forms (.ofString text) []
  rw [readAll, readChars_eq_completed]
  change ((Scan.between .start []).completed text.toList).map List.reverse = _
  change (Scan.between .start []).completed text.toList = _ at h
  rw [h]
  cases (Cursor.ofString text).forms with
  | mk fs e => cases e <;> simp [Except.map]

end Lisp.Source
