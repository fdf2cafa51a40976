import Lisp.Proofs.Source.Displacement
import Lisp.Proofs.Source.Transition

/-!
# Texts that end too early

A fault that is met inside a text stays, whatever follows the text. A fault that is met at its end is
either a number that cannot be read, which a newline ends as well, or it says that the text is
incomplete. Then the scan waits for something, and everything that it can wait for can be given to it
after a newline: a closing bracket to a bracket, a form to a mark, a quotation mark to a string.
-/

namespace Lisp.Source

namespace Scan

variable {s t : Scan} {c : Char} {e : Fault}

theorem endWord_eq_error {p : Position} {chars : List Char} (h : s.endWord p chars = .error e) :
    ∃ r : ReadError, r.incomplete = false ∧ e = s.fault r := by
  unfold endWord at h
  split at h
  · cases h
  · cases h
    exact ⟨_, rfl, rfl⟩

theorem settle_eq_error (h : s.settle c = .error e) :
    ∃ r : ReadError, r.incomplete = false ∧ e = s.fault r := by
  unfold settle at h
  split at h
  · split at h
    · exact endWord_eq_error h
    · cases h
  · split at h <;> cases h
  · cases h

theorem close_eq_error {b : Bracket} (h : s.close b = .error e) :
    ∃ r : ReadError, r.incomplete = false ∧ e = s.fault r := by
  unfold close at h
  split at h
  · split at h <;> cases h
    exact ⟨_, rfl, rfl⟩
  · cases h
    exact ⟨_, rfl, rfl⟩

theorem begin_eq_error (h : s.begin c = .error e) :
    ∃ r : ReadError, r.incomplete = false ∧ e = s.fault r := by
  unfold begin at h
  split at h
  · cases h
  · split at h
    · cases h
    · cases h
    · cases h
    · cases h
    · cases h
    · cases h
    · cases h
    · exact close_eq_error h
    · exact close_eq_error h
    · cases h

theorem absorb_eq_error (h : s.absorb c = .error e) :
    ∃ r : ReadError, r.incomplete = false ∧ e = s.fault r := by
  unfold absorb at h
  split at h
  · exact begin_eq_error h
  · cases h
  · cases h
  · cases h
  · split at h
    · cases h
    · split at h <;> cases h
  · cases h

/-- A character that cannot be read is a fault where it stands, and no character that is there says
that a text is incomplete. -/
theorem step_eq_error (h : s.step c = .error e) :
    ∃ r : ReadError, r.incomplete = false ∧ e = s.fault r := by
  unfold step take at h
  cases hsettle : s.settle c with
  | error e' =>
    rw [hsettle] at h
    cases h
    exact settle_eq_error hsettle
  | ok u =>
    rw [hsettle] at h
    cases habsorb : u.absorb c with
    | error e' =>
      simp only [bind, Except.bind, habsorb, Except.map] at h
      cases h
      obtain ⟨r, hr, rfl⟩ := absorb_eq_error habsorb
      refine ⟨r, hr, ?_⟩
      rw [fault, fault, (settles_of_settle hsettle).pos_eq]
    | ok v => simp [bind, Except.bind, habsorb, Except.map] at h

/-- A fault inside a text is met where the text before it was read. -/
theorem exists_feed_of_error {cs : List Char} (h : s.feed cs = .error e) :
    ∃ before t, before <+: cs ∧ s.feed before = .ok t ∧
      ∃ r : ReadError, r.incomplete = false ∧ e = t.fault r := by
  induction cs generalizing s with
  | nil => cases h
  | cons c cs ih =>
    rw [feed_cons] at h
    cases hstep : s.step c with
    | error e' =>
      rw [hstep] at h
      cases h
      exact ⟨[], s, List.nil_prefix, rfl, step_eq_error hstep⟩
    | ok u =>
      rw [hstep] at h
      obtain ⟨before, t, hbefore, hfeed, hfault⟩ := ih h
      refine ⟨c :: before, t, (List.prefix_cons_inj c).2 hbefore, ?_, hfault⟩
      rw [feed_cons, hstep]
      exact hfeed

theorem feed_eq_error {cs : List Char} (h : s.feed cs = .error e) : e.kind = .parse false := by
  obtain ⟨-, t, -, -, r, hr, rfl⟩ := exists_feed_of_error h
  exact congrArg Kind.parse hr

def Readable (s : Scan) : Prop :=
  ∀ p chars, s.mode = .word p chars → ∃ a, wordAtom? chars.reverse = some a

theorem readable_of_mode (h : ∀ p chars, s.mode ≠ .word p chars) : s.Readable :=
  fun p chars hword => absurd hword (h p chars)

theorem endWord_eq_ok {p : Position} {chars : List Char} (h : s.endWord p chars = .ok t) :
    ∃ a, wordAtom? chars.reverse = some a ∧ t = s.deliver (.atom p a) := by
  unfold endWord at h
  split at h
  · rename_i a ha
    cases h
    exact ⟨a, ha, rfl⟩
  · cases h

theorem closed_eq_error (h : s.closed = .error e) :
    ∃ r : ReadError, r.incomplete = true ∧ e = s.fault r := by
  unfold closed at h
  split at h <;> cases h <;> exact ⟨_, rfl, rfl⟩

theorem kind_of_closed (h : s.closed = .error e) : e.kind = .parse true := by
  obtain ⟨r, hr, rfl⟩ := closed_eq_error h
  exact congrArg Kind.parse hr

/-- A fault at the end of a text is met there. -/
theorem fault_of_finish (h : s.finish = .error e) : ∃ r : ReadError, e = s.fault r := by
  unfold finish at h
  split at h
  · obtain ⟨r, -, he⟩ := closed_eq_error h
    exact ⟨r, he⟩
  · obtain ⟨r, -, he⟩ := closed_eq_error h
    exact ⟨r, he⟩
  · cases h
    exact ⟨_, rfl⟩
  · rename_i p chars hmode
    cases hword : s.endWord p chars with
    | error e' =>
      rw [hword] at h
      cases h
      obtain ⟨r, -, he⟩ := endWord_eq_error hword
      exact ⟨r, he⟩
    | ok t =>
      rw [hword] at h
      obtain ⟨r, -, rfl⟩ := closed_eq_error h
      obtain ⟨a, -, rfl⟩ := endWord_eq_ok hword
      exact ⟨r, rfl⟩
  · cases h
    exact ⟨_, rfl⟩
  · cases h
    exact ⟨_, rfl⟩

/-- The end of a text shows that something is missing, or that its last word is no number. A newline
shows the latter, too. -/
theorem finish_eq_error (h : s.finish = .error e) :
    (s.Readable ∧ e.kind = .parse true) ∨ (s.step '\n' = .error e ∧ e.kind = .parse false) := by
  unfold finish at h
  split at h
  · rename_i hmode
    exact Or.inl ⟨readable_of_mode (by simp [hmode]), kind_of_closed h⟩
  · rename_i hmode
    exact Or.inl ⟨readable_of_mode (by simp [hmode]), kind_of_closed h⟩
  · rename_i hmode
    cases h
    exact Or.inl ⟨readable_of_mode (by simp [hmode]), rfl⟩
  · rename_i p chars hmode
    cases hword : s.endWord p chars with
    | error e' =>
      rw [hword] at h
      cases h
      have hstep : s.step '\n' = .error e := by
        rw [step, settle_of_endsWord hmode (by decide), hword]
        rfl
      obtain ⟨r, hr, rfl⟩ := step_eq_error hstep
      exact Or.inr ⟨hstep, congrArg Kind.parse hr⟩
    | ok t =>
      rw [hword] at h
      refine Or.inl ⟨?_, kind_of_closed h⟩
      intro p' chars' hmode'
      cases hmode.symm.trans hmode'
      obtain ⟨a, ha, -⟩ := endWord_eq_ok hword
      exact ⟨a, ha⟩
  · rename_i hmode
    cases h
    exact Or.inl ⟨readable_of_mode (by simp [hmode]), rfl⟩
  · rename_i hmode
    cases h
    exact Or.inl ⟨readable_of_mode (by simp [hmode]), rfl⟩

theorem length_place_le (done : List Form) (layers : List Layer) (f : Form) :
    (place done layers f).2.length ≤ layers.length := by
  induction layers generalizing f with
  | nil => simp [place]
  | cons l layers ih =>
    cases l with
    | opened b p items => simp [place]
    | marked m p => exact Nat.le_succ_of_le (ih _)

/-- Between forms, whatever waits can be given what it waits for. -/
theorem exists_completed (p : Position) (done : List Form) (layers : List Layer) :
    ∃ cs fs, (Scan.mk p done layers .between).completed cs = .ok fs := by
  induction hn : layers.length using Nat.strongRecOn generalizing p done layers with
  | ind n ih =>
    cases layers with
    | nil => exact ⟨[], done, rfl⟩
    | cons l layers =>
      have hfewer (done : List Form) (f : Form) : (place done layers f).2.length < n := by
        have := length_place_le done layers f
        simp only [List.length_cons] at hn
        omega
      cases l with
      | opened b q items =>
        -- A closing bracket completes a form, which what is around it takes in.
        let f := Form.seq q b items.reverse
        obtain ⟨cs, fs, hcs⟩ := ih _ (hfewer done f) (p.next b.closing) (place done layers f).1
          (place done layers f).2 rfl
        refine ⟨b.closing :: cs, fs, ?_⟩
        rw [completed_cons, ← hcs]
        cases b <;> rfl
      | marked m q =>
        -- The form for a mark is an empty string.
        let f := Form.seq q .list [.atom q (.symbol m.head), .atom p (.str "")]
        obtain ⟨cs, fs, hcs⟩ := ih _ (hfewer done f) ((p.next '"').next '"')
          (place done layers f).1 (place done layers f).2 rfl
        refine ⟨'"' :: '"' :: cs, fs, ?_⟩
        rw [completed_cons, ← hcs]
        rfl

theorem exists_completed_of_string (p q : Position) (done : List Form) (layers : List Layer)
    (chars : List Char) :
    ∃ cs fs, (Scan.mk p done layers (.string q chars)).completed cs = .ok fs := by
  obtain ⟨cs, fs, hcs⟩ := exists_completed (p.next '"')
    (place done layers (.atom q (.str (String.ofList chars.reverse)))).1
    (place done layers (.atom q (.str (String.ofList chars.reverse)))).2
  refine ⟨'"' :: cs, fs, ?_⟩
  rw [completed_cons, ← hcs]
  rfl

/-- After a newline, a scan can be completed. -/
theorem exists_completed_newline (h : s.Readable) : ∃ cs fs, s.completed ('\n' :: cs) = .ok fs := by
  obtain ⟨p, done, layers, mode⟩ := s
  simp only [completed_cons]
  cases mode with
  | between => exact exists_completed _ done layers
  | comment => exact exists_completed _ done layers
  | tilde q => exact exists_completed _ done (.marked .unquote q :: layers)
  | word q chars =>
    obtain ⟨a, ha⟩ := h q chars rfl
    have hsettle : (Scan.mk p done layers (.word q chars)).settle '\n' =
        .ok ((Scan.mk p done layers (.word q chars)).deliver (.atom q a)) := by
      rw [settle_of_endsWord rfl (by decide), endWord, ha]
    rw [step_of_settle hsettle]
    exact exists_completed _ _ _
  | string q chars => exact exists_completed_of_string _ q done layers _
  | escape q chars => exact exists_completed_of_string _ q done layers _

end Scan

theorem readChars_eq_error {cs : List Char} {e : Fault} (h : readChars cs = .error e) :
    (Scan.start .start).feed cs = .error e ∨
      ∃ s, (Scan.start .start).feed cs = .ok s ∧ s.finish = .error e := by
  rw [readChars_eq_completed, Scan.completed] at h
  cases hfeed : (Scan.start .start).feed cs with
  | error e' =>
    rw [hfeed] at h
    cases h
    exact Or.inl rfl
  | ok s =>
    rw [hfeed] at h
    cases hfinish : s.finish with
    | error e' =>
      simp only [bind, Except.bind, hfinish, Except.map] at h
      cases h
      exact Or.inr ⟨s, rfl, hfinish⟩
    | ok t => simp [bind, Except.bind, hfinish, Except.map] at h

/-- Every fault of a text is one of reading, with the place where it was met and nothing else. -/
theorem fault_of_readAll {text : String} {e : Fault} (h : readAll text = .error e) :
    ∃ (r : ReadError) (p : Position), e = { cause := .read r, pos := some p } := by
  rcases readChars_eq_error h with hfeed | ⟨s, -, hfinish⟩
  · obtain ⟨-, t, -, -, r, -, he⟩ := Scan.exists_feed_of_error hfeed
    exact ⟨r, t.pos, he⟩
  · obtain ⟨r, he⟩ := Scan.fault_of_finish hfinish
    exact ⟨r, s.pos, he⟩

theorem readAll_append_newline (text more : String) :
    readAll (text ++ "\n" ++ more) =
      ((Scan.start .start).feed text.toList >>= fun s =>
        s.completed ('\n' :: more.toList)).map List.reverse := by
  rw [readAll, readChars_eq_completed, ← Scan.completed_append]
  simp

/-- If a text that cannot be read is incomplete, then some more text after a newline makes it one
that can be read. If it is not, then no text after a newline changes its fault. -/
theorem readAll_newline_of_error (text : String) (e : Fault) (h : readAll text = .error e) :
    (e.incomplete = true → ∃ more fs, readAll (text ++ "\n" ++ more) = .ok fs) ∧
      (e.incomplete = false → ∀ more, readAll (text ++ "\n" ++ more) = .error e) := by
  simp only [Fault.incomplete, beq_iff_eq, beq_eq_false_iff_ne, readAll_append_newline]
  rcases readChars_eq_error h with hfeed | ⟨s, hfeed, hfinish⟩
  · refine ⟨fun hkind => ?_, fun _ more => ?_⟩
    · cases (Scan.feed_eq_error hfeed).symm.trans hkind
    · rw [hfeed]
      rfl
  · rw [hfeed]
    rcases Scan.finish_eq_error hfinish with ⟨hreadable, hkind⟩ | ⟨hstep, hkind⟩
    · refine ⟨fun _ => ?_, fun hhard => absurd hkind hhard⟩
      obtain ⟨cs, fs, hcs⟩ := Scan.exists_completed_newline hreadable
      refine ⟨String.ofList cs, fs.reverse, ?_⟩
      change (s.completed ('\n' :: (String.ofList cs).toList)).map List.reverse = _
      rw [String.toList_ofList, hcs]
      rfl
    · refine ⟨fun hsoft => ?_, fun _ more => ?_⟩
      · cases hkind.symm.trans hsoft
      · change (s.completed ('\n' :: more.toList)).map List.reverse = _
        rw [Scan.completed_cons, hstep]
        rfl

/-- A mark and two brackets that wait can be completed, and a number that is none stays one. -/
theorem readAll_newline_of_error_waiting :
    (∃ more fs, readAll ("'([\"a" ++ "\n" ++ more) = .ok fs) ∧
      ∀ more, readAll ("(1x" ++ "\n" ++ more) =
        .error { cause := .read (.badNumber "1x"), pos := some ⟨1, 4, 3⟩ } :=
  ⟨(readAll_newline_of_error "'([\"a" _ rfl).1 rfl, (readAll_newline_of_error "(1x" _ rfl).2 rfl⟩

end Lisp.Source
