import Lisp.Source

/-!
# What a character can do to a scan

The ways in which a scan takes in a character, as rules. Whatever every rule keeps, reading a text
keeps, so facts about reading are proved rule by rule.
-/

namespace Lisp.Source

def startsWord (c : Char) : Bool := !endsWord c && c != '~'

def Mark.sign? : Mark → Option Char
  | .quote => some '\''
  | .template => some '\x60'
  | _ => none

namespace Scan

variable {s t : Scan} {c : Char}

/-- What the next character ends. -/
inductive Settles (s : Scan) (c : Char) : Scan → Prop where
  | stays :
    (∀ p chars, s.mode = .word p chars → endsWord c = false) →
      (∀ p, s.mode = .tilde p → c = '@') → Settles s c s
  | word (p : Position) (chars : List Char) (a : Atom) :
    s.mode = .word p chars → endsWord c = true → wordAtom? chars.reverse = some a →
      Settles s c (s.deliver (.atom p a))
  | tilde (p : Position) :
    s.mode = .tilde p → c ≠ '@' → Settles s c (s.await (.marked .unquote p))

/-- What the next character starts or goes on with. -/
inductive Absorbs (s : Scan) (c : Char) : Scan → Prop where
  | separator : s.mode = .between → isSeparator c = true → Absorbs s c s
  | startComment : s.mode = .between → c = ';' → Absorbs s c { s with mode := .comment }
  | mark (m : Mark) : s.mode = .between → m.sign? = some c → Absorbs s c (s.await (.marked m s.pos))
  | startTilde : s.mode = .between → c = '~' → Absorbs s c { s with mode := .tilde s.pos }
  | opening (b : Bracket) :
    s.mode = .between → c = b.opening → Absorbs s c (s.await (.opened b s.pos []))
  | closing (b : Bracket) (p : Position) (items : List Form) (rest : List Layer) :
    s.mode = .between → c = b.closing → s.layers = .opened b p items :: rest →
      Absorbs s c ({ s with layers := rest }.deliver (.seq p b items.reverse))
  | startString : s.mode = .between → c = '"' → Absorbs s c { s with mode := .string s.pos [] }
  | startWord :
    s.mode = .between → startsWord c = true → Absorbs s c { s with mode := .word s.pos [c] }
  | inComment : s.mode = .comment → c ≠ '\n' → Absorbs s c s
  | endComment : s.mode = .comment → c = '\n' → Absorbs s c { s with mode := .between }
  | splice (p : Position) : s.mode = .tilde p → Absorbs s c (s.await (.marked .splice p))
  | inWord (p : Position) (chars : List Char) :
    s.mode = .word p chars → Absorbs s c { s with mode := .word p (c :: chars) }
  | endString (p : Position) (chars : List Char) :
    s.mode = .string p chars → c = '"' →
      Absorbs s c (s.deliver (.atom p (.str (String.ofList chars.reverse))))
  | startEscape (p : Position) (chars : List Char) :
    s.mode = .string p chars → c = '\\' → Absorbs s c { s with mode := .escape p chars }
  | inString (p : Position) (chars : List Char) :
    s.mode = .string p chars → c ≠ '"' → c ≠ '\\' →
      Absorbs s c { s with mode := .string p (c :: chars) }
  | escaped (p : Position) (chars : List Char) :
    s.mode = .escape p chars → Absorbs s c { s with mode := .string p (unescape c :: chars) }

inductive Finishes (s : Scan) : Scan → Prop where
  | between : s.mode = .between → s.layers = [] → Finishes s s
  | comment : s.mode = .comment → s.layers = [] → Finishes s s
  | word (p : Position) (chars : List Char) (a : Atom) :
    s.mode = .word p chars → wordAtom? chars.reverse = some a →
      (s.deliver (.atom p a)).layers = [] → Finishes s (s.deliver (.atom p a))

theorem settles_of_settle (h : s.settle c = .ok t) : Settles s c t := by
  unfold settle at h
  split at h
  · rename_i p chars hmode
    split at h
    · rename_i hc
      unfold endWord at h
      split at h
      · rename_i a ha
        cases h
        exact .word p chars a hmode hc ha
      · cases h
    · rename_i hc
      cases h
      exact .stays (fun _ _ _ => by simpa using hc) (fun _ htilde => by simp [htilde] at hmode)
  · rename_i p hmode
    split at h
    · rename_i hc
      cases h
      exact .stays (fun _ _ hword => by simp [hword] at hmode) (fun _ _ => hc)
    · rename_i hc
      cases h
      exact .tilde p hmode hc
  · rename_i hword htilde
    cases h
    exact .stays (fun p chars hmode => absurd hmode (hword p chars))
      (fun p hmode => absurd hmode (htilde p))

theorem absorbs_of_close {b : Bracket} (hmode : s.mode = .between) (hc : c = b.closing)
    (h : s.close b = .ok t) : Absorbs s c t := by
  unfold close at h
  split at h
  · rename_i opener p items rest hlayers
    split at h
    · rename_i hopener
      cases h
      exact .closing b p items rest hmode hc (hopener ▸ hlayers)
    · cases h
  · cases h

theorem absorbs_of_begin (hmode : s.mode = .between) (h : s.begin c = .ok t) :
    Absorbs s c t := by
  unfold begin at h
  split at h
  · rename_i hsep
    cases h
    exact .separator hmode hsep
  · rename_i hsep
    split at h
    · cases h
      exact .startComment hmode rfl
    · cases h
      exact .mark .quote hmode rfl
    · cases h
      exact .mark .template hmode rfl
    · cases h
      exact .startTilde hmode rfl
    · cases h
      exact .opening .list hmode rfl
    · cases h
      exact .opening .vector hmode rfl
    · cases h
      exact .startString hmode rfl
    · exact absorbs_of_close hmode rfl h
    · exact absorbs_of_close hmode rfl h
    · cases h
      refine .startWord hmode ?_
      simp_all [startsWord, endsWord]

theorem absorbs_of_absorb (h : s.absorb c = .ok t) : Absorbs s c t := by
  unfold absorb at h
  split at h
  · rename_i hmode
    exact absorbs_of_begin hmode h
  · rename_i hmode
    cases h
    split
    · rename_i hc
      exact .endComment hmode hc
    · rename_i hc
      exact .inComment hmode hc
  · rename_i p hmode
    cases h
    exact .splice p hmode
  · rename_i p chars hmode
    cases h
    exact .inWord p chars hmode
  · rename_i p chars hmode
    split at h
    · rename_i hc
      cases h
      exact .endString p chars hmode hc
    · rename_i hquote
      split at h
      · rename_i hc
        cases h
        exact .startEscape p chars hmode hc
      · rename_i hslash
        cases h
        exact .inString p chars hmode hquote hslash
  · rename_i p chars hmode
    cases h
    exact .escaped p chars hmode

theorem closed_eq_ok (h : s.closed = .ok t) : t = s ∧ s.layers = [] := by
  unfold closed at h
  split at h
  · rename_i hlayers
    cases h
    exact ⟨rfl, hlayers⟩
  · cases h
  · cases h

theorem finishes_of_finish (h : s.finish = .ok t) : Finishes s t := by
  unfold finish at h
  split at h
  · rename_i hmode
    obtain ⟨rfl, hlayers⟩ := closed_eq_ok h
    exact .between hmode hlayers
  · rename_i hmode
    obtain ⟨rfl, hlayers⟩ := closed_eq_ok h
    exact .comment hmode hlayers
  · cases h
  · rename_i p chars hmode
    unfold endWord at h
    split at h
    · rename_i a ha
      obtain ⟨rfl, hlayers⟩ := closed_eq_ok h
      exact .word p chars a hmode ha hlayers
    · cases h
  · cases h
  · cases h

/-- A character is settled, absorbed and counted. -/
theorem step_eq_ok (h : s.step c = .ok t) :
    ∃ u v, s.settle c = .ok u ∧ u.absorb c = .ok v ∧ t = { v with pos := v.pos.next c } := by
  unfold step take at h
  cases hsettle : s.settle c with
  | error e => simp [hsettle, bind, Except.bind] at h
  | ok u =>
    cases habsorb : u.absorb c with
    | error e => simp [hsettle, habsorb, bind, Except.bind, Except.map] at h
    | ok v =>
      simp only [hsettle, habsorb, bind, Except.bind, Except.map, Except.ok.injEq] at h
      exact ⟨u, v, rfl, habsorb, h.symm⟩

/-- A word goes on only with characters that do not end it. -/
theorem Settles.not_endsWord {p : Position} {chars : List Char} (h : Settles s c t)
    (hmode : t.mode = .word p chars) : endsWord c = false := by
  cases h with
  | stays hword htilde => exact hword p chars hmode
  | word p chars a => cases hmode
  | tilde p => cases hmode

theorem Settles.pos_eq (h : Settles s c t) : t.pos = s.pos := by
  cases h <;> rfl

theorem Absorbs.pos_eq (h : Absorbs s c t) : t.pos = s.pos := by
  cases h <;> rfl

theorem pos_step (h : s.step c = .ok t) : t.pos = s.pos.next c := by
  obtain ⟨u, v, hsettle, habsorb, rfl⟩ := step_eq_ok h
  rw [(absorbs_of_absorb habsorb).pos_eq, (settles_of_settle hsettle).pos_eq]

theorem feed_cons_eq_ok {cs : List Char} (h : s.feed (c :: cs) = .ok t) :
    ∃ u, s.step c = .ok u ∧ u.feed cs = .ok t := by
  rw [feed_cons] at h
  cases hstep : s.step c with
  | error e => simp [hstep, bind, Except.bind] at h
  | ok u =>
    rw [hstep] at h
    exact ⟨u, rfl, h⟩

/-- What every step keeps, reading a text keeps. -/
theorem feed_induction {P : Scan → Prop} (hstep : ∀ s c t, P s → s.step c = .ok t → P t)
    {cs : List Char} (hs : P s) (h : s.feed cs = .ok t) : P t := by
  induction cs generalizing s with
  | nil =>
    cases h
    exact hs
  | cons c cs ih =>
    obtain ⟨u, hnext, hrest⟩ := feed_cons_eq_ok h
    exact ih (hstep s c u hs hnext) hrest

/-- The place of a scan counts the characters that it has read. -/
theorem pos_feed {cs : List Char} (h : s.feed cs = .ok t) :
    t.pos = cs.foldl Position.next s.pos := by
  induction cs generalizing s with
  | nil =>
    cases h
    rfl
  | cons c cs ih =>
    obtain ⟨u, hstep, hrest⟩ := feed_cons_eq_ok h
    rw [ih hrest, pos_step hstep, List.foldl_cons]

end Scan

/-- A text that can be read was read by a scan that could end there. -/
theorem readChars_eq_ok {cs : List Char} {fs : List Form} (h : readChars cs = .ok fs) :
    ∃ s t, (Scan.start .start).feed cs = .ok s ∧ s.finish = .ok t ∧ fs = t.done.reverse := by
  rw [readChars] at h
  cases hfeed : (Scan.start .start).feed cs with
  | error e => simp [hfeed, bind, Except.bind] at h
  | ok s =>
    cases hfinish : s.finish with
    | error e => simp [hfeed, hfinish, bind, Except.bind] at h
    | ok t =>
      simp only [hfeed, hfinish, bind, Except.bind, pure, Except.pure, Except.ok.injEq] at h
      exact ⟨s, t, rfl, hfinish, h.symm⟩

end Lisp.Source
