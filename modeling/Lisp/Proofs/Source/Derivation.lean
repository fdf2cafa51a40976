import Lisp.Proofs.Source.Acceptance
import Lisp.Proofs.Source.Places

/-!
# What is read is derived

What a scan has read at any time is a derivation that lacks its end: a text of complete forms, then
for each layer an opening bracket or a mark with what followed it, and then what the scan is in the
middle of. Everything in it stands at its place. Every character keeps this, if the rules may look at
the characters still to come. So the reader accepts exactly the texts that the rules derive, with the
same forms.
-/

namespace Lisp.Source

variable {cs ds after blanks text : List Char}

/-- The text `cs` was read by a scan that is between forms, where `after` still follows. Each layer
has a text of its own, which lacks its end. -/
inductive Pending : List Char → List Char → List Form → List Layer → Prop where
  | nil {cs after : List Char} {done : List Form} :
    FormsAt [] cs after done.reverse → Pending after cs done []
  | opened {cs inner after : List Char} {done items : List Form} {layers : List Layer}
    (b : Bracket) :
    Pending (b.opening :: (inner ++ after)) cs done layers →
      FormsAt (cs ++ [b.opening]) inner after items.reverse →
      Pending after (cs ++ b.opening :: inner) done (.opened b (.after cs) items :: layers)
  | marked {cs blanks after : List Char} {done : List Form} {layers : List Layer} (m : Mark) :
    Pending (m.text ++ (blanks ++ after)) cs done layers →
      FormsAt (cs ++ m.text) blanks after [] →
      (m = .unquote → (blanks ++ after).head? ≠ some '@') →
      Pending after (cs ++ (m.text ++ blanks)) done (.marked m (.after cs) :: layers)

namespace Pending

variable {done : List Form} {layers : List Layer} {f : Form}

theorem blank (h : Pending (blanks ++ after) cs done layers)
    (hblanks : FormsAt cs blanks after []) : Pending after (cs ++ blanks) done layers := by
  cases h with
  | nil h => exact .nil (List.append_nil done.reverse ▸ h.append hblanks)
  | @opened cs inner _ _ items _ b h hinner =>
    rw [List.append_assoc, List.cons_append]
    refine .opened b (by rwa [List.append_assoc]) ?_
    refine List.append_nil items.reverse ▸ hinner.append ?_
    simpa using hblanks
  | @marked cs gap _ _ _ m h hgap hm =>
    rw [List.append_assoc, List.append_assoc]
    refine .marked m (by rwa [List.append_assoc]) (hgap.append ?_) ?_
    · simpa using hblanks
    · rwa [List.append_assoc]

/-- A form goes through the marks before it to the bracket, or to the text, that it stands in. -/
theorem deliver (h : Pending (text ++ after) cs done layers) (hf : FormAt cs text after f) :
    Pending after (cs ++ text) (Scan.place done layers f).1 (Scan.place done layers f).2 := by
  induction layers generalizing cs text f with
  | nil =>
    cases h with
    | nil h =>
      refine .nil ?_
      rw [Scan.place, List.reverse_cons]
      exact h.append (.form hf)
  | cons l layers ih =>
    cases h with
    | @opened cs inner _ _ items _ b h hinner =>
      rw [List.append_assoc, List.cons_append]
      refine .opened b (by rwa [List.append_assoc]) ?_
      rw [List.reverse_cons]
      refine hinner.append (.form ?_)
      simpa using hf
    | @marked cs gap _ _ _ m h hgap hm =>
      rw [List.append_assoc, List.append_assoc]
      exact ih (by simpa only [List.append_assoc] using h) (.marked m hgap hf hm)

end Pending

inductive Begun (before : List Char) : Mode → List Char → Prop where
  | between : Begun before .between []
  | comment {cs : List Char} : '\n' ∉ cs → Begun before .comment (';' :: cs)
  | tilde : Begun before (.tilde (.after before)) ['~']
  | word {chars : List Char} :
    IsWord chars.reverse → Begun before (.word (.after before) chars) chars.reverse
  | string {cs chars : List Char} :
    Spells cs chars.reverse → Begun before (.string (.after before) chars) ('"' :: cs)
  | escape {cs chars : List Char} :
    Spells cs chars.reverse → Begun before (.escape (.after before) chars) ('"' :: (cs ++ ['\\']))

namespace Scan

inductive HasRead (after : List Char) : List Char → Scan → Prop where
  | intro {before begun : List Char} {s : Scan} :
    Pending (begun ++ after) before s.done s.layers → Begun before s.mode begun →
      HasRead after (before ++ begun) s

variable {s t : Scan} {c : Char}

theorem HasRead.pos (h : HasRead after cs s) (p : Position) :
    HasRead after cs { s with pos := p } := by
  cases h with
  | intro hpending hbegun => exact .intro hpending hbegun

theorem HasRead.of_pending (hmode : s.mode = .between) (h : Pending after cs s.done s.layers) :
    HasRead after cs s := by
  have hbegun : Begun cs s.mode [] := hmode ▸ .between
  exact List.append_nil cs ▸ .intro h hbegun

theorem HasRead.pending (h : HasRead after cs s) (hmode : s.mode = .between) :
    Pending after cs s.done s.layers := by
  obtain ⟨hpending, hbegun⟩ := h
  rw [hmode] at hbegun
  cases hbegun
  rwa [List.append_nil]

/-- A character that starts something after what is complete. -/
theorem HasRead.start (h : HasRead (c :: after) cs s) (hmode : s.mode = .between) {m : Mode}
    (hm : Begun cs m [c]) : HasRead after (cs ++ [c]) { s with mode := m } :=
  .intro (h.pending hmode) hm

/-- A character that goes on with what was begun. -/
theorem HasRead.goOn (h : HasRead (c :: after) cs s) {m : Mode}
    (hm : ∀ before begun, Begun before s.mode begun → Begun before m (begun ++ [c])) :
    HasRead after (cs ++ [c]) { s with mode := m } := by
  obtain ⟨hpending, hbegun⟩ := h
  rw [List.append_assoc]
  exact .intro (by rwa [List.append_assoc]) (hm _ _ hbegun)

theorem hasRead_deliver {f : Form} (h : Pending (text ++ after) cs s.done s.layers)
    (hf : FormAt cs text after f) : HasRead after (cs ++ text) (s.deliver f) :=
  .of_pending rfl (h.deliver hf)

theorem hasRead_endWord {p : Position} {chars : List Char} {a : Atom} (h : HasRead after cs s)
    (hmode : s.mode = .word p chars) (hafter : EndsWord after)
    (ha : wordAtom? chars.reverse = some a) : HasRead after cs (s.deliver (.atom p a)) := by
  obtain ⟨hpending, hbegun⟩ := h
  rw [hmode] at hbegun
  cases hbegun with
  | word hword =>
    exact hasRead_deliver hpending (.word hword hafter (wordAtom?_eq_some_iff.mp ha))

/-- A comment that is over is blank. -/
theorem HasRead.pending_of_comment (h : HasRead after cs s) (hmode : s.mode = .comment)
    (hafter : ∀ c ∈ after.head?, c = '\n') : Pending after cs s.done s.layers := by
  obtain ⟨hpending, hbegun⟩ := h
  rw [hmode] at hbegun
  cases hbegun with
  | comment hcs => exact hpending.blank (.comment hcs hafter)

theorem Settles.hasRead (hs : Settles s c t) (h : HasRead (c :: after) cs s) :
    HasRead (c :: after) cs t := by
  cases hs with
  | stays => exact h
  | word p chars a hmode hc ha =>
    refine hasRead_endWord h hmode ?_ ha
    rintro d ⟨⟩
    exact hc
  | tilde p hmode hc =>
    obtain ⟨hpending, hbegun⟩ := h
    rw [hmode] at hbegun
    cases hbegun
    refine .of_pending rfl (.marked .unquote hpending .nil fun _ => ?_)
    simpa using hc

theorem Settles.eq_at {p : Position} (hs : Settles s c t) (hmode : t.mode = .tilde p) :
    c = '@' := by
  cases hs with
  | stays _ htilde => exact htilde p hmode
  | word p chars a => cases hmode
  | tilde p => cases hmode

theorem Absorbs.hasRead (ha : Absorbs s c t) (h : HasRead (c :: after) cs s)
    (hpos : s.pos = .after cs)
    (hword : ∀ p chars, s.mode = .word p chars → endsWord c = false)
    (htilde : ∀ p, s.mode = .tilde p → c = '@') : HasRead after (cs ++ [c]) t := by
  cases ha with
  | separator hmode hc => exact .of_pending hmode ((h.pending hmode).blank (.separator hc))
  | startComment hmode hc =>
    subst hc
    exact h.start hmode (.comment nofun)
  | mark m hmode hm =>
    have htext := Mark.text_of_sign? hm
    have hpending : Pending (m.text ++ ([] ++ after)) cs s.done s.layers := htext ▸ h.pending hmode
    have hm' : m ≠ .unquote := by
      rintro rfl
      cases hm
    have hread : HasRead after (cs ++ (m.text ++ [])) (s.await (.marked m s.pos)) := by
      rw [hpos]
      exact .of_pending rfl (.marked m hpending .nil fun h => absurd h hm')
    rwa [List.append_nil, htext] at hread
  | startTilde hmode hc =>
    subst hc
    have hbegun : Begun cs (.tilde s.pos) ['~'] := hpos ▸ .tilde
    exact h.start hmode hbegun
  | opening b hmode hc =>
    subst hc
    rw [hpos]
    exact .of_pending rfl (.opened b (h.pending hmode) .nil)
  | closing b p items rest hmode hc hlayers =>
    subst hc
    have hpending := h.pending hmode
    rw [hlayers] at hpending
    cases hpending with
    | opened b hpending hinner =>
      rw [List.append_assoc, List.cons_append]
      exact hasRead_deliver (s := { s with layers := rest }) (by simpa using hpending)
        (.seq b hinner)
  | startString hmode hc =>
    subst hc
    have hbegun : Begun cs (.string s.pos []) ['"'] := hpos ▸ .string .nil
    exact h.start hmode hbegun
  | startWord hmode hc =>
    have hbegun : Begun cs (.word s.pos [c]) [c] := hpos ▸ .word (isWord_singleton hc)
    exact h.start hmode hbegun
  | inComment hmode hc =>
    refine h.goOn (m := s.mode) fun _ begun hbegun => ?_
    rw [hmode] at hbegun ⊢
    cases hbegun with
    | comment hcs => exact .comment (by simpa [eq_comm] using ⟨hcs, hc⟩)
  | endComment hmode hc =>
    subst hc
    have hpending := h.pending_of_comment hmode (by simp)
    exact .of_pending rfl (hpending.blank (.separator (by decide)))
  | splice p hmode =>
    obtain rfl := htilde p hmode
    obtain ⟨hpending, hbegun⟩ := h
    rw [hmode] at hbegun
    cases hbegun
    rw [List.append_assoc]
    exact .of_pending rfl (.marked .splice hpending .nil nofun)
  | inWord p chars hmode =>
    have hc := hword p chars hmode
    refine h.goOn fun _ begun hbegun => ?_
    rw [hmode] at hbegun
    cases hbegun with
    | word hchars =>
      have hlonger := hchars.concat hc
      rw [← List.reverse_cons] at hlonger ⊢
      exact .word hlonger
  | endString p chars hmode hc =>
    subst hc
    obtain ⟨hpending, hbegun⟩ := h
    rw [hmode] at hbegun
    cases hbegun with
    | string hchars =>
      rw [List.append_assoc, List.cons_append]
      exact hasRead_deliver (by simpa using hpending) (.string hchars)
  | startEscape p chars hmode hc =>
    subst hc
    refine h.goOn fun _ begun hbegun => ?_
    rw [hmode] at hbegun
    cases hbegun with
    | string hchars => exact .escape hchars
  | inString p chars hmode hquote hslash =>
    refine h.goOn fun _ begun hbegun => ?_
    rw [hmode] at hbegun
    cases hbegun with
    | string hchars =>
      refine .string ?_
      rw [List.reverse_cons]
      exact hchars.append (.plain hquote hslash .nil)
  | escaped p chars hmode =>
    refine h.goOn fun _ begun hbegun => ?_
    rw [hmode] at hbegun
    cases hbegun with
    | escape hchars =>
      rw [List.cons_append, List.append_assoc]
      refine .string ?_
      rw [List.reverse_cons]
      exact hchars.append (.escaped c .nil)

theorem hasRead_step (hs : HasRead (c :: after) cs s) (hpos : s.pos = .after cs)
    (h : s.step c = .ok t) : HasRead after (cs ++ [c]) t := by
  obtain ⟨u, v, hsettle, habsorb, rfl⟩ := step_eq_ok h
  have hsettles := settles_of_settle hsettle
  refine HasRead.pos ?_ _
  exact (absorbs_of_absorb habsorb).hasRead (hsettles.hasRead hs) (hsettles.pos_eq.trans hpos)
    (fun p chars hmode => hsettles.not_endsWord hmode) fun p hmode => hsettles.eq_at hmode

theorem hasRead_feed (hs : HasRead (ds ++ after) cs s) (hpos : s.pos = .after cs)
    (h : s.feed ds = .ok t) : HasRead after (cs ++ ds) t := by
  induction ds generalizing cs s with
  | nil =>
    cases h
    rwa [List.append_nil]
  | cons c ds ih =>
    obtain ⟨u, hstep, hrest⟩ := feed_cons_eq_ok h
    have hnext : u.pos = .after (cs ++ [c]) := by
      rw [pos_step hstep, hpos, Position.after_concat]
    have hread := ih (hasRead_step hs hpos hstep) hnext hrest
    rwa [List.append_assoc] at hread

theorem Finishes.pending (h : Finishes s t) (hs : HasRead [] cs s) :
    t.layers = [] ∧ Pending [] cs t.done t.layers := by
  cases h with
  | between hmode hlayers => exact ⟨hlayers, hs.pending hmode⟩
  | comment hmode hlayers => exact ⟨hlayers, hs.pending_of_comment hmode nofun⟩
  | word p chars a hmode ha hlayers =>
    exact ⟨hlayers, (hasRead_endWord hs hmode nofun ha).pending rfl⟩

end Scan

/-- The forms that are read stand at their places. -/
theorem formsAt_of_readChars {fs : List Form} (h : readChars cs = .ok fs) :
    FormsAt [] cs [] fs := by
  obtain ⟨s, t, hfeed, hfinish, rfl⟩ := readChars_eq_ok h
  have hstart : Scan.HasRead (cs ++ []) [] (.start .start) := .of_pending rfl (.nil .nil)
  obtain ⟨hlayers, hpending⟩ :=
    (Scan.finishes_of_finish hfinish).pending (Scan.hasRead_feed hstart rfl hfeed)
  rw [hlayers] at hpending
  cases hpending with
  | nil h => exact h

end Lisp.Source
