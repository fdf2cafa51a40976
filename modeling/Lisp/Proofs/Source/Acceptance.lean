import Lisp.Proofs.Source.Grammar

/-!
# What the rules derive is read

A text that the rules derive is read as the forms that they give, wherever a form may start and
whatever follows it. The induction is on the derivation, with one lemma for each rule.
-/

namespace Lisp.Source

namespace Scan

variable {s : Scan} {p : Position} {chars cs after : List Char}

/-- Hands complete forms to what waits for them, one after another. -/
def deliverAll (s : Scan) (fs : List Form) : Scan := fs.foldl deliver s

theorem mode_deliverAll (h : s.mode = .between) (fs : List Form) :
    (s.deliverAll fs).mode = .between := by
  induction fs generalizing s with
  | nil => exact h
  | cons f fs ih => exact ih rfl

theorem deliverAll_pos (s : Scan) (fs : List Form) (p : Position) :
    { s with pos := p }.deliverAll fs = { s.deliverAll fs with pos := p } := by
  induction fs generalizing s with
  | nil => rfl
  | cons f fs ih => exact ih (s.deliver f)

theorem deliverAll_opened (p q : Position) (done items fs : List Form) (layers : List Layer)
    (b : Bracket) :
    (Scan.mk p done (.opened b q items :: layers) .between).deliverAll fs =
      ⟨p, done, .opened b q (fs.reverse ++ items) :: layers, .between⟩ := by
  induction fs generalizing items with
  | nil => rfl
  | cons f fs ih =>
    refine (ih (f :: items)).trans ?_
    simp

theorem feed_of_spells {text : List Char} (hcs : Spells cs text) (hmode : s.mode = .string p chars) :
    s.feed cs = .ok { s with
      pos := cs.foldl Position.next s.pos, mode := .string p (text.reverse ++ chars) } := by
  induction hcs generalizing s chars with
  | nil => simp [← hmode]
  | plain hquote hslash _ ih =>
    rw [feed_cons, step_of_isOrdinary hmode ⟨hquote, hslash⟩]
    refine (ih rfl).trans ?_
    simp
  | @escaped c cs text _ ih =>
    change s.feed (['\\', c] ++ cs) = _
    rw [feed_append, feed_backslash hmode]
    refine (ih rfl).trans ?_
    simp

theorem feed_of_comment (hmode : s.mode = .comment) (hcs : '\n' ∉ cs) :
    s.feed cs = .ok { s with pos := cs.foldl Position.next s.pos } := by
  induction cs generalizing s with
  | nil => rfl
  | cons c cs ih =>
    obtain ⟨hc, hcs⟩ : c ≠ '\n' ∧ '\n' ∉ cs := by simpa [eq_comm] using hcs
    rw [feed_cons, step_of_comment hmode, if_neg hc]
    refine (ih rfl hcs).trans ?_
    simp [hmode]

/-- Where a comment is over, going on is going on after it. -/
theorem completed_of_comment (hmode : s.mode = .comment) (h : ∀ c ∈ after.head?, c = '\n') :
    s.completed after = { s with mode := .between }.completed after := by
  cases after with
  | nil =>
    rw [completed_nil, completed_nil, finish, finish, hmode]
    unfold closed
    cases s.layers with
    | nil => rfl
    | cons l layers => cases l <;> rfl
  | cons c after =>
    obtain rfl := h c (by simp)
    rw [completed_cons, completed_cons, step_of_comment hmode, step_of_isSeparator rfl (by decide)]
    rfl

/-- A mark makes the scan wait for a form. -/
theorem completed_mark (hmode : s.mode = .between) (m : Mark)
    (h : m = .unquote → after.head? ≠ some '@') :
    s.completed (m.text ++ after) =
      ({ s with pos := m.text.foldl Position.next s.pos }.await (.marked m s.pos)).completed
        after := by
  obtain ⟨p, done, layers, mode⟩ := s
  cases hmode
  cases m with
  | quote => rfl
  | template => rfl
  | splice => rfl
  | unquote =>
    change Scan.completed ⟨p.next '~', done, layers, .tilde p⟩ after = _
    cases after with
    | nil => rfl
    | cons c after =>
      have hc : c ≠ '@' := by simpa using h rfl
      have hsettle : (Scan.mk (p.next '~') done layers (.tilde p)).settle c =
          .ok ⟨p.next '~', done, .marked .unquote p :: layers, .between⟩ := if_neg hc
      rw [completed_of_settle hsettle]
      exact (completed_of_settle (settle_of_between rfl c) after).symm

end Scan

/-- A text that is read, where `after` follows, as one form for a value. -/
def ReadsForm (cs after : List Char) (v : Value) : Prop :=
  ∀ s : Scan, s.mode = .between → ∃ f p, f.toValue = v ∧
    s.completed (cs ++ after) = ({ s with pos := p }.deliver f).completed after

/-- A text that is read, where `after` follows, as forms for some values. -/
def ReadsForms (cs after : List Char) (vs : List Value) : Prop :=
  ∀ s : Scan, s.mode = .between → ∃ fs p, fs.map Form.toValue = vs ∧
    s.completed (cs ++ after) = ({ s with pos := p }.deliverAll fs).completed after

variable {cs ds after blanks text : List Char} {vs ws : List Value} {v : Value}

theorem readsForm_word {a : Atom} (hcs : IsWord cs) (hafter : EndsWord after)
    (ha : StandsFor cs a) : ReadsForm cs after (.atom a) := by
  intro s hmode
  obtain ⟨f, p, hf, hread⟩ := readsAs_word hcs (wordAtom?_eq_some_iff.mpr ha) s hmode
  exact ⟨f, p, hf, hread after hafter⟩

theorem readsForm_string (h : Spells cs text) :
    ReadsForm ('"' :: (cs ++ ['"'])) after (.str (String.ofList text)) := by
  rintro ⟨p, done, layers, mode⟩ ⟨⟩
  refine ⟨.atom p (.str (String.ofList text)),
    (cs.foldl Position.next (p.next '"')).next '"', by rw [Form.toValue], ?_⟩
  rw [List.cons_append, List.append_assoc, Scan.completed_cons]
  change (Scan.mk (p.next '"') done layers (.string p [])).completed (cs ++ '"' :: after) = _
  rw [Scan.completed_append, Scan.feed_of_spells h rfl]
  change Scan.completed _ ('"' :: after) = _
  rw [Scan.completed_cons, List.append_nil]
  simp [Scan.step, Scan.settle, Scan.take, Scan.absorb, Except.map, bind, Except.bind, Scan.deliver]

theorem readsForm_seq (b : Bracket) (h : ReadsForms cs (b.closing :: after) vs) :
    ReadsForm (b.opening :: (cs ++ [b.closing])) after (.seq b vs) := by
  rintro s hmode
  obtain ⟨fs, p, hfs, hitems⟩ := h
    ⟨s.pos.next b.opening, s.done, .opened b s.pos [] :: s.layers, .between⟩ rfl
  refine ⟨.seq s.pos b fs, p.next b.closing, ?_, ?_⟩
  · rw [Form.toValue, Form.toValues_eq_map, hfs]
  · rw [List.cons_append, List.append_assoc, Scan.completed_cons, step_opening hmode]
    refine hitems.trans ?_
    rw [Scan.deliverAll_opened, Scan.completed_cons, step_closing, List.append_nil,
      List.reverse_reverse]
    rfl

theorem readsForm_marked (m : Mark) (hblanks : ReadsForms blanks (cs ++ after) [])
    (hcs : ReadsForm cs after v)
    (hm : m = .unquote → (blanks ++ (cs ++ after)).head? ≠ some '@') :
    ReadsForm (m.text ++ (blanks ++ cs)) after (.list [.symbol m.head, v]) := by
  intro s hmode
  obtain ⟨fs, p, hfs, hskip⟩ := hblanks
    ({ s with pos := m.text.foldl Position.next s.pos }.await (.marked m s.pos)) rfl
  obtain rfl := List.map_eq_nil_iff.mp hfs
  obtain ⟨f, q, hf, hread⟩ := hcs ({ s with pos := p }.await (.marked m s.pos)) rfl
  refine ⟨.seq s.pos .list [.atom s.pos (.symbol m.head), f], q, ?_, ?_⟩
  · simp [Form.toValue, Form.toValues, hf]
  · rw [List.append_assoc, List.append_assoc, Scan.completed_mark hmode m hm]
    exact hskip.trans hread

theorem readsForms_separator {c : Char} (hc : isSeparator c = true) :
    ReadsForms [c] after [] := by
  intro s hmode
  refine ⟨[], s.pos.next c, rfl, ?_⟩
  rw [List.singleton_append, Scan.completed_cons, Scan.step_of_isSeparator hmode hc]
  rfl

theorem readsForms_comment (hcs : '\n' ∉ cs) (hafter : ∀ c ∈ after.head?, c = '\n') :
    ReadsForms (';' :: cs) after [] := by
  rintro ⟨p, done, layers, mode⟩ ⟨⟩
  refine ⟨[], cs.foldl Position.next (p.next ';'), rfl, ?_⟩
  rw [List.cons_append, Scan.completed_cons]
  change (Scan.mk (p.next ';') done layers .comment).completed (cs ++ after) = _
  rw [Scan.completed_append, Scan.feed_of_comment rfl hcs]
  exact Scan.completed_of_comment rfl hafter

theorem readsForms_form (h : ReadsForm cs after v) : ReadsForms cs after [v] := by
  intro s hmode
  obtain ⟨f, p, hf, hread⟩ := h s hmode
  exact ⟨[f], p, by simp [hf], hread⟩

theorem readsForms_append (hcs : ReadsForms cs (ds ++ after) vs) (hds : ReadsForms ds after ws) :
    ReadsForms (cs ++ ds) after (vs ++ ws) := by
  intro s hmode
  obtain ⟨fs, p, hfs, hfirst⟩ := hcs s hmode
  obtain ⟨gs, q, hgs, hsecond⟩ := hds _ (Scan.mode_deliverAll (s := { s with pos := p }) hmode fs)
  refine ⟨fs ++ gs, q, by simp [hfs, hgs], ?_⟩
  rw [List.append_assoc, hfirst, hsecond, ← Scan.deliverAll_pos]
  simp [Scan.deliverAll]

mutual

theorem IsForm.readsForm : ∀ {cs after : List Char} {v : Value},
    IsForm cs after v → ReadsForm cs after v
  | _, _, _, .word hcs hafter ha => readsForm_word hcs hafter ha
  | _, _, _, .string h => readsForm_string h
  | _, _, _, .seq b h => readsForm_seq b h.readsForms
  | _, _, _, .marked m hblanks h hm => readsForm_marked m hblanks.readsForms h.readsForm hm

theorem AreForms.readsForms : ∀ {cs after : List Char} {vs : List Value},
    AreForms cs after vs → ReadsForms cs after vs
  | _, _, _, .nil => fun s _ => ⟨[], s.pos, rfl, rfl⟩
  | _, _, _, .separator hc => readsForms_separator hc
  | _, _, _, .comment hcs hafter => readsForms_comment hcs hafter
  | _, _, _, .form h => readsForms_form h.readsForm
  | _, _, _, .append h h' => readsForms_append h.readsForms h'.readsForms

end

end Lisp.Source
