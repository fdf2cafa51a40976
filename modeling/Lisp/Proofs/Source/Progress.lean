import Lisp.Proofs.Source.Descent
import Lisp.Proofs.Source.Grammar
import Lisp.Proofs.Source.Lines

/-!
# Reading moves on

Every form takes at least one character of the text, and none that is not there. Blanks and
comments are passed up to the end or to a character that is neither, and a word has at least the
character that it starts with. So reading comes to an end on every text.
-/

namespace Lisp.Source

theorem Scan.pos_take {s t : Scan} {c : Char} (h : s.take c = .ok t) : t.pos = s.pos.next c := by
  unfold take at h
  cases habsorb : s.absorb c with
  | error e => simp [habsorb, Except.map] at h
  | ok u =>
    simp only [habsorb, Except.map, Except.ok.injEq] at h
    rw [← h, (absorbs_of_absorb habsorb).pos_eq]

theorem Scan.Finishes.pos_eq {s t : Scan} (h : Finishes s t) : t.pos = s.pos := by
  cases h <;> rfl

/-- The place where a form ends counts the characters that were read for it. -/
theorem Scan.index_of_run {s : Scan} {cs : List Char} {f : Form} {left : Cursor}
    (h : s.run cs = .form f left) :
    left.pos.index + left.rest.length = s.pos.index + cs.length := by
  induction cs generalizing s with
  | nil =>
    unfold Scan.run at h
    split at h
    · cases h
      rfl
    · simp only at h
      split at h
      · cases h
      · rename_i t hfinish
        split at h <;> cases h
        rw [(finishes_of_finish hfinish).pos_eq]
  | cons c cs ih =>
    unfold Scan.run at h
    split at h
    · cases h
      rfl
    · simp only at h
      split at h
      · cases h
      · rename_i t hsettle
        have hpos := (settles_of_settle hsettle).pos_eq
        split at h
        · cases h
          rw [hpos]
        · split at h
          · cases h
          · rename_i u htake
            rw [ih h, pos_take htake, Position.index_next, hpos, List.length_cons]
            omega

/-- A comment goes on to the end of its line. -/
theorem areForms_comment (cs : List Char) :
    AreForms (';' :: cs.takeWhile (· != '\n')) (cs.dropWhile (· != '\n')) [] := by
  refine .comment (fun hmem => ?_) fun c hc => ?_
  · simpa using List.all_eq_true.mp List.all_takeWhile _ hmem
  · have hhead := List.head?_dropWhile_not (· != '\n') cs
    rw [Option.mem_def.mp hc] at hhead
    simpa using hhead

namespace Cursor

/-- What is skipped between forms: separators and comments. -/
theorem exists_blanks (p : Position) (cs : List Char) :
    ∃ blanks, cs = blanks ++ (skipBlanks false p cs).rest ∧
      (skipBlanks false p cs).pos = blanks.foldl Position.next p ∧
      AreForms blanks (skipBlanks false p cs).rest [] := by
  -- a comment takes many characters at once, so the induction is on how many are left
  generalize hlength : cs.length = n
  induction n using Nat.strongRecOn generalizing p cs with
  | _ n ih =>
    cases cs with
    | nil => exact ⟨[], rfl, rfl, .nil⟩
    | cons c cs =>
      rw [List.length_cons] at hlength
      rw [skipBlanks, if_neg (by decide)]
      split
      · rename_i hsep
        obtain ⟨blanks, hcs, hpos, hblanks⟩ := ih cs.length (by omega) (p.next c) cs rfl
        refine ⟨c :: blanks, congrArg (c :: ·) hcs, hpos, ?_⟩
        exact .append (.separator hsep) hblanks
      · split
        · rename_i hsemicolon
          subst hsemicolon
          rw [skipBlanks_comment]
          have hshorter := (List.dropWhile_suffix (l := cs) (· != '\n')).length_le
          obtain ⟨blanks, hcs, hpos, hblanks⟩ :=
            ih (cs.dropWhile (· != '\n')).length (by omega)
              ((cs.takeWhile (· != '\n')).foldl Position.next (p.next ';')) _ rfl
          refine ⟨';' :: cs.takeWhile (· != '\n') ++ blanks, ?_, ?_, ?_⟩
          · rw [List.append_assoc, ← hcs, List.cons_append, List.takeWhile_append_dropWhile]
          · rw [hpos, List.foldl_append, List.foldl_cons]
          · exact .append (hcs ▸ areForms_comment cs) hblanks
        · exact ⟨[], rfl, rfl, .nil⟩

/-- The place after a form counts the characters that were taken. -/
theorem index_of_next {cur left : Cursor} {f : Form} (h : cur.next = .form f left) :
    left.pos.index + left.rest.length = cur.pos.index + cur.rest.length := by
  obtain ⟨blanks, hrest, hpos, -⟩ := exists_blanks cur.pos cur.rest
  have hindex := (Position.foldl_next cur.pos blanks).2
  rw [← hpos] at hindex
  have hlength := congrArg List.length hrest
  rw [List.length_append] at hlength
  unfold next at h
  simp only at h
  split at h
  · cases h
  · rename_i c cs hc
    rw [hc, List.length_cons] at hlength
    split at h
    · cases h
    · rename_i s htake
      rw [Scan.index_of_run h, Scan.pos_take htake, Position.index_next]
      simp only [Scan.start]
      omega

end Cursor

namespace Descent

variable {text : Descent} {p q : Position}

/-- Going over some characters of a text leads from one place to another. -/
structure Passes (text : Descent) (p : Position) (cs : List Char) (q : Position) : Prop where
  drop_eq : text.drop p.index = cs ++ text.drop q.index
  pos_eq : q = cs.foldl Position.next p

/-- Skipping leads from one place to another: only over separators and comments, up to the end or to
a character that starts neither. Skipping again changes nothing. -/
structure Skips (text : Descent) (p q : Position) : Prop where
  skipBlanks_eq : skipBlanks text p = some q
  passes : ∃ blanks, Passes text p blanks q ∧ AreForms blanks (text.drop q.index) []
  stops : atEnd text q = true ∨ ∃ c, current text q = some c ∧ isSeparator c = false ∧ c ≠ ';'
  again : skipBlanks text q = some q

theorem exists_skips (text : Descent) (p : Position) : ∃ q, Skips text p q := by
  obtain ⟨q, hq, hcursor⟩ := skipBlanks_eq text p
  have hunblank := unblank_of_skipBlanks hcursor
  refine ⟨q, hq, ?_, ?_, ?_⟩
  · obtain ⟨blanks, hrest, hpos, hblanks⟩ := Cursor.exists_blanks p (text.drop p.index)
    rw [hcursor] at hrest hpos hblanks
    exact ⟨blanks, ⟨hrest, hpos⟩, hblanks⟩
  · obtain ⟨-, hend⟩ | ⟨c, hc, -, hcurrent, -⟩ := place_cases text q
    · exact Or.inl hend
    · exact Or.inr ⟨c, hcurrent, hunblank c (by rw [hc]; rfl)⟩
  · obtain ⟨r, hr, hagain⟩ := skipBlanks_eq text q
    cases hunblank.skipBlanks_eq.symm.trans hagain
    exact hr

/-- A word has all characters up to one that ends words. -/
theorem wordChars_eq_takeWhile (text : Descent) (chars : List Char) (p : Position) :
    ∃ q, wordChars text chars p =
        some (((text.drop p.index).takeWhile (!endsWord ·)).reverse ++ chars, q) ∧
      Passes text p ((text.drop p.index).takeWhile (!endsWord ·)) q := by
  generalize hrest : text.drop p.index = rest
  induction rest generalizing p chars with
  | nil =>
    obtain ⟨-, hend⟩ | ⟨c, hc, -⟩ := place_cases text p
    · refine ⟨p, ?_, rfl, rfl⟩
      rw [wordChars, if_pos hend]
      rfl
    · cases hrest.symm.trans hc
  | cons c rest ih =>
    obtain ⟨hnil, -⟩ | ⟨d, hd, hend, hcurrent, hadvance⟩ := place_cases text p
    · cases hrest.symm.trans hnil
    · cases hrest.symm.trans hd
      rw [wordChars]
      by_cases hends : endsWord c
      · refine ⟨p, ?_, ?_, ?_⟩
        · simp [hend, hcurrent, hends]
        · simp [hends]
        · simp [hends]
      · obtain ⟨q, hq, hpasses⟩ := ih (c :: chars) (p.next c) rfl
        rw [List.takeWhile_cons_of_pos (by simp [hends])]
        refine ⟨q, ?_, hd.trans (congrArg (c :: ·) hpasses.drop_eq), hpasses.pos_eq⟩
        simpa [hend, hcurrent, hadvance, hends] using hq

/-- Reading a word takes at least one character, and the word is no symbol without a name, or reading
fails at its end. -/
def TakesWord (text : Descent) (p : Position) : Prop :=
  ∃ word q, word ≠ [] ∧ Passes text p word q ∧
    ((∃ a, a ≠ .symbol "" ∧ (readWord text p).run = some (.ok (.atom p a, q))) ∨
      ∃ e, e.pos = some q ∧ (readWord text p).run = some (.error e))

theorem ne_symbol_of_wordAtom? {cs : List Char} {a : Atom} (hcs : cs ≠ [])
    (h : wordAtom? cs = some a) : a ≠ .symbol "" := by
  intro hempty
  cases wordAtom?_eq_some_iff.mp h with
  | symbol =>
    have hname := congrArg String.toList (Atom.symbol.inj hempty)
    rw [String.toList_ofList] at hname
    exact hcs hname
  | _ => cases hempty

theorem takesWord {c : Char} (hc : current text p = some c) (hends : endsWord c = false) :
    TakesWord text p := by
  obtain ⟨q, hq, hpasses⟩ := wordChars_eq_takeWhile text [] p
  have hword : (text.drop p.index).takeWhile (!endsWord ·) ≠ [] := by
    obtain ⟨rest, hrest⟩ : ∃ rest, text.drop p.index = c :: rest :=
      List.head?_eq_some_iff.mp (by rwa [List.head?_drop])
    simp [hrest, hends]
  refine ⟨_, q, hword, hpasses, ?_⟩
  rw [readWord, bind_of_some hq]
  simp only [List.append_nil, List.reverse_reverse]
  cases hatom : wordAtom? ((text.drop p.index).takeWhile (!endsWord ·)) with
  | some a => exact Or.inl ⟨a, ne_symbol_of_wordAtom? hword hatom, rfl⟩
  | none => exact Or.inr ⟨_, rfl, rfl⟩

theorem readForm_eq_of_skips (h : Skips text p q) : readForm text p = readForm text q := by
  rw [readForm, bind_of_some h.skipBlanks_eq]
  conv_rhs => rw [readForm, bind_of_some h.again]

theorem readForm_of_atEnd (h : Skips text p q) (hend : atEnd text q = true) :
    readForm text p = fail q .endOfInput := by
  rw [readForm, bind_of_some h.skipBlanks_eq, if_pos hend]

/-- What starts neither with a mark, a bracket nor a quotation mark is read as a word. -/
theorem readForm_eq_readWord {c : Char} (h : Skips text p q) (hc : current text q = some c)
    (hmarks : c ∉ ['\'', '\x60', '~', '(', '[', '"', ')', ']']) :
    readForm text p = readWord text q := by
  have hend : atEnd text q = false := by
    obtain ⟨hlt, -⟩ := List.getElem?_eq_some_iff.mp hc
    simpa [atEnd] using hlt
  rw [readForm, bind_of_some h.skipBlanks_eq, if_neg (by simp [hend]), bind_of_some hc]
  split
  case h_9 => rfl
  all_goals simp at hmarks

/-- So a word is read only where one starts. -/
theorem takesWord_of_skips {c : Char} (h : Skips text p q) (hc : current text q = some c)
    (hmarks : c ∉ ['\'', '\x60', '~', '(', '[', '"', ')', ']']) : TakesWord text q := by
  have hblank : isSeparator c = false ∧ c ≠ ';' := by
    rcases h.stops with hend | ⟨d, hd, hblank⟩
    · rw [current, List.getElem?_eq_none (by simpa [atEnd] using hend)] at hc
      cases hc
    · cases hd.symm.trans hc
      exact hblank
  exact takesWord hc (endsWord_of_startsWord (startsWord_of_unblank hblank hmarks))

theorem run_readNext_of_not_atEnd (h : Skips text p q) (hend : atEnd text q = false) :
    (readNext text p).run = Option.map (Except.map some) (readForm text p).run := by
  have hread : readNext text p = some <$> readForm text p := by
    rw [readNext, bind_of_some h.skipBlanks_eq, if_neg (by simp [hend]), ← readForm_eq_of_skips h]
    rfl
  rw [hread, ExceptT.run_map]
  rfl

/-- Reading the next form moves on in the text. -/
theorem index_of_readNext {f : Form} (h : (readNext text p).run = some (.ok (some (f, q)))) :
    p.index < q.index ∧ q.index ≤ text.length := by
  obtain ⟨hread, hleft⟩ := readNext_eq text p
  rw [h] at hread
  cases hnext : (Cursor.mk p (text.drop p.index)).next with
  | ended =>
    rw [hnext] at hread
    cases hread
  | failed e left =>
    rw [hnext] at hread
    cases hread
  | form g left =>
    rw [hnext] at hread
    cases hread
    have hcount := Cursor.index_of_next hnext
    have hshorter := Cursor.length_lt_of_next hnext
    simp only [hleft f left hnext, List.length_drop] at hcount hshorter
    omega

/-- Reading a form comes to an end, and it moves on in the text if it gives a form. -/
theorem exists_run_readForm (text : Descent) (p : Position) :
    ∃ result, (readForm text p).run = some result ∧
      ∀ f q, result = .ok (f, q) → p.index < q.index ∧ q.index ≤ text.length := by
  obtain ⟨q, hskips⟩ := exists_skips text p
  cases hend : atEnd text q with
  | true =>
    rw [readForm_of_atEnd hskips hend]
    exact ⟨_, rfl, nofun⟩
  | false =>
    have hnext := run_readNext_of_not_atEnd hskips hend
    cases hform : (readForm text p).run with
    | none =>
      rw [hform, (readNext_eq text p).1] at hnext
      cases hnext
    | some result =>
      refine ⟨result, rfl, ?_⟩
      rintro f r rfl
      rw [hform] at hnext
      exact index_of_readNext hnext

/-- Reading the next form several times, each time with a form, leads from one place to another. -/
inductive Reads (text : Descent) : Nat → Position → Position → Prop where
  | none (p : Position) : Reads text 0 p p
  | next {f : Form} {k : Nat} {p q r : Position} :
    (readNext text p).run = some (.ok (some (f, q))) → Reads text k q r → Reads text (k + 1) p r

/-- Each form takes a character at least. -/
theorem Reads.index_le {k : Nat} (h : Reads text k p q) :
    p.index + k ≤ q.index ∧ (k ≠ 0 → q.index ≤ text.length) := by
  induction h with
  | none p => exact ⟨Nat.le_refl _, fun hk => absurd rfl hk⟩
  | @next f k p q r hnext hreads ih =>
    obtain ⟨hlt, hle⟩ := index_of_readNext hnext
    refine ⟨by omega, fun _ => ?_⟩
    cases k with
    | zero =>
      cases hreads
      exact hle
    | succ k => exact ih.2 (Nat.succ_ne_zero k)

/-- After some forms there is none left, or reading fails. -/
theorem exists_reads (text : Descent) (p : Position) :
    ∃ k q, Reads text k p q ∧
      ((readNext text q).run = some (.ok none) ∨ ∃ e, (readNext text q).run = some (.error e)) := by
  -- every form takes a character, so that fewer are left after it
  generalize hlength : text.length - p.index = n
  induction n using Nat.strongRecOn generalizing p with
  | _ n ih =>
    cases hnext : (readNext text p).run with
    | none =>
      rw [(readNext_eq text p).1] at hnext
      cases hnext
    | some result =>
      match result with
      | .error e => exact ⟨0, p, .none p, Or.inr ⟨e, hnext⟩⟩
      | .ok none => exact ⟨0, p, .none p, Or.inl hnext⟩
      | .ok (some (f, q)) =>
        obtain ⟨hlt, hle⟩ := index_of_readNext hnext
        obtain ⟨k, r, hreads, hlast⟩ := ih (text.length - q.index) (by omega) q rfl
        exact ⟨k + 1, r, .next hnext hreads, hlast⟩

/-- Reading moves on and comes to an end at every place of every text. Skipping leads over blanks
and comments only, to the end or to a character that starts neither, and does nothing there. What
is read as a word has a character at least and so a name. A form that is read takes a character at
least and none beyond the end. So reading form by form stops after at most as many forms as there
are characters, and so does reading all forms of a text or of what is left of it. -/
theorem exists_run_readAll (text : String) (p : Position) :
    let cs : Descent := text.toList
    (∃ q, Skips cs p q ∧ ∀ c, current cs q = some c →
      c ∉ ['\'', '\x60', '~', '(', '[', '"', ')', ']'] →
        readForm cs p = readWord cs q ∧ TakesWord cs q) ∧
    (∃ result, (readForm cs p).run = some result ∧
      ∀ f q, result = .ok (f, q) → p.index < q.index ∧ q.index ≤ cs.length) ∧
    (readNext cs p).run = some (Cursor.mk p (cs.drop p.index)).next.result ∧
    (∃ k q, Reads cs k p q ∧ k ≤ cs.length - p.index ∧
      ((readNext cs q).run = some (.ok none) ∨ ∃ e, (readNext cs q).run = some (.error e))) ∧
    (∃ result, (readRest cs [] p).run = some result) ∧
    (readAll text).run = some (Source.readAll text) := by
  intro cs
  obtain ⟨q, hskips⟩ := exists_skips cs p
  obtain ⟨k, r, hreads, hlast⟩ := exists_reads cs p
  refine ⟨⟨q, hskips, fun c hc hmarks => ?_⟩, exists_run_readForm cs p, (readNext_eq cs p).1,
    ⟨k, r, hreads, ?_, hlast⟩, ⟨_, readRest_eq cs [] rfl⟩, readAll_eq text⟩
  · exact ⟨readForm_eq_readWord hskips hc hmarks, takesWord_of_skips hskips hc hmarks⟩
  · obtain ⟨hcount, hlength⟩ := hreads.index_le
    cases k with
    | zero => exact Nat.zero_le _
    | succ k =>
      have hle := hlength (Nat.succ_ne_zero k)
      omega

/-- A word with a mark in it, after a blank and a comment with a mark, and before a comment. -/
theorem exists_run_readAll_comment :
    let cs : Descent := " ;'\n a~b;".toList
    ∃ q r, Skips cs .start q ∧ current cs q = some 'a' ∧ TakesWord cs q ∧
      (readForm cs .start).run = some (.ok (.atom q (.symbol "a~b"), r)) ∧
      Position.start.index < r.index ∧ r.index ≤ cs.length := by
  intro cs
  obtain ⟨⟨q, hskips, hword⟩, ⟨result, hrun, hindex⟩, hnext, -⟩ :=
    exists_run_readAll " ;'\n a~b;" .start
  have hq : q = ⟨2, 2, 5⟩ := by
    obtain ⟨q', hq', hcursor⟩ := skipBlanks_eq cs .start
    cases hskips.skipBlanks_eq.symm.trans hq'
    exact (congrArg Cursor.pos hcursor).symm
  subst hq
  have ha : current cs ⟨2, 2, 5⟩ = some 'a' := rfl
  have hread : (Cursor.mk .start cs).next =
      .form (.atom ⟨2, 2, 5⟩ (.symbol "a~b")) ⟨⟨2, 5, 8⟩, [';']⟩ := rfl
  have hform := (run_readNext_of_not_atEnd hskips rfl).symm.trans hnext
  change _ = some (Cursor.mk .start cs).next.result at hform
  rw [hrun, hread] at hform
  cases result with
  | error e => cases hform
  | ok read =>
    cases hform
    exact ⟨_, _, hskips, ha, (hword 'a' ha (by decide)).2, hrun, hindex _ _ rfl⟩

end Descent

end Lisp.Source
