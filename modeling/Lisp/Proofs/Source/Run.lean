import Lisp.Proofs.Source.Sequence
import Lisp.Proofs.Source.Words

/-!
# Running a scan to its first form

How a scan with no complete form yet goes on with the next character, whatever waits for a form in
it. Blanks and comments only move it on.
-/

namespace Lisp.Source

namespace Scan

variable {s t u : Scan} {p : Position} {chars cs : List Char} {c : Char}

theorem run_of_done {f : Form} {done : List Form} (h : s.done = f :: done) (cs : List Char) :
    s.run cs = .form f ⟨s.pos, cs⟩ := by
  unfold run
  simp only [h]

theorem run_of_absorb (hdone : s.done = []) (hsettle : s.settle c = .ok s)
    (habsorb : s.absorb c = .ok t) (cs : List Char) :
    s.run (c :: cs) = { t with pos := t.pos.next c }.run cs := by
  rw [run]
  simp only [hdone, hsettle, take, habsorb, Except.map]

theorem run_of_error {e : Fault} (hdone : s.done = []) (hsettle : s.settle c = .ok s)
    (habsorb : s.absorb c = .error e) (cs : List Char) :
    s.run (c :: cs) = .failed e (c :: cs) := by
  rw [run]
  simp only [hdone, hsettle, take, habsorb, Except.map]

theorem run_of_settle (hdone : s.done = []) (h : s.settle c = .ok t) (ht : t.mode = .between)
    (cs : List Char) : s.run (c :: cs) = t.run (c :: cs) := by
  rw [run]
  simp only [hdone, h]
  cases hdone' : t.done with
  | cons f fs => rw [run_of_done hdone']
  | nil =>
    rw [run]
    simp only [hdone', settle_of_between ht]

theorem run_nil_of_error {e : Fault} (hdone : s.done = []) (h : s.finish = .error e) :
    s.run [] = .failed e [] := by
  rw [run]
  simp only [hdone, h]

theorem run_nil_of_finish (hdone : s.done = []) (h : s.finish = t.finish) (ht : t.OnFirst) :
    s.run [] = t.run [] := by
  rcases ht with hnone | ⟨f, hf⟩
  · rw [run, run]
    simp only [hdone, hnone, h]
  · rw [hf] at h ⊢
    rw [run_between, run]
    simp only [hdone, h]
    rfl

/-- Where a word is over, its atom is delivered, unless it is a number that cannot be read. -/
theorem run_of_word (hmode : s.mode = .word p chars) (hdone : s.done = []) (hcs : EndsWord cs) :
    s.run cs = match wordAtom? chars.reverse with
      | some a => (s.deliver (.atom p a)).run cs
      | none => .failed (s.fault (.badNumber (String.ofList chars.reverse))) cs := by
  cases cs with
  | nil =>
    have hfinish : s.finish = (s.endWord p chars).bind closed := by rw [finish, hmode]
    cases hatom : wordAtom? chars.reverse with
    | none =>
      simp only [endWord, hatom] at hfinish
      exact run_nil_of_error hdone hfinish
    | some a =>
      simp only [endWord, hatom] at hfinish
      exact run_nil_of_finish hdone hfinish (onFirst_deliver hdone _)
  | cons c cs =>
    have hsettle := settle_of_endsWord hmode (hcs c rfl)
    cases hatom : wordAtom? chars.reverse with
    | none =>
      simp only [endWord, hatom] at hsettle
      rw [run]
      simp only [hdone, hsettle]
    | some a =>
      simp only [endWord, hatom] at hsettle
      exact run_of_settle hdone hsettle rfl cs

/-- Blanks and comments change nothing but the place. -/
theorem run_skipBlanks (layers : List Layer) (inComment : Bool) (p : Position) (cs : List Char) :
    (Scan.mk p [] layers (Cursor.idleMode inComment)).run cs =
      (Scan.mk (Cursor.skipBlanks inComment p cs).pos [] layers .between).run
        (Cursor.skipBlanks inComment p cs).rest := by
  induction cs generalizing inComment p with
  | nil =>
    cases inComment with
    | true => rcases layers with _ | ⟨_ | _, _⟩ <;> rfl
    | false => rfl
  | cons c cs ih =>
    cases inComment with
    | true =>
      have habsorb : (Scan.mk p [] layers .comment).absorb c =
          .ok ⟨p, [], layers, Cursor.idleMode (c ≠ '\n')⟩ := by
        by_cases hc : c = '\n' <;> simp [absorb, Cursor.idleMode, hc]
      refine (run_of_absorb rfl rfl habsorb cs).trans ?_
      rw [Cursor.skipBlanks, if_pos rfl]
      exact ih _ _
    | false =>
      rw [Cursor.skipBlanks, if_neg (by decide)]
      split
      · rename_i hsep
        have habsorb : (Scan.mk p [] layers .between).absorb c = .ok ⟨p, [], layers, .between⟩ :=
          if_pos hsep
        exact (run_of_absorb rfl rfl habsorb cs).trans (ih false _)
      · split
        · rename_i hsemicolon
          subst hsemicolon
          exact (run_of_absorb rfl rfl rfl cs).trans (ih true _)
        · rfl

end Scan

theorem Cursor.skipBlanks_eq_cons {inComment : Bool} {p q : Position} {cs rest : List Char}
    {c : Char} (h : Cursor.skipBlanks inComment p cs = ⟨q, c :: rest⟩) : isSeparator c = false ∧ c ≠ ';' := by
  fun_induction Cursor.skipBlanks inComment p cs with
  | case1 => cases h
  | case2 _ _ _ ih => exact ih h
  | case3 _ _ _ _ _ _ ih => exact ih h
  | case4 _ _ _ _ _ ih => exact ih h
  | case5 =>
    cases h
    simp_all

theorem Cursor.skipBlanks_separators (p : Position) (cs : List Char) :
    Cursor.skipBlanks false p cs = Cursor.skipBlanks false
      ((cs.takeWhile isSeparator).foldl Position.next p) (cs.dropWhile isSeparator) := by
  induction cs generalizing p with
  | nil => rfl
  | cons c cs ih =>
    by_cases hc : isSeparator c
    · simp [Cursor.skipBlanks, hc, ih (p.next c)]
    · simp [hc]

theorem Cursor.skipBlanks_comment (p : Position) (cs : List Char) :
    Cursor.skipBlanks true p cs = Cursor.skipBlanks false
      ((cs.takeWhile (· != '\n')).foldl Position.next p) (cs.dropWhile (· != '\n')) := by
  induction cs generalizing p with
  | nil => rfl
  | cons c cs ih =>
    by_cases hc : c = '\n'
    · subst hc
      rfl
    · simp only [Cursor.skipBlanks, List.takeWhile_cons, List.dropWhile_cons]
      simp [hc, ih]

end Lisp.Source
