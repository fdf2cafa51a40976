import Lisp.Proofs.Source.Displacement

/-!
# Quoted texts in a text

The printer writes more escapes than the reader knows. A quoted text is always read as one string,
and that string is the text again unless a character of it was written as a code.
-/

namespace Lisp

namespace Text

/-- Whether an escape is a code: `\0`, or `\u` and a number in braces. -/
def isCode : List Char → Bool
  | ['\\', '0'] => true
  | '\\' :: 'u' :: '\x7b' :: _ => true
  | _ => false

def isCoded (c : Char) : Bool := isCode (escape c)

/-- What an escape is read as: the character after the backslash is taken for what it stands for,
and the rest for itself. -/
def decode : List Char → List Char
  | '\\' :: d :: ds => Source.Scan.unescape d :: ds
  | cs => cs

def reread (c : Char) : List Char := decode (escape c)

theorem isCode_singleton (c : Char) : isCode [c] = false := by
  unfold isCode
  split
  · rename_i h
    cases h
  · rename_i h
    cases h
  · rfl

theorem decode_singleton (c : Char) : decode [c] = [c] := by
  unfold decode
  split
  · rename_i h
    cases h
  · rfl

/-- A character that means itself inside a quoted text. -/
def IsOrdinary (c : Char) : Prop := c ≠ '"' ∧ c ≠ '\\'

theorem isOrdinary_digitChar {d : Nat} (h : d < 16) : IsOrdinary d.digitChar := by
  have hall : ∀ d < 16, d.digitChar ≠ '"' ∧ d.digitChar ≠ '\\' := by decide
  exact hall d h

theorem isOrdinary_toDigits (n : Nat) : ∀ c ∈ Nat.toDigits 16 n, IsOrdinary c := by
  induction n using Nat.strongRecOn with
  | _ n ih =>
    rw [Nat.toDigits_eq_if (by decide)]
    by_cases hn : n < 16
    · simpa [hn] using isOrdinary_digitChar hn
    · rw [if_neg hn]
      intro c hc
      rcases List.mem_append.mp hc with hmem | hmem
      · exact ih (n / 16) (by omega) c hmem
      · rw [List.mem_singleton.mp hmem]
        exact isOrdinary_digitChar (Nat.mod_lt n (by decide))

/-- The ways in which a character is written: as itself, by an escape that the reader knows, or as
a code. -/
inductive Written (c : Char) : List Char → Prop where
  | plain : IsOrdinary c → Written c [c]
  | escaped (d : Char) :
    Source.Scan.unescape d = c → d ≠ '0' → Written c ['\\', d]
  | nul : Written c ['\\', '0']
  | coded (ds : List Char) :
    (∀ d ∈ ds, IsOrdinary d) → Written c ('\\' :: 'u' :: '\x7b' :: ds)

theorem written_escape (c : Char) : Written c (escape c) := by
  unfold escape
  split
  · exact .escaped '"' (by simp_all [Source.Scan.unescape]) (by decide)
  split
  · exact .escaped '\\' (by simp_all [Source.Scan.unescape]) (by decide)
  split
  · exact .escaped 'n' (by simp_all [Source.Scan.unescape]) (by decide)
  split
  · exact .escaped 'r' (by simp_all [Source.Scan.unescape]) (by decide)
  split
  · exact .escaped 't' (by simp_all [Source.Scan.unescape]) (by decide)
  split
  · exact .nul
  split
  · refine .coded (Nat.toDigits 16 c.toNat ++ ['\x7d']) fun d hd => ?_
    rcases List.mem_append.mp hd with hdigit | hbrace
    · exact isOrdinary_toDigits c.toNat d hdigit
    · rw [List.mem_singleton.mp hbrace]
      exact ⟨by decide, by decide⟩
  · exact .plain ⟨‹_›, ‹_›⟩

/-- A character comes back unless it is written as a code. Then a character comes back first that is
not written as a code, so it is another one. -/
theorem reread_cases (c : Char) :
    (isCoded c = false ∧ reread c = [c]) ∨
      (isCoded c = true ∧ ∃ d ds, reread c = d :: ds ∧ isCoded d = false) := by
  have hwritten := written_escape c
  rw [isCoded, reread]
  generalize escape c = cs at hwritten
  cases hwritten with
  | plain hc => exact Or.inl ⟨isCode_singleton c, decode_singleton c⟩
  | escaped d hd hzero =>
    refine Or.inl ⟨?_, congrArg (· :: []) hd⟩
    unfold isCode
    split
    · rename_i h
      cases h
      exact absurd rfl hzero
    · rename_i h
      cases h
    · rfl
  | nul => exact Or.inr ⟨rfl, '0', [], rfl, by decide +kernel⟩
  | coded ds hds => exact Or.inr ⟨rfl, 'u', _, rfl, by decide +kernel⟩

/-- A text comes back exactly when no character of it is written as a code. -/
theorem flatMap_reread_eq_iff (cs : List Char) :
    cs.flatMap reread = cs ↔ ∀ c ∈ cs, isCoded c = false := by
  induction cs with
  | nil => simp
  | cons c cs ih =>
    rw [List.flatMap_cons, List.forall_mem_cons]
    rcases reread_cases c with ⟨hcoded, hreread⟩ | ⟨hcoded, d, ds, hreread, hd⟩
    · rw [hreread]
      simpa [hcoded] using ih
    · rw [hreread]
      constructor
      · intro h
        have hdc : d = c := (List.cons.inj h).1
        rw [hdc, hcoded] at hd
        cases hd
      · rintro ⟨hc, -⟩
        rw [hcoded] at hc
        cases hc

end Text

namespace Source.Scan

open Text

variable {s : Scan} {p : Position} {chars : List Char} {c : Char}

theorem step_of_isOrdinary (hmode : s.mode = .string p chars) (hc : IsOrdinary c) :
    s.step c = .ok { s with pos := s.pos.next c, mode := .string p (c :: chars) } := by
  have hsettle : s.settle c = .ok s := by rw [settle, hmode]
  have habsorb : s.absorb c = .ok { s with mode := .string p (c :: chars) } := by
    rw [absorb, hmode]
    simp [hc.1, hc.2]
  exact step_of_absorb hsettle habsorb

theorem feed_of_isOrdinary {cs : List Char} (hmode : s.mode = .string p chars)
    (hcs : ∀ c ∈ cs, IsOrdinary c) :
    s.feed cs = .ok { s with
      pos := cs.foldl Position.next s.pos, mode := .string p (cs.reverse ++ chars) } := by
  induction cs generalizing s chars with
  | nil => simp [← hmode]
  | cons c cs ih =>
    rw [feed_cons, step_of_isOrdinary hmode (hcs c (by simp))]
    refine (ih rfl fun d hd => hcs d (by simp [hd])).trans ?_
    simp

/-- After a backslash the next character is taken for what it stands for. -/
theorem feed_backslash (hmode : s.mode = .string p chars) (c : Char) :
    s.feed ['\\', c] = .ok { s with
      pos := (s.pos.next '\\').next c, mode := .string p (unescape c :: chars) } := by
  have hfirst : s.step '\\' =
      .ok { s with pos := s.pos.next '\\', mode := .escape p chars } := by
    have hsettle : s.settle '\\' = .ok s := by rw [settle, hmode]
    have habsorb : s.absorb '\\' = .ok { s with mode := .escape p chars } := by
      rw [absorb, hmode]
      rfl
    exact step_of_absorb hsettle habsorb
  rw [feed_cons, hfirst]
  rfl

/-- A written character adds what comes back for it. -/
theorem feed_escape (hmode : s.mode = .string p chars) (c : Char) :
    s.feed (escape c) = .ok { s with
      pos := (escape c).foldl Position.next s.pos,
      mode := .string p ((reread c).reverse ++ chars) } := by
  have hwritten := written_escape c
  rw [reread]
  generalize escape c = cs at hwritten
  cases hwritten with
  | plain hc =>
    rw [decode_singleton, feed_cons, step_of_isOrdinary hmode hc]
    rfl
  | escaped d hd hzero => exact feed_backslash hmode d
  | nul => exact feed_backslash hmode '0'
  | coded ds hds =>
    change s.feed (['\\', 'u'] ++ '\x7b' :: ds) = _
    rw [feed_append, feed_backslash hmode]
    refine (feed_of_isOrdinary rfl ?_).trans ?_
    · rw [List.forall_mem_cons]
      exact ⟨⟨by decide, by decide⟩, hds⟩
    · simp [decode, unescape]

theorem feed_flatMap_escape (hmode : s.mode = .string p chars) (cs : List Char) :
    s.feed (cs.flatMap escape) = .ok { s with
      pos := (cs.flatMap escape).foldl Position.next s.pos,
      mode := .string p ((cs.flatMap reread).reverse ++ chars) } := by
  induction cs generalizing s chars with
  | nil => simp [← hmode]
  | cons c cs ih =>
    rw [List.flatMap_cons, feed_append, feed_escape hmode]
    refine (ih rfl).trans ?_
    simp

/-- A quoted text between forms is read as one string. -/
theorem completed_quoteChars (hmode : s.mode = .between) (cs rest : List Char) :
    s.completed (quoteChars cs ++ rest) =
      ({ s with pos := (quoteChars cs).foldl Position.next s.pos }.deliver
        (.atom s.pos (.str (String.ofList (cs.flatMap reread))))).completed rest := by
  have hopen : s.step '"' = .ok { s with pos := s.pos.next '"', mode := .string s.pos [] } := by
    rw [step_of_between hmode, take, absorb, hmode]
    rfl
  rw [quoteChars, List.cons_append, List.append_assoc, completed_cons, hopen]
  change Scan.completed _ _ = _
  rw [completed_append, feed_flatMap_escape rfl]
  change Scan.completed _ ('"' :: rest) = _
  rw [completed_cons]
  simp [step, settle, take, absorb, Except.map, bind, Except.bind, deliver]

end Source.Scan

end Lisp
