import Lisp.Proofs.Value.RoundTrip

/-!
# The grammar of source texts

Which texts hold which forms, said without a scan. A word is as long as it can be and a comment goes
on to the end of its line, so the rules look at what comes after a text, too: `IsForm cs after v`
says that `cs` is the text of a form for `v` where `after` follows.

The rules are those of the language and not those of the scan. Only the classes of characters and the
values of numerals are shared.
-/

namespace Lisp

namespace Decimal

inductive IsInteger : List Char → Int → Prop where
  | unsigned {cs : List Char} :
    cs ≠ [] → (∀ c ∈ cs, isDigit c = true) → IsInteger cs (value cs)
  | plus {cs : List Char} :
    cs ≠ [] → (∀ c ∈ cs, isDigit c = true) → IsInteger ('+' :: cs) (value cs)
  | minus {cs : List Char} :
    cs ≠ [] → (∀ c ∈ cs, isDigit c = true) → IsInteger ('-' :: cs) (-value cs)

theorem nat?_eq_some_iff {cs : List Char} {n : Nat} :
    nat? cs = some n ↔ (cs ≠ [] ∧ ∀ c ∈ cs, isDigit c = true) ∧ value cs = n := by
  simp [nat?]

theorem splitSign_of_isDigit {cs : List Char} (h : ∀ c ∈ cs, isDigit c = true) :
    splitSign cs = (false, cs) := by
  unfold splitSign
  split
  · exact absurd (h '-' (by simp)) (by decide)
  · exact absurd (h '+' (by simp)) (by decide)
  · rfl

theorem int?_eq_some_iff {cs : List Char} {i : Int} : int? cs = some i ↔ IsInteger cs i := by
  have hmap (cs : List Char) : int? cs =
      (nat? (splitSign cs).2).map fun n : Nat => if (splitSign cs).1 then -(n : Int) else n := by
    rw [int?]
    cases nat? (splitSign cs).2 <;> rfl
  constructor
  · intro h
    rw [hmap] at h
    obtain ⟨n, hn, rfl⟩ := Option.map_eq_some_iff.mp h
    obtain ⟨⟨hne, hdigits⟩, rfl⟩ := nat?_eq_some_iff.mp hn
    revert hne hdigits
    unfold splitSign
    split
    · exact .minus
    · exact .plus
    · exact .unsigned
  · intro h
    cases h with
    | unsigned hne hdigits =>
      rw [hmap, splitSign_of_isDigit hdigits, nat?_eq_some_iff.mpr ⟨⟨hne, hdigits⟩, rfl⟩]
      rfl
    | plus hne hdigits =>
      rw [hmap, splitSign, nat?_eq_some_iff.mpr ⟨⟨hne, hdigits⟩, rfl⟩]
      rfl
    | minus hne hdigits =>
      rw [hmap, splitSign, nat?_eq_some_iff.mpr ⟨⟨hne, hdigits⟩, rfl⟩]
      rfl

theorem word?_eq_some_iff {cs : List Char} {w : Int64} :
    word? cs = some w ↔ IsInteger cs w.toInt := by
  rw [word?, Option.bind_eq_some_iff]
  constructor
  · rintro ⟨i, hi, hfit⟩
    rw [fit_eq_some_iff.mp hfit]
    exact int?_eq_some_iff.mp hi
  · intro h
    exact ⟨w.toInt, int?_eq_some_iff.mpr h, fit_eq_some_iff.mpr rfl⟩

end Decimal

namespace Source

/-- A word that starts like a number: with a digit, perhaps after a sign. -/
def StartsNumeric (cs : List Char) : Prop :=
  ∃ sign c rest, cs = sign ++ c :: rest ∧ sign ∈ [[], ['+'], ['-']] ∧ Decimal.isDigit c = true

/-- What words stand for. A word that starts like a number has to be one. -/
inductive StandsFor : List Char → Atom → Prop where
  | nil : StandsFor ['n', 'i', 'l'] .nil
  | true : StandsFor ['t', 'r', 'u', 'e'] (.bool true)
  | false : StandsFor ['f', 'a', 'l', 's', 'e'] (.bool false)
  | int {cs : List Char} {n : Int64} : Decimal.IsInteger cs n.toInt → StandsFor cs (.int n)
  | float {cs : List Char} {x : Float} :
    StartsNumeric cs → (∃ c ∈ cs, c ∈ ['.', 'e', 'E']) → Decimal.float? cs = some x →
      StandsFor cs (.float x)
  | symbol {cs : List Char} :
    ¬StartsNumeric cs → cs ≠ ['n', 'i', 'l'] → cs ≠ ['t', 'r', 'u', 'e'] →
      cs ≠ ['f', 'a', 'l', 's', 'e'] → StandsFor cs (.symbol (String.ofList cs))

theorem looksNumeric_iff {cs : List Char} : looksNumeric cs = true ↔ StartsNumeric cs := by
  constructor
  · intro h
    cases cs with
    | nil => cases h
    | cons c cs =>
      by_cases hc : Decimal.isDigit c = true
      · exact ⟨[], c, cs, rfl, by simp, hc⟩
      · cases cs with
        | nil => simp [looksNumeric, hc] at h
        | cons d cs =>
          simp only [looksNumeric, hc, Bool.false_or, List.head?_cons, Option.any_some,
            Bool.and_eq_true, Bool.or_eq_true, beq_iff_eq] at h
          obtain ⟨rfl | rfl, hd⟩ := h
          · exact ⟨['+'], d, cs, rfl, by simp, hd⟩
          · exact ⟨['-'], d, cs, rfl, by simp, hd⟩
  · rintro ⟨sign, c, rest, rfl, hsign, hc⟩
    simp only [List.mem_cons, List.not_mem_nil, or_false] at hsign
    rcases hsign with rfl | rfl | rfl <;> simp [looksNumeric, hc]

theorem isFractional_iff {cs : List Char} :
    isFractional cs = true ↔ ∃ c ∈ cs, c ∈ ['.', 'e', 'E'] := by
  simp [isFractional]

theorem startsNumeric_of_isInteger {cs : List Char} {i : Int} (h : Decimal.IsInteger cs i) :
    StartsNumeric cs := by
  cases h with
  | unsigned hne hdigits =>
    obtain ⟨c, rest, rfl⟩ := List.exists_cons_of_ne_nil hne
    exact ⟨[], c, rest, rfl, by simp, hdigits c (by simp)⟩
  | plus hne hdigits =>
    obtain ⟨c, rest, rfl⟩ := List.exists_cons_of_ne_nil hne
    exact ⟨['+'], c, rest, rfl, by simp, hdigits c (by simp)⟩
  | minus hne hdigits =>
    obtain ⟨c, rest, rfl⟩ := List.exists_cons_of_ne_nil hne
    exact ⟨['-'], c, rest, rfl, by simp, hdigits c (by simp)⟩

theorem isFractional_of_isInteger {cs : List Char} {i : Int} (h : Decimal.IsInteger cs i) :
    isFractional cs = false := by
  have hdigit {ds : List Char} (hds : ∀ c ∈ ds, Decimal.isDigit c = true) :
      ∀ c ∈ ds, c ∉ ['.', 'e', 'E'] :=
    fun c hc => Decimal.not_mem_of_isDigit (hds c hc) (by decide)
  cases h with
  | unsigned hne hdigits => simpa [isFractional] using hdigit hdigits
  | plus hne hdigits => simpa [isFractional] using hdigit hdigits
  | minus hne hdigits => simpa [isFractional] using hdigit hdigits

theorem wordAtom?_of_isFractional {cs : List Char} (h : looksNumeric cs = true)
    (hfraction : isFractional cs = true) : wordAtom? cs = (Decimal.float? cs).map .float := by
  have hnil : cs ≠ ['n', 'i', 'l'] := by
    rintro rfl
    exact absurd h (by decide)
  have htrue : cs ≠ ['t', 'r', 'u', 'e'] := by
    rintro rfl
    exact absurd h (by decide)
  have hfalse : cs ≠ ['f', 'a', 'l', 's', 'e'] := by
    rintro rfl
    exact absurd h (by decide)
  simp [wordAtom?, hnil, htrue, hfalse, h, hfraction]

theorem wordAtom?_eq_some_iff {cs : List Char} {a : Atom} :
    wordAtom? cs = some a ↔ StandsFor cs a := by
  constructor
  · intro h
    rw [wordAtom?] at h
    split_ifs at h with hnil htrue hfalse hnumeric hfraction
    · cases h
      exact hnil ▸ .nil
    · cases h
      exact htrue ▸ .true
    · cases h
      exact hfalse ▸ .false
    · obtain ⟨x, hx, rfl⟩ := Option.map_eq_some_iff.mp h
      exact .float (looksNumeric_iff.mp hnumeric) (isFractional_iff.mp hfraction) hx
    · obtain ⟨n, hn, rfl⟩ := Option.map_eq_some_iff.mp h
      exact .int (Decimal.word?_eq_some_iff.mp hn)
    · cases h
      exact .symbol (fun hstarts => hnumeric (looksNumeric_iff.mpr hstarts)) hnil htrue hfalse
  · intro h
    cases h with
    | nil => rfl
    | true => rfl
    | false => rfl
    | int hint =>
      rw [wordAtom?_of_looksNumeric (looksNumeric_iff.mpr (startsNumeric_of_isInteger hint))
        (isFractional_of_isInteger hint), Decimal.word?_eq_some_iff.mpr hint]
      rfl
    | float hstarts hfraction hx =>
      rw [wordAtom?_of_isFractional (looksNumeric_iff.mpr hstarts)
        (isFractional_iff.mpr hfraction), hx]
      rfl
    | symbol hstarts hnil htrue hfalse =>
      have hnumeric : looksNumeric cs ≠ true := fun h => hstarts (looksNumeric_iff.mp h)
      simp [wordAtom?, hnil, htrue, hfalse, hnumeric]

def Mark.text : Mark → List Char
  | .quote => ['\'']
  | .template => ['\x60']
  | .unquote => ['~']
  | .splice => ['~', '@']

theorem Mark.text_of_sign? {m : Mark} {c : Char} (h : m.sign? = some c) : m.text = [c] := by
  cases m <;> cases h <;> rfl

/-- What the characters between quotation marks stand for. Neither a quotation mark nor a backslash
stands there for itself. -/
inductive Spells : List Char → List Char → Prop where
  | nil : Spells [] []
  | plain {c : Char} {cs text : List Char} :
    c ≠ '"' → c ≠ '\\' → Spells cs text → Spells (c :: cs) (c :: text)
  | escaped (c : Char) {cs text : List Char} :
    Spells cs text → Spells ('\\' :: c :: cs) (Scan.unescape c :: text)

mutual

/-- The text of a form where `after` follows. -/
inductive IsForm : List Char → List Char → Value → Prop where
  | word {cs after : List Char} {a : Atom} :
    IsWord cs → EndsWord after → StandsFor cs a → IsForm cs after (.atom a)
  | string {cs after text : List Char} :
    Spells cs text → IsForm ('"' :: (cs ++ ['"'])) after (.str (String.ofList text))
  | seq (b : Bracket) {cs after : List Char} {vs : List Value} :
    AreForms cs (b.closing :: after) vs →
      IsForm (b.opening :: (cs ++ [b.closing])) after (.seq b vs)
  | marked (m : Mark) {blanks cs after : List Char} {v : Value} :
    AreForms blanks (cs ++ after) [] → IsForm cs after v →
      (m = .unquote → (blanks ++ (cs ++ after)).head? ≠ some '@') →
      IsForm (m.text ++ (blanks ++ cs)) after (.list [.symbol m.head, v])

/-- The text of some forms, with blanks between and around them, where `after` follows. -/
inductive AreForms : List Char → List Char → List Value → Prop where
  | nil {after : List Char} : AreForms [] after []
  | separator {c : Char} {after : List Char} : isSeparator c = true → AreForms [c] after []
  | comment {cs after : List Char} :
    '\n' ∉ cs → (∀ c ∈ after.head?, c = '\n') → AreForms (';' :: cs) after []
  | form {cs after : List Char} {v : Value} : IsForm cs after v → AreForms cs after [v]
  | append {cs ds after : List Char} {vs ws : List Value} :
    AreForms cs (ds ++ after) vs → AreForms ds after ws → AreForms (cs ++ ds) after (vs ++ ws)

end

theorem Spells.append {cs ds text more : List Char} (h : Spells cs text) (h' : Spells ds more) :
    Spells (cs ++ ds) (text ++ more) := by
  induction h with
  | nil => exact h'
  | plain hquote hslash _ ih => exact .plain hquote hslash ih
  | escaped c _ ih => exact .escaped c ih

end Source

end Lisp
