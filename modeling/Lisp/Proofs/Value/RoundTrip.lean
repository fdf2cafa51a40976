import Mathlib.Data.List.Forall2
import Lisp.Proofs.Source.Strings
import Lisp.Proofs.Source.Words
import Lisp.Value.Printer

/-!
# What is printed can be read

Data print as one form. The form stands for the same value, except that a text comes back changed
if some of its characters are printed as codes.
-/

namespace Lisp

namespace Decimal

theorem isDigit_of_mem_digits {n : Nat} {c : Char} (h : c ∈ digits n) : isDigit c = true :=
  List.all_eq_true.mp (all_isDigit_digits n) c h

theorem not_mem_of_isDigit {c : Char} {cs : List Char} (h : isDigit c = true)
    (hcs : cs.any isDigit = false) : c ∉ cs :=
  fun hmem => List.any_eq_false.mp hcs c hmem h

theorem nat?_digits (n : Nat) : nat? (digits n) = some n := by
  rw [nat?, if_pos ⟨digits_ne_nil n, all_isDigit_digits n⟩, value_digits]

theorem splitSign_digits (n : Nat) : splitSign (digits n) = (false, digits n) := by
  have hdigit : ∀ c ∈ digits n, isDigit c = true := fun c => isDigit_of_mem_digits
  unfold splitSign
  split
  · rename_i cs h
    rw [h] at hdigit
    exact absurd (hdigit '-' (by simp)) (by decide)
  · rename_i cs h
    rw [h] at hdigit
    exact absurd (hdigit '+' (by simp)) (by decide)
  · rfl

/-- The decimal text of an integer: its digits, after a minus if it is negative. -/
theorem toList_ofInt (n : Int) :
    (ofInt n).toList = if n < 0 then '-' :: digits n.natAbs else digits n.natAbs := by
  rw [ofInt, ofNat]
  split <;> simp

theorem word?_ofInt (w : Int64) : word? (ofInt w.toInt).toList = some w := by
  have hint : int? (ofInt w.toInt).toList = some w.toInt := by
    rw [toList_ofInt]
    by_cases hneg : w.toInt < 0
    · have habs : -(w.toInt.natAbs : Int) = w.toInt := by omega
      rw [if_pos hneg]
      change (nat? (digits w.toInt.natAbs)).map (fun n => -(n : Int)) = _
      rw [nat?_digits]
      exact congrArg some habs
    · have habs : (w.toInt.natAbs : Int) = w.toInt := by omega
      rw [if_neg hneg, int?, splitSign_digits]
      change (nat? (digits w.toInt.natAbs)).map (fun n => (n : Int)) = _
      rw [nat?_digits]
      exact congrArg some habs
  rw [word?, hint]
  exact fit_eq_some_iff.mpr rfl

end Decimal

namespace Source

theorem endsWord_of_isDigit {c : Char} (h : Decimal.isDigit c = true) : endsWord c = false := by
  have hrange : 48 ≤ c.toNat ∧ c.toNat ≤ 57 := by simpa [Decimal.isDigit] using h
  have hblank : Text.isBlank c = false := by
    simp only [Text.isBlank, Bool.or_eq_false_iff, Bool.and_eq_false_iff, decide_eq_false_iff_not,
      beq_eq_false_iff_ne]
    omega
  have hcomma : c ∉ [','] := Decimal.not_mem_of_isDigit h (by decide)
  have hmarks : c ∉ ['(', ')', '[', ']', '"', ';', '\'', '\x60'] :=
    Decimal.not_mem_of_isDigit h (by decide)
  simp_all [endsWord, isSeparator]

theorem startsWord_of_isDigit {c : Char} (h : Decimal.isDigit c = true) :
    startsWord c = true := by
  have htilde : c ≠ '~' := by
    rintro rfl
    exact absurd h (by decide)
  simp [startsWord, endsWord_of_isDigit h, htilde]

theorem isWord_digits (n : Nat) : IsWord (Decimal.digits n) := by
  refine ⟨?_, fun c hc => endsWord_of_isDigit (Decimal.isDigit_of_mem_digits hc)⟩
  cases hdigits : Decimal.digits n with
  | nil => exact absurd hdigits (Decimal.digits_ne_nil n)
  | cons c cs =>
    have hc : Decimal.isDigit c = true := Decimal.isDigit_of_mem_digits (n := n) (by simp [hdigits])
    simpa using startsWord_of_isDigit hc

theorem isWord_ofInt (n : Int) : IsWord (Decimal.ofInt n).toList := by
  have hdigits := isWord_digits n.natAbs
  rw [Decimal.toList_ofInt]
  split
  · refine ⟨show startsWord '-' = true by decide, ?_⟩
    rw [List.forall_mem_cons]
    exact ⟨by decide, hdigits.goesOn⟩
  · exact hdigits

theorem looksNumeric_ofInt (n : Int) : looksNumeric (Decimal.ofInt n).toList = true := by
  have hdigit : ∀ c ∈ Decimal.digits n.natAbs, Decimal.isDigit c = true :=
    fun c => Decimal.isDigit_of_mem_digits
  rw [Decimal.toList_ofInt]
  cases hdigits : Decimal.digits n.natAbs with
  | nil => exact absurd hdigits (Decimal.digits_ne_nil _)
  | cons c cs =>
    have hc : Decimal.isDigit c = true := hdigit c (by simp [hdigits])
    split <;> simp [looksNumeric, hc]

theorem isFractional_ofInt (n : Int) : isFractional (Decimal.ofInt n).toList = false := by
  have hdigit : ∀ c ∈ Decimal.digits n.natAbs, c ∉ ['.', 'e', 'E'] := fun c hc =>
    Decimal.not_mem_of_isDigit (Decimal.isDigit_of_mem_digits hc) (by decide)
  rw [Decimal.toList_ofInt, isFractional]
  split <;> simpa using hdigit

theorem wordAtom?_of_looksNumeric {cs : List Char} (h : looksNumeric cs = true)
    (hwhole : isFractional cs = false) : wordAtom? cs = (Decimal.word? cs).map .int := by
  have hnil : cs ≠ ['n', 'i', 'l'] := by
    rintro rfl
    exact absurd h (by decide)
  have htrue : cs ≠ ['t', 'r', 'u', 'e'] := by
    rintro rfl
    exact absurd h (by decide)
  have hfalse : cs ≠ ['f', 'a', 'l', 's', 'e'] := by
    rintro rfl
    exact absurd h (by decide)
  simp [wordAtom?, hnil, htrue, hfalse, h, hwhole]

theorem wordAtom?_ofInt (w : Int64) :
    wordAtom? (Decimal.ofInt w.toInt).toList = some (.int w) := by
  rw [wordAtom?_of_looksNumeric (looksNumeric_ofInt _) (isFractional_ofInt _),
    Decimal.word?_ofInt]
  rfl

/-- A text that is read as one form for a value wherever a form may start, if what follows it ends
words. -/
def ReadsAs (cs : List Char) (v : Value) : Prop :=
  ∀ s : Scan, s.mode = .between → ∃ f p, f.toValue = v ∧
    ∀ rest, EndsWord rest → s.completed (cs ++ rest) = ({ s with pos := p }.deliver f).completed rest

theorem readsAs_word {cs : List Char} {a : Atom} (hcs : IsWord cs)
    (ha : wordAtom? cs = some a) : ReadsAs cs (.atom a) := by
  intro s hmode
  refine ⟨.atom s.pos a, cs.foldl Position.next s.pos, ?_, fun rest hrest => ?_⟩
  · rw [Form.toValue]
  · exact Scan.completed_word hmode hcs ha hrest

theorem readsAs_quoteChars (cs : List Char) :
    ReadsAs (Text.quoteChars cs) (.str (String.ofList (cs.flatMap Text.reread))) := by
  intro s hmode
  refine ⟨.atom s.pos (.str (String.ofList (cs.flatMap Text.reread))),
    (Text.quoteChars cs).foldl Position.next s.pos, ?_, fun rest _ => ?_⟩
  · rw [Form.toValue]
  · exact Scan.completed_quoteChars hmode cs rest

/-- The items between brackets are taken in one after another. -/
theorem completed_intercalate {texts : List (List Char)} {vs : List Value}
    (h : List.Forall₂ ReadsAs texts vs) {s : Scan} {b : Bracket} {q : Position}
    {items : List Form} {layers : List Layer} (hmode : s.mode = .between)
    (hlayers : s.layers = .opened b q items :: layers) :
    ∃ (fs : List Form) (p : Position), fs.map Form.toValue = vs ∧ ∀ rest, EndsWord rest →
      s.completed ([' '].intercalate texts ++ rest) =
        Scan.completed ⟨p, s.done, .opened b q (fs.reverse ++ items) :: layers, .between⟩ rest := by
  induction h generalizing s items with
  | nil =>
    refine ⟨[], s.pos, rfl, fun rest _ => ?_⟩
    obtain ⟨pos, done, _, _⟩ := s
    cases hmode
    cases hlayers
    rfl
  | @cons text v texts vs htext htexts ih =>
    obtain ⟨f, p, hf, hfirst⟩ := htext s hmode
    have hdeliver : { s with pos := p }.deliver f =
        ⟨p, s.done, .opened b q (f :: items) :: layers, .between⟩ := by
      simp [Scan.deliver, hlayers, Scan.place]
    cases texts with
    | nil =>
      cases htexts
      refine ⟨[f], p, by simp [hf], fun rest hrest => ?_⟩
      rw [List.intercalate_singleton, hfirst rest hrest, hdeliver]
      rfl
    | cons next texts =>
      -- The blank after the item ends it and means nothing else.
      obtain ⟨fs, p', hfs, hrest⟩ := ih
        (s := ⟨p.next ' ', s.done, .opened b q (f :: items) :: layers, .between⟩) rfl rfl
      refine ⟨f :: fs, p', by simp [hf, hfs], fun rest hends => ?_⟩
      have hblank : EndsWord (' ' :: ([' '].intercalate (next :: texts) ++ rest)) := by
        rintro c ⟨⟩
        decide
      have htext : [' '].intercalate (text :: next :: texts) ++ rest =
          text ++ ' ' :: ([' '].intercalate (next :: texts) ++ rest) := by
        simp [List.intercalate_cons_cons]
      rw [htext, hfirst _ hblank, hdeliver, Scan.completed_cons,
        Scan.step_of_isSeparator rfl (by decide)]
      refine (hrest rest hends).trans ?_
      simp

theorem step_opening {s : Scan} (hmode : s.mode = .between) (b : Bracket) :
    s.step b.opening = .ok ⟨s.pos.next b.opening, s.done, .opened b s.pos [] :: s.layers,
      .between⟩ := by
  rw [Scan.step_of_between hmode, Scan.take, Scan.absorb, hmode]
  cases b <;> rfl

theorem step_closing (p q : Position) (done items : List Form) (layers : List Layer)
    (b : Bracket) :
    Scan.step ⟨p, done, .opened b q items :: layers, .between⟩ b.closing =
      .ok (Scan.deliver ⟨p.next b.closing, done, layers, .between⟩ (.seq q b items.reverse)) := by
  cases b <;> rfl

theorem readsAs_seq {texts : List (List Char)} {vs : List Value}
    (h : List.Forall₂ ReadsAs texts vs) (b : Bracket) :
    ReadsAs (b.opening :: ([' '].intercalate texts ++ [b.closing])) (.seq b vs) := by
  intro s hmode
  obtain ⟨fs, p, hfs, hitems⟩ := completed_intercalate h
    (s := ⟨s.pos.next b.opening, s.done, .opened b s.pos [] :: s.layers, .between⟩) rfl rfl
  refine ⟨.seq s.pos b fs, p.next b.closing, ?_, fun rest _ => ?_⟩
  · rw [Form.toValue, Form.toValues_eq_map, hfs]
  · have hclosing : EndsWord (b.closing :: rest) := by
      rintro c ⟨⟩
      cases b <;> decide
    rw [List.cons_append, List.append_assoc, Scan.completed_cons, step_opening hmode]
    refine (hitems (b.closing :: rest) hclosing).trans ?_
    rw [Scan.completed_cons, step_closing, List.append_nil, List.reverse_reverse]
    rfl

/-- A text that is read as a value holds one form, and the form is for that value. -/
theorem readChars_of_readsAs {cs : List Char} {v : Value} (h : ReadsAs cs v) :
    ∃ f, readChars cs = .ok [f] ∧ f.toValue = v := by
  obtain ⟨f, p, hf, hread⟩ := h (.start .start) rfl
  refine ⟨f, ?_, hf⟩
  have hcompleted := hread [] nofun
  rw [List.append_nil] at hcompleted
  rw [readChars_eq_completed, hcompleted]
  rfl

end Source

namespace Value

mutual

/-- What comes back for a value that is printed and read. -/
def readBack : Value → Value
  | atom (.str text) => .str (String.ofList (text.toList.flatMap Text.reread))
  | seq b items => .seq b (readBacks items)
  | v => v

def readBacks : List Value → List Value
  | [] => []
  | v :: vs => v.readBack :: readBacks vs

end

theorem readBacks_eq_map (vs : List Value) : readBacks vs = vs.map readBack := by
  induction vs with
  | nil => simp [readBacks]
  | cons v vs ih => simp [readBacks, ih]

mutual

/-- The texts inside a value, at any depth. -/
def texts : Value → List String
  | atom (.str text) => [text]
  | seq _ items => textsOfAll items
  | _ => []

def textsOfAll : List Value → List String
  | [] => []
  | v :: vs => v.texts ++ textsOfAll vs

end

theorem textsOfAll_eq_flatMap (vs : List Value) : textsOfAll vs = vs.flatMap texts := by
  induction vs with
  | nil => simp [textsOfAll]
  | cons v vs ih => simp [textsOfAll, ih]

/-- Values that are data without doubles. A symbol has a name that is read as that symbol. -/
inductive IsData : Value → Prop where
  | nil : IsData .nil
  | bool (b : Bool) : IsData (.bool b)
  | int (n : Int64) : IsData (.int n)
  | str (text : String) : IsData (.str text)
  | symbol (name : String) (f : Form) :
    Source.readAll name = .ok [f] → f.toValue = .symbol name → IsData (.symbol name)
  | seq (b : Bracket) (items : List Value) : (∀ v ∈ items, IsData v) → IsData (.seq b items)

/-- The text of a value is read as what comes back for it. -/
theorem readsAs_display {v : Value} (h : v.IsData) :
    Source.ReadsAs v.display.toList v.readBack := by
  induction h with
  | nil => exact Source.readsAs_word (by decide) rfl
  | bool b => cases b <;> exact Source.readsAs_word (by decide) rfl
  | int n => exact Source.readsAs_word (Source.isWord_ofInt _) (Source.wordAtom?_ofInt n)
  | str text =>
    rw [display, Atom.display, Text.quote, String.toList_ofList, readBack]
    exact Source.readsAs_quoteChars text.toList
  | symbol name f hread hf =>
    have hsymbol := Source.isSymbol_of_readAll hread hf
    exact Source.readsAs_word hsymbol.word hsymbol.atom
  | seq b items _ ih =>
    have hitems : List.Forall₂ Source.ReadsAs (items.map fun v => v.display.toList)
        (items.map readBack) := by
      rw [List.forall₂_map_left_iff, List.forall₂_map_right_iff, List.forall₂_same]
      exact ih
    have htext : (Value.seq b items).display.toList =
        b.opening :: ([' '].intercalate (items.map fun v => v.display.toList) ++ [b.closing]) := by
      simp [display, displays_eq_map, Function.comp_def]
    rw [htext, readBack, readBacks_eq_map]
    exact Source.readsAs_seq hitems b

/-- A value comes back exactly when no character of a text inside it is written as a code. -/
theorem readBack_eq_iff {v : Value} (h : v.IsData) :
    v.readBack = v ↔ ∀ text ∈ v.texts, ∀ c ∈ text.toList, Text.isCoded c = false := by
  induction h with
  | nil => simp [readBack, texts]
  | bool b => simp [readBack, texts]
  | int n => simp [readBack, texts]
  | str text =>
    have htext : String.ofList (text.toList.flatMap Text.reread) = text ↔
        text.toList.flatMap Text.reread = text.toList := by
      constructor
      · intro h
        simpa using congrArg String.toList h
      · intro h
        rw [h, String.ofList_toList]
    simpa [readBack, texts, htext] using Text.flatMap_reread_eq_iff text.toList
  | symbol name f hread hf => simp [readBack, texts]
  | seq b items _ ih =>
    have hitems : items.map readBack = items ↔ ∀ v ∈ items, v.readBack = v := by
      conv_lhs => rhs; rw [← List.map_id items]
      exact List.map_inj_left
    rw [readBack, readBacks_eq_map, texts, textsOfAll_eq_flatMap]
    simp only [seq.injEq, true_and, hitems, List.mem_flatMap]
    constructor
    · rintro hback text ⟨v, hv, htext⟩
      exact (ih v hv).mp (hback v hv) text htext
    · intro hplain v hv
      exact (ih v hv).mpr fun text htext => hplain text ⟨v, hv, htext⟩

/-- The text of data is read as exactly one form. It stands for the same value if and only if no
character of a text inside the value is written as a code. -/
theorem readAll_display {v : Value} (h : v.IsData) :
    ∃ f, Source.readAll v.display = .ok [f] ∧
      (f.toValue = v ↔ ∀ text ∈ v.texts, ∀ c ∈ text.toList, Text.isCoded c = false) := by
  obtain ⟨f, hread, hf⟩ := Source.readChars_of_readsAs (readsAs_display h)
  refine ⟨f, hread, ?_⟩
  rw [hf]
  exact readBack_eq_iff h

theorem readAll_display_nested :
    ∃ f, Source.readAll "(a [-3 \"\\n\"] nil)" = .ok [f] ∧
      f.toValue = .list [.symbol "a", .vector [.int (-3), .str "\n"], .nil] := by
  have hdata : IsData (.list [.symbol "a", .vector [.int (-3), .str "\n"], .nil]) := by
    refine .seq .list _ fun v hv => ?_
    simp only [List.mem_cons, List.not_mem_nil, or_false] at hv
    rcases hv with rfl | rfl | rfl
    · exact .symbol "a" (.atom .start (.symbol "a")) rfl rfl
    · refine .seq .vector _ fun w hw => ?_
      simp only [List.mem_cons, List.not_mem_nil, or_false] at hw
      rcases hw with rfl | rfl
      · exact .int (-3)
      · exact .str "\n"
    · exact .nil
  have htext : (Value.list [.symbol "a", .vector [.int (-3), .str "\n"], .nil]).display =
      "(a [-3 \"\\n\"] nil)" := by decide +kernel
  obtain ⟨f, hread, hiff⟩ := readAll_display hdata
  rw [htext] at hread
  refine ⟨f, hread, hiff.mpr fun text htext c hc => ?_⟩
  have htext : text = "\n" := by simpa [texts, textsOfAll] using htext
  have hc : c = '\n' := by simpa [htext] using hc
  rw [hc]
  rfl

end Value

end Lisp
