import Mathlib.Tactic.SplitIfs
import Lisp.Proofs.Source.Displacement
import Lisp.Proofs.Source.Transition

/-!
# Words in a text

A word is read as itself wherever a form may start, if nothing goes on with it. Conversely, every
symbol that stands for itself in a text is a word of that text.
-/

namespace Lisp.Source

/-- A run of characters that is read as one word. -/
structure IsWord (cs : List Char) : Prop where
  starts : cs.head?.any startsWord = true
  goesOn : ∀ c ∈ cs, endsWord c = false

theorem isWord_iff {cs : List Char} :
    IsWord cs ↔ (cs.head?.any startsWord && cs.all fun c => !endsWord c) = true := by
  simp only [Bool.and_eq_true, List.all_eq_true, Bool.not_eq_true']
  exact ⟨fun h => ⟨h.starts, h.goesOn⟩, fun h => ⟨h.1, h.2⟩⟩

instance : DecidablePred IsWord := fun _ => decidable_of_iff _ isWord_iff.symm

/-- A text after which a word is over: it is empty or starts with a character that ends words. -/
def EndsWord (rest : List Char) : Prop := ∀ c ∈ rest.head?, endsWord c = true

theorem endsWord_of_startsWord {c : Char} (h : startsWord c = true) : endsWord c = false := by
  simp only [startsWord, Bool.and_eq_true, Bool.not_eq_true'] at h
  exact h.1

theorem isWord_singleton {c : Char} (h : startsWord c = true) : IsWord [c] := by
  refine ⟨h, ?_⟩
  simp [endsWord_of_startsWord h]

theorem IsWord.concat {cs : List Char} {c : Char} (h : IsWord cs) (hc : endsWord c = false) :
    IsWord (cs ++ [c]) := by
  obtain ⟨hstarts, hgoesOn⟩ := h
  cases cs with
  | nil => simp at hstarts
  | cons d cs =>
    refine ⟨hstarts, fun e he => ?_⟩
    rcases List.mem_append.mp he with hmem | hmem
    · exact hgoesOn e hmem
    · rw [List.mem_singleton.mp hmem, hc]

namespace Scan

variable {s t : Scan} {p : Position} {chars cs rest : List Char} {c : Char}

theorem begin_of_startsWord (s : Scan) (hc : startsWord c = true) :
    s.begin c = .ok { s with mode := .word s.pos [c] } := by
  have hsep : ¬isSeparator c = true := by
    have hends := endsWord_of_startsWord hc
    rw [endsWord, Bool.or_eq_false_iff] at hends
    simp [hends.1]
  unfold begin
  rw [if_neg hsep]
  split
  · exact absurd hc (by decide)
  · exact absurd hc (by decide)
  · exact absurd hc (by decide)
  · exact absurd hc (by decide)
  · exact absurd hc (by decide)
  · exact absurd hc (by decide)
  · exact absurd hc (by decide)
  · exact absurd hc (by decide)
  · exact absurd hc (by decide)
  · rfl

theorem step_of_startsWord (hmode : s.mode = .between) (hc : startsWord c = true) :
    s.step c = .ok { s with pos := s.pos.next c, mode := .word s.pos [c] } := by
  have habsorb : s.absorb c = .ok { s with mode := .word s.pos [c] } := by
    rw [absorb, hmode]
    exact begin_of_startsWord s hc
  exact step_of_absorb (settle_of_between hmode c) habsorb

theorem step_of_word (hmode : s.mode = .word p chars) (hc : endsWord c = false) :
    s.step c = .ok { s with pos := s.pos.next c, mode := .word p (c :: chars) } := by
  have hsettle : s.settle c = .ok s := by
    rw [settle, hmode]
    simp [hc]
  have habsorb : s.absorb c = .ok { s with mode := .word p (c :: chars) } := by
    rw [absorb, hmode]
  exact step_of_absorb hsettle habsorb

theorem feed_of_word (hmode : s.mode = .word p chars) (hcs : ∀ c ∈ cs, endsWord c = false) :
    s.feed cs =
      .ok { s with pos := cs.foldl Position.next s.pos, mode := .word p (cs.reverse ++ chars) } := by
  induction cs generalizing s chars with
  | nil => simp [← hmode]
  | cons c cs ih =>
    rw [feed_cons, step_of_word hmode (hcs c (by simp))]
    refine (ih rfl fun d hd => hcs d (by simp [hd])).trans ?_
    simp

theorem feed_word (hmode : s.mode = .between) (hcs : IsWord cs) :
    s.feed cs =
      .ok { s with pos := cs.foldl Position.next s.pos, mode := .word s.pos cs.reverse } := by
  obtain ⟨hstarts, hgoesOn⟩ := hcs
  cases cs with
  | nil => simp at hstarts
  | cons c cs =>
    rw [feed_cons, step_of_startsWord hmode (by simpa using hstarts)]
    refine (feed_of_word rfl fun d hd => hgoesOn d (by simp [hd])).trans ?_
    simp

/-- Where a word is over, going on is going on after it. -/
theorem completed_of_endWord (hmode : s.mode = .word p chars) (h : s.endWord p chars = .ok t)
    (ht : t.mode = .between) (hrest : EndsWord rest) : s.completed rest = t.completed rest := by
  cases rest with
  | nil =>
    have hfinish : s.finish = t.finish := by
      rw [finish, finish, hmode, ht]
      simp only [h]
      rfl
    rw [completed_nil, completed_nil, hfinish]
  | cons c rest =>
    have hsettle : s.settle c = .ok t := by
      rw [settle_of_endsWord hmode (hrest c (by simp)), h]
    rw [completed_of_settle hsettle, completed_of_settle (settle_of_between ht c)]

/-- A word between forms is read as the atom that it stands for. -/
theorem completed_word {a : Atom} (hmode : s.mode = .between) (hcs : IsWord cs)
    (ha : wordAtom? cs = some a) (hrest : EndsWord rest) :
    s.completed (cs ++ rest) =
      ({ s with pos := cs.foldl Position.next s.pos }.deliver (.atom s.pos a)).completed rest := by
  rw [completed_append, feed_word hmode hcs]
  refine completed_of_endWord rfl ?_ rfl hrest
  rw [endWord, List.reverse_reverse, ha]
  rfl

end Scan

/-- A name that is read as the symbol of that name. -/
structure IsSymbol (name : String) : Prop where
  word : IsWord name.toList
  atom : wordAtom? name.toList = some (.symbol name)

theorem wordAtom?_eq_symbol {cs : List Char} {name : String}
    (h : wordAtom? cs = some (.symbol name)) : name = String.ofList cs := by
  rw [wordAtom?] at h
  split_ifs at h
  · simp at h
  · simp at h
  · simp at h
  · simp at h
  · simp at h
  · simpa using h.symm

theorem isSymbol_of_wordAtom? {cs : List Char} {name : String} (hcs : IsWord cs)
    (h : wordAtom? cs = some (.symbol name)) : IsSymbol name := by
  have hname := wordAtom?_eq_symbol h
  subst hname
  refine ⟨?_, ?_⟩
  · rwa [String.toList_ofList]
  · rwa [String.toList_ofList]

def FromWord : Form → Prop
  | .atom _ (.symbol name) => IsSymbol name
  | _ => True

namespace Scan

variable {s t : Scan} {c : Char} {f : Form}

theorem fromWord_place {done : List Form} {layers : List Layer}
    (hdone : ∀ g ∈ done, FromWord g) (hf : FromWord f) :
    ∀ g ∈ (place done layers f).1, FromWord g := by
  induction layers generalizing f with
  | nil => simpa [place] using ⟨hf, hdone⟩
  | cons l layers ih =>
    cases l with
    | opened b p items => exact hdone
    | marked m p =>
      refine ih ?_
      trivial

/-- The word being read is a word, and so are the symbols that were read. -/
structure ReadsWords (s : Scan) : Prop where
  mode : ∀ p chars, s.mode = .word p chars → IsWord chars.reverse
  done : ∀ f ∈ s.done, FromWord f

theorem readsWords_deliver (h : ∀ g ∈ s.done, FromWord g) (hf : FromWord f) :
    (s.deliver f).ReadsWords :=
  ⟨nofun, fromWord_place h hf⟩

theorem fromWord_of_wordAtom? {p : Position} {chars : List Char} {a : Atom}
    (hchars : IsWord chars.reverse) (ha : wordAtom? chars.reverse = some a) :
    FromWord (.atom p a) := by
  cases a with
  | symbol name => exact isSymbol_of_wordAtom? hchars ha
  | _ => trivial

theorem Settles.readsWords (h : Settles s c t) (hs : s.ReadsWords) : t.ReadsWords := by
  cases h with
  | stays => exact hs
  | word p chars a hmode hc ha =>
    exact readsWords_deliver hs.done (fromWord_of_wordAtom? (hs.mode p chars hmode) ha)
  | tilde p hmode hc => exact ⟨nofun, hs.done⟩

theorem Absorbs.readsWords (h : Absorbs s c t) (hs : s.ReadsWords)
    (hword : ∀ p chars, s.mode = .word p chars → endsWord c = false) : t.ReadsWords := by
  cases h with
  | separator => exact hs
  | inComment => exact hs
  | startWord hmode hc =>
    refine ⟨?_, hs.done⟩
    rintro p chars ⟨⟩
    exact isWord_singleton hc
  | inWord p chars hmode =>
    refine ⟨?_, hs.done⟩
    rintro p chars ⟨⟩
    rw [List.reverse_cons]
    exact (hs.mode _ _ hmode).concat (hword _ _ hmode)
  | closing b p items rest hmode hc hlayers =>
    exact readsWords_deliver (s := { s with layers := rest }) hs.done trivial
  | endString p chars hmode hc => exact readsWords_deliver hs.done trivial
  | _ => exact ⟨nofun, hs.done⟩

theorem readsWords_step (hs : s.ReadsWords) (h : s.step c = .ok t) : t.ReadsWords := by
  obtain ⟨u, v, hsettle, habsorb, rfl⟩ := step_eq_ok h
  have hsettles := settles_of_settle hsettle
  have hv := (absorbs_of_absorb habsorb).readsWords (hsettles.readsWords hs)
    fun p chars hmode => hsettles.not_endsWord hmode
  exact ⟨hv.mode, hv.done⟩

theorem readsWords_feed {cs : List Char} (hs : s.ReadsWords) (h : s.feed cs = .ok t) :
    t.ReadsWords :=
  feed_induction (fun _ _ _ => readsWords_step) hs h

theorem Finishes.readsWords (h : Finishes s t) (hs : s.ReadsWords) : t.ReadsWords := by
  cases h with
  | word p chars a hmode ha hlayers =>
    exact readsWords_deliver hs.done (fromWord_of_wordAtom? (hs.mode p chars hmode) ha)
  | _ => exact hs

end Scan

theorem fromWord_of_readAll {text : String} {fs : List Form} (h : readAll text = .ok fs) :
    ∀ f ∈ fs, FromWord f := by
  obtain ⟨s, t, hfeed, hfinish, rfl⟩ := readChars_eq_ok h
  have hstart : (Scan.start .start).ReadsWords := ⟨nofun, nofun⟩
  have ht := (Scan.finishes_of_finish hfinish).readsWords (Scan.readsWords_feed hstart hfeed)
  simpa using ht.done

/-- A name that is read as a symbol of its own is a word. -/
theorem isSymbol_of_readAll {name text : String} {f : Form} (h : readAll text = .ok [f])
    (hf : f.toValue = .symbol name) : IsSymbol name := by
  have hword : FromWord f := fromWord_of_readAll h f (by simp)
  cases f with
  | atom p a =>
    rw [Form.toValue] at hf
    cases hf
    exact hword
  | seq p b items =>
    rw [Form.toValue] at hf
    cases hf

end Lisp.Source
