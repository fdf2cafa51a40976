import Lisp.Proofs.Source.Run

/-!
# Reading by index

A reader that walks over a text by index and calls itself for the forms inside a form. Each time it
looks at a character, it asks for the one at its index, and it is undefined where the text has none.
It is defined on every text, and it reads what the scan reads.
-/

namespace Lisp.Source

/-- What is read at a place, and the place after it. -/
def Reading.result : Reading → Except Fault (Option (Form × Position))
  | .form f left => .ok (some (f, left.pos))
  | .ended => .ok none
  | .failed e _ => .error e

/-- A text, for a reader that walks over it by index. -/
abbrev Descent := List Char

namespace Descent

/-- What reads a text by index. It is undefined if it looks beyond the end, or never ends. -/
abbrev Walk (α : Type) := ExceptT Fault Option α

def current (text : Descent) (p : Position) : Option Char := text[p.index]?

def atEnd (text : Descent) (p : Position) : Bool := text.length ≤ p.index

def advance (text : Descent) (p : Position) : Option Position :=
  if atEnd text p then some p else (current text p).map p.next

def skipWhile (text : Descent) (test : Char → Bool) (p : Position) : Option Position := do
  if atEnd text p then return p
  else if test (← current text p) then text |>.skipWhile test (← advance text p)
  else return p
partial_fixpoint

def skipBlanks (text : Descent) (p : Position) : Option Position := do
  let p ← skipWhile text isSeparator p
  if atEnd text p then return p
  else if (← current text p) = ';' then
    text |>.skipBlanks (← skipWhile text (· != '\n') p)
  else return p
partial_fixpoint

def fail {α : Type} (p : Position) (e : ReadError) : Walk α :=
  throw { cause := .read e, pos := some p }

/-- The characters of a word, the newest first, and the place after it. -/
def wordChars (text : Descent) (chars : List Char) (p : Position) :
    Option (List Char × Position) := do
  if atEnd text p then return (chars, p)
  else
    let c ← current text p
    if endsWord c then return (chars, p) else text |>.wordChars (c :: chars) (← advance text p)
partial_fixpoint

def readWord (text : Descent) (p : Position) : Walk (Form × Position) := do
  let (chars, q) ← wordChars text [] p
  match wordAtom? chars.reverse with
  | some a => return (.atom p a, q)
  | none => fail q (.badNumber (String.ofList chars.reverse))

def readString (text : Descent) (start : Position) (chars : List Char) (p : Position) :
    Walk (Form × Position) := do
  if atEnd text p then fail p .unterminatedString
  else
    let c ← current text p
    if c = '"' then
      return (.atom start (.str (String.ofList chars.reverse)), ← advance text p)
    else if c = '\\' then
      let q ← advance text p
      if atEnd text q then fail q .unterminatedEscape
      else
        let d ← current text q
        text |>.readString start (Scan.unescape d :: chars) (← advance text q)
    else text |>.readString start (c :: chars) (← advance text p)
partial_fixpoint

mutual

def readForm (text : Descent) (p : Position) : Walk (Form × Position) := do
  let p ← skipBlanks text p
  if atEnd text p then fail p .endOfInput
  else
    match ← current text p with
    | '\'' => text |>.readMarked .quote p (← advance text p)
    | '\x60' => text |>.readMarked .template p (← advance text p)
    | '~' =>
      let q ← advance text p
      if current text q = some '@' then text |>.readMarked .splice p (← advance text q)
      else text |>.readMarked .unquote p q
    | '(' => text |>.readItems .list p [] (← skipBlanks text (← advance text p))
    | '[' => text |>.readItems .vector p [] (← skipBlanks text (← advance text p))
    | '"' => readString text p [] (← advance text p)
    | ')' => fail p (.strayCloser .list)
    | ']' => fail p (.strayCloser .vector)
    | _ => readWord text p
partial_fixpoint

def readMarked (text : Descent) (m : Mark) (start p : Position) : Walk (Form × Position) := do
  let (f, q) ← text |>.readForm p
  return (.seq start .list [.atom start (.symbol m.head), f], q)
partial_fixpoint

def readItems (text : Descent) (b : Bracket) (start : Position) (items : List Form)
    (p : Position) : Walk (Form × Position) := do
  if atEnd text p then fail p (.unterminated b)
  else
    let c ← current text p
    if c = b.closing then return (.seq start b items.reverse, ← advance text p)
    else if c = ')' then fail p (.mismatchedCloser .list b start)
    else if c = ']' then fail p (.mismatchedCloser .vector b start)
    else
      let (f, q) ← text |>.readForm p
      text |>.readItems b start (f :: items) (← skipBlanks text q)
partial_fixpoint

end

def readNext (text : Descent) (p : Position) : Walk (Option (Form × Position)) := do
  let p ← skipBlanks text p
  if atEnd text p then return none else return some (← readForm text p)

/-- Reads all forms from a place on. Those read before are given, the newest first. -/
def readRest (text : Descent) (forms : List Form) (p : Position) : Walk (List Form) := do
  match ← readNext text p with
  | none => return forms.reverse
  | some (f, q) => text |>.readRest (f :: forms) q
partial_fixpoint

def readAll (text : String) : Walk (List Form) := readRest text.toList [] .start

variable {text : List Char} {p q : Position}

theorem place_cases (text : List Char) (p : Position) :
    (text.drop p.index = [] ∧ atEnd text p = true) ∨
    ∃ c, text.drop p.index = c :: text.drop (p.next c).index ∧ atEnd text p = false ∧
      current text p = some c ∧ advance text p = some (p.next c) := by
  by_cases h : text.length ≤ p.index
  · exact Or.inl ⟨List.drop_eq_nil_of_le h, by simp [atEnd, h]⟩
  · have hlt : p.index < text.length := by omega
    refine Or.inr ⟨text[p.index], ?_, by simp [atEnd, hlt], by simp [current, hlt], ?_⟩
    · rw [Position.index_next]
      exact List.drop_eq_getElem_cons hlt
    · simp [advance, atEnd, current, hlt, h]

theorem skipWhile_eq (text : List Char) (test : Char → Bool) (p : Position) :
    ∃ q, skipWhile text test p = some q ∧
      q = ((text.drop p.index).takeWhile test).foldl Position.next p ∧
      text.drop q.index = (text.drop p.index).dropWhile test := by
  generalize hrest : text.drop p.index = rest
  induction rest generalizing p with
  | nil =>
    refine ⟨p, ?_, rfl, hrest⟩
    obtain ⟨-, hend⟩ | ⟨c, hc, -⟩ := place_cases text p
    · rw [skipWhile, if_pos hend]
      rfl
    · cases hrest.symm.trans hc
  | cons c rest ih =>
    obtain ⟨hnil, -⟩ | ⟨d, hd, hend, hcurrent, hadvance⟩ := place_cases text p
    · cases hrest.symm.trans hnil
    · cases hrest.symm.trans hd
      rw [skipWhile]
      by_cases htest : test c
      · obtain ⟨q, hq, hplace, hleft⟩ := ih (p.next c) rfl
        refine ⟨q, ?_, ?_, ?_⟩
        · simpa [hend, hcurrent, hadvance, htest] using hq
        · simpa [htest] using hplace
        · simpa [htest] using hleft
      · refine ⟨p, ?_, ?_, ?_⟩
        · simp [hend, hcurrent, htest]
        · simp [htest]
        · simpa [htest] using hrest

theorem skipBlanks_eq (text : List Char) (p : Position) :
    ∃ q, skipBlanks text p = some q ∧
      Cursor.skipBlanks false p (text.drop p.index) = ⟨q, text.drop q.index⟩ := by
  generalize hlength : (text.drop p.index).length = n
  induction n using Nat.strongRecOn generalizing p with
  | _ n ih =>
    obtain ⟨q, hq, hplace, hleft⟩ := skipWhile_eq text isSeparator p
    rw [Cursor.skipBlanks_separators, ← hplace, ← hleft, skipBlanks, hq]
    obtain ⟨hnil, hend⟩ | ⟨c, hc, hend, hcurrent, -⟩ := place_cases text q
    · exact ⟨q, by simp [hend], by rw [hnil, Cursor.skipBlanks]⟩
    · have hsep : isSeparator c = false := by
        have hhead := List.head?_dropWhile_not isSeparator (text.drop p.index)
        rw [← hleft, hc] at hhead
        exact hhead
      by_cases hsemicolon : c = ';'
      · subst hsemicolon
        obtain ⟨r, hr, hcomment, hafter⟩ := skipWhile_eq text (· != '\n') q
        have hshorter : (text.drop r.index).length < n := by
          have hfirst := (List.dropWhile_suffix (l := text.drop p.index) isSeparator).length_le
          have hsecond := (List.dropWhile_suffix (l := text.drop (q.next ';').index)
            (· != '\n')).length_le
          rw [← hleft, hc] at hfirst
          rw [hafter, hc]
          simp at *
          omega
        obtain ⟨t, ht, hcursor⟩ := ih _ hshorter r rfl
        refine ⟨t, by simp [hend, hcurrent, hr, ht], ?_⟩
        rw [← hcursor, hafter, hcomment, hc, Cursor.skipBlanks, if_neg (by decide),
          if_neg (by decide), if_pos rfl, Cursor.skipBlanks_comment]
        rfl
      · refine ⟨q, by simp [hend, hcurrent, hsemicolon], ?_⟩
        rw [hc, Cursor.skipBlanks, if_neg (by decide), if_neg (by simp [hsep]), if_neg hsemicolon]

/-! ## Words and strings -/

theorem bind_of_some {α β : Type} {x : Option α} {a : α} (h : x = some a) (f : α → Walk β) :
    ((x : Walk α) >>= f) = f a := by
  rw [h]
  rfl

/-- A scan at a place goes on with a form for the layers that wait, and comes to the place after it,
where fewer than `n` characters are left, or it fails. -/
def Agrees (text : List Char) (n : Nat) (here : Scan) (layers : List Layer)
    (x : Walk (Form × Position)) : Prop :=
  match x.run with
  | some (.ok (f, q)) =>
    here.run (text.drop here.pos.index) =
      ((Scan.mk q [] layers .between).deliver f).run (text.drop q.index) ∧
    (text.drop q.index).length < n
  | some (.error e) => ∃ left, here.run (text.drop here.pos.index) = .failed e left
  | none => False

variable {n : Nat} {here next : Scan} {layers inner : List Layer} {x : Walk (Form × Position)}
  {f : Form}

theorem agrees_pure (hrun : here.run (text.drop here.pos.index) =
      ((Scan.mk q [] layers .between).deliver f).run (text.drop q.index))
    (hlength : (text.drop q.index).length < n) : Agrees text n here layers (pure (f, q)) :=
  ⟨hrun, hlength⟩

theorem agrees_fail {e : ReadError} {left : List Char} (hrun : here.run (text.drop here.pos.index) =
    .failed { cause := .read e, pos := some q } left) : Agrees text n here layers (fail q e) :=
  ⟨left, hrun⟩

theorem Agrees.of_run_eq (h : Agrees text n next layers x)
    (hrun : here.run (text.drop here.pos.index) = next.run (text.drop next.pos.index)) :
    Agrees text n here layers x := by
  unfold Agrees at h ⊢
  rwa [hrun]

/-- A scan that takes in the character at its place agrees with what follows from there. -/
theorem Agrees.of_absorb {c : Char} {mode mode' : Mode} {outer outer' : List Layer}
    (hc : text.drop p.index = c :: text.drop (p.next c).index)
    (h : Agrees text n ⟨p.next c, [], outer', mode'⟩ layers x)
    (hsettle : (Scan.mk p [] outer mode).settle c = .ok ⟨p, [], outer, mode⟩)
    (habsorb : (Scan.mk p [] outer mode).absorb c = .ok ⟨p, [], outer', mode'⟩) :
    Agrees text n ⟨p, [], outer, mode⟩ layers x := by
  refine h.of_run_eq ?_
  rw [hc]
  exact Scan.run_of_absorb rfl hsettle habsorb _

theorem Agrees.bind {m : Nat} {g : Form × Position → Walk (Form × Position)}
    (h : Agrees text m here inner x)
    (hg : ∀ f q, (text.drop q.index).length < m →
      Agrees text n ((Scan.mk q [] inner .between).deliver f) layers (g (f, q))) :
    Agrees text n here layers (x >>= g) := by
  unfold Agrees at h
  match hx : x.run, h with
  | some (.ok (f, q)), h =>
    have hbind : (x >>= g) = g (f, q) := by
      change Option.bind x.run _ = _
      rw [hx]
      rfl
    rw [hbind]
    exact (hg f q h.2).of_run_eq h.1
  | some (.error e), h =>
    have hbind : (x >>= g).run = some (.error e) := by
      change Option.bind x.run _ = _
      rw [hx]
      rfl
    unfold Agrees
    rw [hbind]
    exact h

theorem wordChars_eq (text chars : List Char) (p : Position) :
    ∃ chars' q, wordChars text chars p = some (chars', q) ∧
      (text.drop q.index).length ≤ (text.drop p.index).length ∧ EndsWord (text.drop q.index) ∧
      ∀ layers start, (Scan.mk p [] layers (.word start chars)).run (text.drop p.index) =
        (Scan.mk q [] layers (.word start chars')).run (text.drop q.index) := by
  generalize hrest : text.drop p.index = rest
  induction rest generalizing p chars with
  | nil =>
    obtain ⟨-, hend⟩ | ⟨c, hc, -⟩ := place_cases text p
    · refine ⟨chars, p, ?_, by simp [hrest], by simp [hrest, EndsWord], fun _ _ => by rw [hrest]⟩
      rw [wordChars]
      simp [hend]
    · cases hrest.symm.trans hc
  | cons c rest ih =>
    obtain ⟨hnil, -⟩ | ⟨d, hd, hend, hcurrent, hadvance⟩ := place_cases text p
    · cases hrest.symm.trans hnil
    · cases hrest.symm.trans hd
      rw [wordChars]
      by_cases hends : endsWord c
      · refine ⟨chars, p, by simp [hend, hcurrent, hends], Nat.le_of_eq (by rw [hrest]), ?_,
          fun _ _ => by rw [hrest]⟩
        rw [hrest]
        rintro _ ⟨⟩
        exact hends
      · obtain ⟨chars', q, hq, hlength, hends', hrun⟩ := ih (c :: chars) (p.next c) rfl
        refine ⟨chars', q, by simpa [hend, hcurrent, hadvance, hends] using hq,
          Nat.le_succ_of_le hlength, hends', fun layers start => ?_⟩
        have hsettle : (Scan.mk p [] layers (.word start chars)).settle c =
            .ok ⟨p, [], layers, .word start chars⟩ := if_neg hends
        exact (Scan.run_of_absorb rfl hsettle rfl _).trans (hrun layers start)

theorem agrees_readWord {c : Char} (hc : text.drop p.index = c :: text.drop (p.next c).index)
    (hend : atEnd text p = false) (hcurrent : current text p = some c)
    (hadvance : advance text p = some (p.next c)) (hstarts : startsWord c = true)
    (hn : (text.drop p.index).length ≤ n) (layers : List Layer) :
    Agrees text n ⟨p, [], layers, .between⟩ layers (readWord text p) := by
  have hends := endsWord_of_startsWord hstarts
  obtain ⟨chars, q, hq, hlength, hover, hrun⟩ := wordChars_eq text [c] (p.next c)
  have hword : wordChars text [] p = some (chars, q) := by
    rw [wordChars]
    simpa [hend, hcurrent, hadvance, hends] using hq
  have hbegin : (Scan.mk p [] layers .between).absorb c = .ok ⟨p, [], layers, .word p [c]⟩ :=
    Scan.begin_of_startsWord _ hstarts
  have hscan : (Scan.mk p [] layers .between).run (text.drop p.index) =
      (Scan.mk q [] layers (.word p chars)).run (text.drop q.index) := by
    rw [hc]
    exact (Scan.run_of_absorb rfl rfl hbegin _).trans (hrun layers p)
  have hshorter : (text.drop q.index).length < n := by
    rw [hc] at hn
    exact Nat.lt_of_lt_of_le (Nat.lt_succ_of_le hlength) hn
  rw [Scan.run_of_word rfl rfl hover] at hscan
  rw [readWord, bind_of_some hword]
  cases hatom : wordAtom? chars.reverse with
  | some a =>
    simp only [hatom] at hscan ⊢
    exact agrees_pure hscan hshorter
  | none =>
    simp only [hatom] at hscan ⊢
    exact agrees_fail hscan

theorem agrees_readString (layers : List Layer) (start : Position) (chars : List Char)
    (p : Position) (hn : (text.drop p.index).length ≤ n) :
    Agrees text n ⟨p, [], layers, .string start chars⟩ layers (readString text start chars p) := by
  generalize hlength : (text.drop p.index).length = k at hn
  induction k using Nat.strongRecOn generalizing p chars with
  | _ k ih =>
    rw [readString]
    obtain ⟨hnil, hend⟩ | ⟨c, hc, hend, hcurrent, hadvance⟩ := place_cases text p
    · rw [if_pos hend]
      apply agrees_fail
      rw [hnil]
      rfl
    · rw [if_neg (by simp [hend]), bind_of_some hcurrent]
      have hshorter : (text.drop (p.next c).index).length < k := by
        rw [← hlength, hc]
        exact Nat.lt_succ_self _
      split
      · rename_i hquote
        subst hquote
        rw [bind_of_some hadvance]
        refine agrees_pure ?_ (Nat.lt_of_lt_of_le hshorter hn)
        rw [hc]
        exact Scan.run_of_absorb (s := ⟨p, [], layers, .string start chars⟩) (c := '"') rfl rfl rfl _
      · rename_i hquote
        split
        · rename_i hslash
          subst hslash
          rw [bind_of_some hadvance]
          suffices h : Agrees text n ⟨p.next '\\', [], layers, .escape start chars⟩ layers _ from
            h.of_absorb hc rfl rfl
          obtain ⟨hnil, hend⟩ | ⟨d, hd, hend, hcurrent, hadvance⟩ := place_cases text (p.next '\\')
          · rw [if_pos hend]
            apply agrees_fail
            rw [hnil]
            rfl
          · rw [if_neg (by simp [hend]), bind_of_some hcurrent, bind_of_some hadvance]
            have hshorter' : (text.drop ((p.next '\\').next d).index).length < k := by
              rw [hd] at hshorter
              exact Nat.lt_of_succ_lt hshorter
            exact (ih _ hshorter' _ _ rfl (by omega)).of_absorb hd rfl rfl
        · rename_i hslash
          rw [bind_of_some hadvance]
          refine (ih _ hshorter _ _ rfl (by omega)).of_absorb hc rfl ?_
          simp [Scan.absorb, hquote, hslash]

/-! ## Forms inside forms -/

/-- A form can start here, or a mark waits for one. -/
def Ready (text : List Char) (p : Position) (layers : List Layer) : Prop :=
  (∃ m start rest, layers = .marked m start :: rest) ∨
  ∃ c cs, (Cursor.skipBlanks false p (text.drop p.index)).rest = c :: cs ∧
    (c ≠ ')' ∧ c ≠ ']' ∨ layers = [])

theorem Agrees.of_skipBlanks {outer : List Layer}
    (h : Agrees text n ⟨q, [], outer, .between⟩ layers x)
    (hq : Cursor.skipBlanks false p (text.drop p.index) = ⟨q, text.drop q.index⟩) :
    Agrees text n ⟨p, [], outer, .between⟩ layers x := by
  have hrun := Scan.run_skipBlanks outer false p (text.drop p.index)
  rw [hq] at hrun
  exact h.of_run_eq hrun

theorem agrees_readMarked {m : Mark} {start : Position}
    (h : Agrees text n here (.marked m start :: layers) (readForm text p)) :
    Agrees text n here layers (readMarked text m start p) := by
  rw [readMarked]
  exact h.bind fun f q hlength => agrees_pure rfl hlength

/-- No blank and no comment starts here. -/
def Unblank (cs : List Char) : Prop := ∀ c ∈ cs.head?, isSeparator c = false ∧ c ≠ ';'

theorem unblank_of_skipBlanks
    (hq : Cursor.skipBlanks false p (text.drop p.index) = ⟨q, text.drop q.index⟩) :
    Unblank (text.drop q.index) := by
  cases hrest : text.drop q.index with
  | nil => exact nofun
  | cons c cs =>
    rintro _ ⟨⟩
    exact Cursor.skipBlanks_eq_cons (hq.trans (by rw [hrest]))

theorem Unblank.skipBlanks_eq (h : Unblank (text.drop p.index)) :
    Cursor.skipBlanks false p (text.drop p.index) = ⟨p, text.drop p.index⟩ := by
  cases hrest : text.drop p.index with
  | nil => rfl
  | cons c cs =>
    rw [hrest] at h
    obtain ⟨hsep, hsemicolon⟩ := h c rfl
    rw [Cursor.skipBlanks, if_neg (by decide), if_neg (by simp [hsep]), if_neg hsemicolon]

theorem startsWord_of_unblank {c : Char} (h : isSeparator c = false ∧ c ≠ ';')
    (hc : c ∉ ['\'', '\x60', '~', '(', '[', '"', ')', ']']) : startsWord c = true := by
  simp_all [startsWord, endsWord]

/-- After a tilde it is the next character that says which mark it is. -/
theorem agrees_tilde (hc : text.drop p.index = '~' :: text.drop (p.next '~').index)
    (hform : ∀ m q, (text.drop q.index).length ≤ (text.drop (p.next '~').index).length →
      Agrees text n ⟨q, [], .marked m p :: layers, .between⟩ (.marked m p :: layers)
        (readForm text q)) :
    Agrees text n ⟨p, [], layers, .between⟩ layers
      (if current text (p.next '~') = some '@' then do
        readMarked text .splice p (← advance text (p.next '~'))
      else readMarked text .unquote p (p.next '~')) := by
  suffices h : Agrees text n ⟨p.next '~', [], layers, .tilde p⟩ layers _ from h.of_absorb hc rfl rfl
  obtain ⟨hnil, hend⟩ | ⟨d, hd, hend, hcurrent, hadvance⟩ := place_cases text (p.next '~')
  · have hnone : current text (p.next '~') ≠ some '@' := by
      rw [current, List.getElem?_eq_none (by simpa [atEnd] using hend)]
      nofun
    rw [if_neg hnone]
    refine (agrees_readMarked (hform .unquote _ (Nat.le_refl _))).of_run_eq ?_
    rw [hnil]
    rfl
  · rw [hcurrent]
    by_cases hat : d = '@'
    · subst hat
      rw [if_pos rfl, bind_of_some hadvance]
      refine (agrees_readMarked (hform .splice _ ?_)).of_absorb hd rfl rfl
      rw [hd]
      exact Nat.le_succ _
    · rw [if_neg (by simpa using hat)]
      refine (agrees_readMarked (hform .unquote _ (Nat.le_refl _))).of_run_eq ?_
      have hsettle : (Scan.mk (p.next '~') [] layers (.tilde p)).settle d =
          .ok ⟨p.next '~', [], .marked .unquote p :: layers, .between⟩ := if_neg hat
      rw [hd]
      exact Scan.run_of_settle rfl hsettle rfl _

/-- What follows an opening bracket. -/
theorem agrees_opening (b : Bracket)
    (hc : text.drop p.index = b.opening :: text.drop (p.next b.opening).index)
    (hitems : ∀ q, (text.drop q.index).length ≤ (text.drop (p.next b.opening).index).length →
      Unblank (text.drop q.index) →
      Agrees text n ⟨q, [], .opened b p [] :: layers, .between⟩ layers
        (readItems text b p [] q)) :
    Agrees text n ⟨p, [], layers, .between⟩ layers (do
      readItems text b p [] (← skipBlanks text (p.next b.opening))) := by
  obtain ⟨q, hq, hcursor⟩ := skipBlanks_eq text (p.next b.opening)
  rw [bind_of_some hq]
  have hlength := Cursor.length_skipBlanks_le false (p.next b.opening)
    (text.drop (p.next b.opening).index)
  rw [hcursor] at hlength
  have hopened := (hitems q hlength (unblank_of_skipBlanks hcursor)).of_skipBlanks hcursor
  cases b with
  | list => exact hopened.of_absorb hc rfl rfl
  | vector => exact hopened.of_absorb hc rfl rfl

theorem agrees_stray (b : Bracket)
    (hc : text.drop p.index = b.closing :: text.drop (p.next b.closing).index)
    (hready : Ready text p layers) (hblank : Unblank (text.drop p.index)) :
    Agrees text n ⟨p, [], layers, .between⟩ layers (fail p (.strayCloser b)) := by
  have hlayers : layers = [] ∨ ∃ m start rest, layers = .marked m start :: rest := by
    rcases hready with hmarked | ⟨c, cs, hrest, hopen⟩
    · exact Or.inr hmarked
    · rw [hblank.skipBlanks_eq, hc] at hrest
      cases hrest
      rcases hopen with hclosing | hnil
      · cases b <;> simp [Bracket.closing] at hclosing
      · exact Or.inl hnil
  have herror : (Scan.mk p [] layers .between).absorb b.closing =
      .error { cause := .read (.strayCloser b), pos := some p } := by
    rcases hlayers with rfl | ⟨m, start, rest, rfl⟩ <;> cases b <;> rfl
  exact agrees_fail (by rw [hc]; exact Scan.run_of_error rfl rfl herror _)

theorem agrees_readForm (hready : Ready text p layers) (hn : (text.drop p.index).length ≤ n)
    (hform : ∀ q inner, (text.drop q.index).length < (text.drop p.index).length →
      Ready text q inner → Agrees text n ⟨q, [], inner, .between⟩ inner (readForm text q))
    (hitems : ∀ b start items q, (text.drop q.index).length < (text.drop p.index).length →
      Unblank (text.drop q.index) →
      Agrees text n ⟨q, [], .opened b start items :: layers, .between⟩ layers
        (readItems text b start items q)) :
    Agrees text n ⟨p, [], layers, .between⟩ layers (readForm text p) := by
  obtain ⟨q, hq, hcursor⟩ := skipBlanks_eq text p
  have hblank := unblank_of_skipBlanks hcursor
  have hlength : (text.drop q.index).length ≤ (text.drop p.index).length := by
    have hle := Cursor.length_skipBlanks_le false p (text.drop p.index)
    rwa [hcursor] at hle
  have hready' : Ready text q layers := by
    rw [Ready, hblank.skipBlanks_eq]
    rwa [Ready, hcursor] at hready
  rw [readForm, bind_of_some hq]
  refine Agrees.of_skipBlanks ?_ hcursor
  obtain ⟨hnil, hend⟩ | ⟨c, hc, hend, hcurrent, hadvance⟩ := place_cases text q
  · rw [if_pos hend]
    rcases hready' with ⟨m, start, rest, rfl⟩ | ⟨c, cs, hrest, -⟩
    · apply agrees_fail
      rw [hnil]
      rfl
    · rw [hblank.skipBlanks_eq, hnil] at hrest
      cases hrest
  · rw [if_neg (by simp [hend]), bind_of_some hcurrent]
    have hshorter : (text.drop (q.next c).index).length < (text.drop p.index).length := by
      simp only [hc, List.length_cons] at hlength
      omega
    have hmarked : ∀ m r, (text.drop r.index).length ≤ (text.drop (q.next c).index).length →
        Agrees text n ⟨r, [], .marked m q :: layers, .between⟩ (.marked m q :: layers)
          (readForm text r) :=
      fun m r hr => hform r _ (Nat.lt_of_le_of_lt hr hshorter) (Or.inl ⟨m, q, layers, rfl⟩)
    have hinside : ∀ b r, (text.drop r.index).length ≤ (text.drop (q.next c).index).length →
        Unblank (text.drop r.index) →
        Agrees text n ⟨r, [], .opened b q [] :: layers, .between⟩ layers
          (readItems text b q [] r) :=
      fun b r hr => hitems b q [] r (Nat.lt_of_le_of_lt hr hshorter)
    -- one case for each character that says what kind of form starts here
    split
    · rw [bind_of_some hadvance]
      exact (agrees_readMarked (hmarked .quote _ (Nat.le_refl _))).of_absorb hc rfl rfl
    · rw [bind_of_some hadvance]
      exact (agrees_readMarked (hmarked .template _ (Nat.le_refl _))).of_absorb hc rfl rfl
    · rw [bind_of_some hadvance]
      exact agrees_tilde hc hmarked
    · rw [bind_of_some hadvance]
      exact agrees_opening .list hc (hinside .list)
    · rw [bind_of_some hadvance]
      exact agrees_opening .vector hc (hinside .vector)
    · rw [bind_of_some hadvance]
      exact (agrees_readString layers q [] _ (by omega)).of_absorb hc rfl rfl
    · exact agrees_stray .list hc hready' hblank
    · exact agrees_stray .vector hc hready' hblank
    · have hunblank := hblank c (by rw [hc]; rfl)
      refine agrees_readWord hc hend hcurrent hadvance ?_ (by omega) layers
      exact startsWord_of_unblank hunblank (by simp_all)

theorem agrees_readItems (b : Bracket) (start : Position) (items : List Form)
    (hblank : Unblank (text.drop p.index)) (hn : (text.drop p.index).length ≤ n)
    (hform : ∀ inner, Ready text p inner →
      Agrees text (text.drop p.index).length ⟨p, [], inner, .between⟩ inner (readForm text p))
    (hitems : ∀ items q, (text.drop q.index).length < (text.drop p.index).length →
      Unblank (text.drop q.index) →
      Agrees text n ⟨q, [], .opened b start items :: layers, .between⟩ layers
        (readItems text b start items q)) :
    Agrees text n ⟨p, [], .opened b start items :: layers, .between⟩ layers
      (readItems text b start items p) := by
  rw [readItems]
  obtain ⟨hnil, hend⟩ | ⟨c, hc, hend, hcurrent, hadvance⟩ := place_cases text p
  · rw [if_pos hend]
    apply agrees_fail
    rw [hnil]
    rfl
  · rw [if_neg (by simp [hend]), bind_of_some hcurrent]
    split
    · rename_i hclosing
      subst hclosing
      rw [bind_of_some hadvance]
      have habsorb : (Scan.mk p [] (.opened b start items :: layers) .between).absorb b.closing =
          .ok ((Scan.mk p [] layers .between).deliver (.seq start b items.reverse)) := by
        cases b with
        | list => rfl
        | vector => rfl
      refine agrees_pure ?_ ?_
      · rw [hc]
        exact Scan.run_of_absorb rfl rfl habsorb _
      · simp only [hc, List.length_cons] at hn
        omega
    · rename_i hclosing
      split
      · rename_i hother
        subst hother
        have herror : (Scan.mk p [] (.opened b start items :: layers) .between).absorb ')' =
            .error { cause := .read (.mismatchedCloser .list b start), pos := some p } := by
          cases b with
          | list => exact absurd rfl hclosing
          | vector => rfl
        exact agrees_fail (by rw [hc]; exact Scan.run_of_error rfl rfl herror _)
      · rename_i hround
        split
        · rename_i hother
          subst hother
          have herror : (Scan.mk p [] (.opened b start items :: layers) .between).absorb ']' =
              .error { cause := .read (.mismatchedCloser .vector b start), pos := some p } := by
            cases b with
            | list => rfl
            | vector => exact absurd rfl hclosing
          exact agrees_fail (by rw [hc]; exact Scan.run_of_error rfl rfl herror _)
        · rename_i hsquare
          have hready : Ready text p (.opened b start items :: layers) := by
            refine Or.inr ⟨c, text.drop (p.next c).index, ?_, Or.inl ⟨hround, hsquare⟩⟩
            rw [hblank.skipBlanks_eq, hc]
          refine (hform _ hready).bind fun f q hlength => ?_
          obtain ⟨r, hr, hcursor⟩ := skipBlanks_eq text q
          simp only
          rw [bind_of_some hr]
          have hafter := unblank_of_skipBlanks hcursor
          refine Agrees.of_skipBlanks (hitems (f :: items) r ?_ hafter) hcursor
          have hle := Cursor.length_skipBlanks_le false q (text.drop q.index)
          rw [hcursor] at hle
          exact Nat.lt_of_le_of_lt hle hlength

/-- Reading by index agrees with the scan, wherever a form can start. -/
theorem agrees_of_ready (text : List Char) (k : Nat) :
    (∀ p layers n, (text.drop p.index).length = k → k ≤ n → Ready text p layers →
      Agrees text n ⟨p, [], layers, .between⟩ layers (readForm text p)) ∧
    ∀ b start items p layers n, (text.drop p.index).length = k → k ≤ n →
      Unblank (text.drop p.index) →
      Agrees text n ⟨p, [], .opened b start items :: layers, .between⟩ layers
        (readItems text b start items p) := by
  -- `k` characters are left, and fewer where a form inside a form starts
  induction k using Nat.strongRecOn with
  | _ k ih =>
    have hform : ∀ p layers n, (text.drop p.index).length = k → k ≤ n → Ready text p layers →
        Agrees text n ⟨p, [], layers, .between⟩ layers (readForm text p) := by
      rintro p layers n rfl hn hready
      refine agrees_readForm hready hn (fun q inner hlt => ?_) fun b start items q hlt => ?_
      · exact (ih _ hlt).1 q inner n rfl (by omega)
      · exact (ih _ hlt).2 b start items q layers n rfl (by omega)
    refine ⟨hform, ?_⟩
    rintro b start items p layers n rfl hn hblank
    refine agrees_readItems b start items hblank hn (fun inner => ?_) fun items q hlt => ?_
    · exact hform p inner _ rfl (Nat.le_refl _)
    · exact (ih _ hlt).2 b start items q layers n rfl (by omega)

theorem next_eq_run {c : Char} {cs : List Char}
    (h : Cursor.skipBlanks false p (text.drop p.index) = ⟨q, c :: cs⟩) :
    (Cursor.mk p (text.drop p.index)).next = (Scan.mk q [] [] .between).run (c :: cs) := by
  unfold Cursor.next
  rw [h, Scan.run]
  rfl

/-- Reading by index is defined at every place of every text, and it reads there what the scan
reads. -/
theorem readNext_eq (text : List Char) (p : Position) :
    (readNext text p).run = some (Cursor.mk p (text.drop p.index)).next.result ∧
    ∀ f left, (Cursor.mk p (text.drop p.index)).next = .form f left →
      left.rest = text.drop left.pos.index := by
  obtain ⟨q, hq, hcursor⟩ := skipBlanks_eq text p
  have hblank := unblank_of_skipBlanks hcursor
  rw [readNext, bind_of_some hq]
  obtain ⟨hnil, hend⟩ | ⟨c, hc, hend, -, -⟩ := place_cases text q
  · have hended : (Cursor.mk p (text.drop p.index)).next = .ended := by
      unfold Cursor.next
      rw [hcursor, hnil]
    rw [if_pos hend, hended]
    exact ⟨rfl, nofun⟩
  · have hnext := next_eq_run (hcursor.trans (by rw [hc]))
    have hready : Ready text q [] := Or.inr ⟨c, _, by rw [hblank.skipBlanks_eq, hc], Or.inr rfl⟩
    have hagrees := (agrees_of_ready text _).1 q [] _ rfl (Nat.le_refl _) hready
    rw [if_neg (by simp [hend]), hnext, ← hc]
    unfold Agrees at hagrees
    match hread : (readForm text q).run, hagrees with
    | some (.ok (f, r)), ⟨hrun, _⟩ =>
      have hform : (Scan.mk q [] [] .between).run (text.drop q.index) =
          .form f ⟨r, text.drop r.index⟩ := hrun.trans (Scan.run_between r f _)
      rw [hform]
      refine ⟨?_, ?_⟩
      · change Option.bind (readForm text q).run _ = _
        rw [hread]
        rfl
      · rintro _ _ ⟨⟩
        rfl
    | some (.error e), ⟨left, hrun⟩ =>
      have hfailed : (Scan.mk q [] [] .between).run (text.drop q.index) = .failed e left := hrun
      rw [hfailed]
      refine ⟨?_, nofun⟩
      change Option.bind (readForm text q).run _ = _
      rw [hread]
      rfl

theorem readRest_eq (text : List Char) (forms : List Form) {p : Position} {cur : Cursor}
    (hcur : cur = ⟨p, text.drop p.index⟩) :
    (readRest text forms p).run = some (match cur.forms with
      | (fs, none) => .ok (forms.reverse ++ fs)
      | (_, some e) => .error e) := by
  obtain ⟨hread, hleft⟩ := readNext_eq text p
  rw [← hcur] at hread hleft
  fun_induction Cursor.forms cur generalizing forms p with
  | case1 cur hnext =>
    rw [hnext] at hread
    rw [readRest]
    change Option.bind (readNext text p).run _ = _
    rw [hread]
    simp [Reading.result]
    rfl
  | case2 cur e left hnext =>
    rw [hnext] at hread
    rw [readRest]
    change Option.bind (readNext text p).run _ = _
    rw [hread]
    rfl
  | case3 cur f left hnext ih =>
    rw [hnext] at hread
    have hplace : left = ⟨left.pos, text.drop left.pos.index⟩ := by
      rw [← hleft f left hnext]
    obtain ⟨hread', hleft'⟩ := readNext_eq text left.pos
    rw [← hplace] at hread' hleft'
    rw [readRest]
    change Option.bind (readNext text p).run _ = _
    rw [hread]
    refine (ih (f :: forms) hplace hread' hleft').trans ?_
    cases hforms : left.forms with
    | mk fs e => cases e <;> simp

/-- Reading by index is defined on every text, and it reads what the scan reads. -/
theorem readAll_eq (text : String) : (readAll text).run = some (Source.readAll text) := by
  rw [readAll_eq_forms]
  exact readRest_eq text.toList [] (p := .start) rfl

end Descent

end Lisp.Source
