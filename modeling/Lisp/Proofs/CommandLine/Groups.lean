import Lisp.CommandLine
import Lisp.Proofs.Value.RoundTrip

/-!
# Command lines in groups

The words of a command line come in groups: an option with its value, or a file. Each group sets one
part of the options, so that different groups may come in any order. The options that some command
line asks for are those that can be written in groups.
-/

namespace Lisp

theorem Text.trimChars_of_not_isBlank {cs : List Char} (h : ∀ c ∈ cs, isBlank c = false) :
    trimChars cs = cs := by
  have hdrop {ds : List Char} (hds : ∀ c ∈ ds, isBlank c = false) : ds.dropWhile isBlank = ds := by
    cases ds with
    | nil => rfl
    | cons d ds =>
      rw [List.dropWhile_cons, hds d List.mem_cons_self]
      rfl
  rw [trimChars, hdrop h, hdrop fun c hc => h c (List.mem_reverse.mp hc), List.reverse_reverse]

theorem Decimal.bound?_digits {n : Nat} (h : n < UInt64.size) : bound? (digits n) = some n := by
  have hsign : ∀ cs, digits n ≠ '+' :: cs := by
    intro cs hcs
    have hplus : isDigit '+' = true := isDigit_of_mem_digits (n := n) (hcs ▸ List.mem_cons_self)
    exact absurd hplus (by decide)
  rw [bound?, nat?_digits]
  · exact if_pos h
  · exact hsign

theorem Settings.depthOfText?_ofNat {n : Nat} (hpos : 0 < n) (h : n < UInt64.size) :
    depthOfText? (Decimal.ofNat n) = some n := by
  have hblank : ∀ c ∈ Decimal.digits n, Text.isBlank c = false := by
    intro c hc
    have hword := Source.endsWord_of_isDigit (Decimal.isDigit_of_mem_digits hc)
    simp only [Source.endsWord, Source.isSeparator, Bool.or_eq_false_iff] at hword
    exact hword.1.1
  rw [depthOfText?, Decimal.ofNat, String.toList_ofList, Text.trimChars_of_not_isBlank hblank,
    Decimal.bound?_digits h]
  simp [hpos]

theorem Settings.lt_of_depthOfText? {text : String} {n : Nat} (h : depthOfText? text = some n) :
    0 < n ∧ n < UInt64.size := by
  rw [depthOfText?, Option.filter_eq_some_iff] at h
  obtain ⟨hbound, hpos⟩ := h
  refine ⟨of_decide_eq_true hpos, ?_⟩
  unfold Decimal.bound? at hbound
  split at hbound
  · split at hbound
    · cases hbound
      assumption
    · cases hbound
  · cases hbound

namespace Options

/-- Each part of the options can be written: the depth limit is a positive word, and the file does
not look like an option. -/
structure PartsWritable (o : Options) : Prop where
  depth_ne_zero : o.maxDepth ≠ some 0
  depth_lt : ∀ n, o.maxDepth = some n → n < UInt64.size
  eq_dash : ∀ path, o.file = some path → path.toList.head? = some '-' → path = "-"

/-- The options can be written as a command line. They name at most one thing to run. -/
structure Writable (o : Options) : Prop extends PartsWritable o where
  not_both : ¬(o.code.isSome ∧ o.file.isSome)

theorem looksLikeOption_eq_false_iff {word : String} :
    looksLikeOption word = false ↔ (word.toList.head? = some '-' → word = "-") := by
  unfold looksLikeOption
  split
  · rename_i c cs hword
    have hne : word ≠ "-" := by
      rintro rfl
      cases hword
    simp [hword, hne]
  · rename_i hshort
    refine ⟨fun _ hhead => ?_, fun _ => rfl⟩
    obtain ⟨cs, hcs⟩ := List.head?_eq_some_iff.mp hhead
    cases cs with
    | nil => exact String.toList_inj.mp hcs
    | cons c cs => exact absurd hcs (hshort c cs)

end Options

/-- Words of a command line that belong together. -/
inductive Group where
  | repl
  | noBuiltins
  | code (text : String)
  | maxDepth (n : Nat)
  | file (path : String)
  deriving DecidableEq

namespace Group

def words : Group → List String
  | repl => ["--repl"]
  | noBuiltins => ["--no-builtins"]
  | code text => ["-e", text]
  | maxDepth n => ["--max-depth", Decimal.ofNat n]
  | file path => [path]

/-- The group sets a part of the options to what it is. -/
def Says (o : Options) : Group → Prop
  | repl => o.repl = true
  | noBuiltins => o.noBuiltins = true
  | code text => o.code = some text
  | maxDepth n => o.maxDepth = some n
  | file path => o.file = some path

end Group

def Options.set (o : Options) : Group → Options
  | .repl => { o with repl := true }
  | .noBuiltins => { o with noBuiltins := true }
  | .code text => { o with code := some text }
  | .maxDepth n => { o with maxDepth := some n }
  | .file path => { o with file := some path }

def Options.groups (o : Options) : List Group :=
  (if o.repl then [.repl] else []) ++ (if o.noBuiltins then [.noBuiltins] else []) ++
    o.code.toList.map .code ++ o.maxDepth.toList.map .maxDepth ++ o.file.toList.map .file

namespace Options

variable {o : Options} {g g' : Group}

theorem mem_groups_iff : g ∈ o.groups ↔ g.Says o := by
  obtain ⟨repl, code, maxDepth, noBuiltins, file⟩ := o
  cases g <;> cases repl <;> cases noBuiltins <;> simp [groups, Group.Says, eq_comm]

theorem nodup_groups (o : Options) : o.groups.Nodup := by
  obtain ⟨repl, code, maxDepth, noBuiltins, file⟩ := o
  cases repl <;> cases noBuiltins <;> cases code <;> cases maxDepth <;> cases file <;> simp [groups]

/-- Groups of the same options set different parts, so their order does not matter. -/
theorem set_comm (hg : g.Says o) (hg' : g'.Says o) (p : Options) :
    (p.set g).set g' = (p.set g').set g := by
  cases g <;> cases g' <;> simp_all [Group.Says, set]

theorem foldl_set_groups (o : Options) : o.groups.foldl set {} = o := by
  obtain ⟨repl, code, maxDepth, noBuiltins, file⟩ := o
  cases repl <;> cases noBuiltins <;> cases code <;> cases maxDepth <;> cases file <;> rfl

theorem foldl_set_of_perm {gs : List Group} (h : gs.Perm o.groups) : gs.foldl set {} = o := by
  have hparts : ∀ g ∈ gs, g.Says o := fun g hg => mem_groups_iff.mp (h.mem_iff.mp hg)
  rw [h.foldl_eq' fun g hg g' hg' p => set_comm (hparts g hg) (hparts g' hg') p]
  exact foldl_set_groups o

end Options

namespace Command

variable {o p : Options} {g : Group} {gs : List Group} {words : List String}

/-- A word that does not look like an option is a file. -/
theorem parseFrom_file {path : String} (h : Options.looksLikeOption path = false)
    (hnone : p.file = none) :
    parseFrom p (path :: words) = parseFrom { p with file := some path } words := by
  have hoption : path ∉ ["--repl", "--no-builtins", "-e", "--max-depth", "--version", "-h",
      "--help"] := by
    intro hmem
    simp only [List.mem_cons, List.not_mem_nil, or_false] at hmem
    rcases hmem with rfl | rfl | rfl | rfl | rfl | rfl | rfl <;> exact absurd h (by decide)
  simp only [List.mem_cons, List.not_mem_nil, or_false, not_or] at hoption
  rw [parseFrom]
  · simp [h, hnone]
  all_goals simp_all

/-- A group is read as the part of the options that it sets, if no other file was read before a
file. -/
theorem parseFrom_words (ho : o.Writable) (hg : g.Says o)
    (hfile : ∀ path, g = .file path → p.file = none) :
    parseFrom p (g.words ++ words) = parseFrom (p.set g) words := by
  cases g with
  | repl => rfl
  | noBuiltins => rfl
  | code text => rfl
  | maxDepth n =>
    have hpos : 0 < n := Nat.pos_of_ne_zero fun hn => ho.depth_ne_zero (hn ▸ hg)
    have hread := Settings.depthOfText?_ofNat hpos (ho.depth_lt n hg)
    change parseFrom p ("--max-depth" :: Decimal.ofNat n :: words) = _
    rw [parseFrom, hread]
    rfl
  | file path =>
    have hlooks := Options.looksLikeOption_eq_false_iff.mpr (ho.eq_dash path hg)
    exact parseFrom_file hlooks (hfile path rfl)

/-- Groups of the same options, no two of them the same, are read one after the other. -/
theorem parseFrom_flatMap (ho : o.Writable) (hparts : ∀ g ∈ gs, g.Says o) (hnodup : gs.Nodup)
    (hfile : ∀ path, .file path ∈ gs → p.file = none) :
    parseFrom p (gs.flatMap Group.words ++ words) = parseFrom (gs.foldl Options.set p) words := by
  induction gs generalizing p with
  | nil => rfl
  | cons g gs ih =>
    rw [List.forall_mem_cons] at hparts
    obtain ⟨hg, hgs⟩ := hparts
    obtain ⟨hnot, hnodup⟩ := List.nodup_cons.mp hnodup
    rw [List.flatMap_cons, List.append_assoc,
      parseFrom_words ho hg fun path hpath => hfile path (hpath ▸ List.mem_cons_self)]
    refine ih hgs hnodup fun path hpath => ?_
    -- a second file would be the same group again
    have hother : ∀ path', g ≠ .file path' := by
      rintro path' rfl
      have hsame : path' = path := Option.some.inj (hg.symm.trans (hgs _ hpath))
      exact hnot (hsame ▸ hpath)
    have hnone := hfile path (List.mem_cons_of_mem _ hpath)
    cases g with
    | file path' => exact absurd rfl (hother path')
    | _ => exact hnone

/-- Reading on keeps what is read so far writable, and its end demands the rest. -/
theorem writable_of_parseFrom (hp : p.PartsWritable) (h : parseFrom p words = .ok (.run o)) :
    o.Writable := by
  fun_induction parseFrom p words with
  | case2 p hboth =>
    cases h
    exact ⟨hp, by simpa using hboth⟩
  | case3 p words ih => exact ih ⟨hp.1, hp.2, hp.3⟩ h
  | case4 p words ih => exact ih ⟨hp.1, hp.2, hp.3⟩ h
  | case5 p text words ih => exact ih ⟨hp.1, hp.2, hp.3⟩ h
  | case7 p text words n hn ih =>
    obtain ⟨hpos, hlt⟩ := Settings.lt_of_depthOfText? hn
    refine ih ⟨?_, ?_, hp.eq_dash⟩ h
    · simpa using Nat.ne_of_gt hpos
    · rintro _ ⟨⟩
      exact hlt
  | case15 p path words _ _ _ _ _ _ _ _ _ hoption _ ih =>
    refine ih ⟨hp.depth_ne_zero, hp.depth_lt, ?_⟩ h
    rintro _ ⟨⟩
    exact Options.looksLikeOption_eq_false_iff.mp (eq_false_of_ne_true hoption)
  -- every other word ends the matter without options
  | _ => cases h

/-- Options with at most one thing to run, a positive depth limit and a file that does not look like
an option are read back from what they are written as, with their groups in any order, and every
command line that asks for a run asks for such options. -/
theorem parse_perm_groups :
    (∀ o : Options, o.Writable → ∀ gs : List Group, gs.Perm o.groups →
      parse (gs.flatMap Group.words) = .ok (.run o)) ∧
    ∀ words o, parse words = .ok (.run o) → o.Writable := by
  constructor
  · intro o ho gs hgs
    have hparts : ∀ g ∈ gs, g.Says o := fun g hg => Options.mem_groups_iff.mp (hgs.mem_iff.mp hg)
    have hread : parseFrom {} (gs.flatMap Group.words ++ []) =
        parseFrom (gs.foldl Options.set {}) [] :=
      parseFrom_flatMap ho hparts (hgs.nodup_iff.mpr o.nodup_groups) fun _ _ => rfl
    rw [List.append_nil, Options.foldl_set_of_perm hgs] at hread
    rw [parse, hread, parseFrom, if_neg (by simpa using ho.not_both)]
  · intro words o h
    exact writable_of_parseFrom ⟨by simp, by simp, by simp⟩ h

/-- A text to run that looks like an option, between two options, and a file that is a dash, after a
depth limit that is written in another way. -/
theorem parse_perm_groups_help :
    let o : Options :=
      { repl := true, code := some "--help", maxDepth := some 18446744073709551615 }
    let o' : Options := { maxDepth := some 7, file := some "-" }
    o.Writable ∧
      parse ["--max-depth", "18446744073709551615", "-e", "--help", "--repl"] = .ok (.run o) ∧
      parse ["--max-depth", " +7 ", "-"] = .ok (.run o') ∧ o'.Writable := by
  intro o o'
  have ho : o.Writable := ⟨⟨by decide, by rintro _ ⟨⟩; decide, nofun⟩, by decide⟩
  have hgs : [Group.maxDepth 18446744073709551615, .code "--help", .repl].Perm o.groups := by decide
  have hdepth : Decimal.ofNat 18446744073709551615 = "18446744073709551615" := by decide +kernel
  have hread := parse_perm_groups.1 o ho _ hgs
  simp only [List.flatMap_cons, Group.words, hdepth] at hread
  have hread' : parse ["--max-depth", " +7 ", "-"] = .ok (.run o') := rfl
  exact ⟨ho, hread, hread', parse_perm_groups.2 _ _ hread'⟩

end Command

end Lisp
