import Lisp.Proofs.Eval.Draws
import Lisp.Proofs.Session.Actions

/-!
# All generated names of a session differ

The runtimes of a session share one counter for generated names, and each computation goes on from
where the last one left it, whether that one ended with a value or with a fault. So no name is ever
generated twice, whoever asks for it and whatever it is to start with.
-/

namespace Lisp

theorem Eval.pervasive_isDrawing : Pervasive IsDrawing where
  compatible := compatible_isDrawing
  mapFault h g := h.mapFault g
  ofExcept r s := ⟨[], .ofExcept r s⟩
  ensureCore s := ⟨[], .ensureCore s⟩

/-- A generated name is a symbol like any other in a template. -/
theorem Eval.fill_of_autoBase?_eq_none {name : String} (h : autoBase? name = none) (ev : Evaluator)
    (env : Env Value) (names : Renaming) :
    fill ev env names (.symbol name) = pure (.symbol name, names) := by
  rw [fill, h]

namespace Session

/-- A session, and all names that were drawn in it, the first one first. A computation that runs out
of fuel has not ended, and counts for nothing. -/
inductive Drew : Session → List String → Prop
  | start (natives : Natives) : Drew { natives } []
  | attach {s : Session} {names : List String} (h : Drew s names) (extra : List Builtin)
    (home : String) (o : Settings) : Drew (s.attach extra home o) names
  | perform {s : Session} {names new : List String} {α : Type} {x : Eval α} {i : Nat} {rt : Runtime}
    (h : Drew s names) (hrt : s.runtimes[i]? = some rt) (hx : x.Draws (s.stateFor rt) new)
    (hend : x (s.stateFor rt) ≠ .outOfFuel) : Drew (s.perform i rt x).2 (names ++ new)
  | cut {s : Session} {names : List String} {α : Type} {x : Eval α} {i : Nat} {rt : Runtime}
    (h : Drew s names) (hrt : s.runtimes[i]? = some rt)
    (hcut : x (s.stateFor rt) = .outOfFuel) : Drew (s.perform i rt x).2 names

variable {s : Session} {names : List String}

/-- The names of a session carry the numbers that its counter has passed. -/
theorem Drew.numbered (h : s.Drew names) : Numbered 0 names s.drawn := by
  induction h with
  | start natives => exact .nil 0
  | attach _ extra home o ih => exact ih
  | @perform s names new α x i rt _ hrt hx hend ih =>
    have hnew := hx.numbers.after ih
    change Numbered 0 _ (finalState (s.stateFor rt) (x (s.stateFor rt))).drawn
    cases hrun : x (s.stateFor rt) with
    | value a t =>
      rw [hrun] at hnew
      exact hnew
    | fault e t =>
      rw [hrun] at hnew
      exact hnew
    | outOfFuel => exact absurd hrun hend
  | @cut s names α x i rt _ hrt hcut ih =>
    change Numbered 0 _ (finalState (s.stateFor rt) (x (s.stateFor rt))).drawn
    rw [hcut]
    exact ih

/-- Whatever an embedding program does with a runtime draws certain names. All names that are drawn
in a session, by computations that ended and by one more that may never end, differ from each other,
whatever they were to start with, and there are as many as the counter says. None of them stands for
a generated name in a template: each is kept there as it is. -/
theorem Drew.nodup_append :
    (∀ (o : Settings) {α : Type} (x : Eval α), Action o x → x.IsDrawing) ∧
    ∀ (s : Session) (names : List String), s.Drew names →
      s.drawn = names.length ∧
      ∀ {α : Type} (x : Eval α) (rt : Runtime) (new : List String), x.Draws (s.stateFor rt) new →
        (names ++ new).Nodup ∧
        ∀ name ∈ names ++ new, autoBase? name = none ∧
          ∀ ev env known, Eval.fill ev env known (.symbol name) = pure (.symbol name, known) := by
  refine ⟨fun o α x hx => Eval.pervasive_isDrawing.action hx, fun s names hs => ⟨?_, ?_⟩⟩
  · simpa using hs.numbered.length_eq
  · intro α x rt new hx
    have hall : ∃ m, Numbered 0 (names ++ new) m := by
      have hnew := hx.numbers.after hs.numbered
      cases hrun : x (s.stateFor rt) with
      | value a t =>
        rw [hrun] at hnew
        exact ⟨t.drawn, hnew⟩
      | fault e t =>
        rw [hrun] at hnew
        exact ⟨t.drawn, hnew⟩
      | outOfFuel =>
        rw [hrun] at hnew
        exact hnew
    obtain ⟨m, hm⟩ := hall
    refine ⟨hm.nodup, fun name hname => ?_⟩
    have hauto := hm.autoBase?_eq_none hname
    exact ⟨hauto, Eval.fill_of_autoBase?_eq_none hauto⟩

/-- A name that starts like a generated one, and then the name that it imitates. -/
theorem Drew.nodup_append_lookalike :
    let first := ({} : Session).attach [] "main" { noBuiltins := true }
    let rt : Runtime := { home := "main", settings := { noBuiltins := true } }
    let second := (first.perform 0 rt (Builtin.run .gensym [.str "x__1"])).2
    let x := Eval.template (eval none 0) .empty (.symbol "x#")
    second.Drew ["x__1__0"] ∧ x.Draws (second.stateFor rt) ["x__1"] ∧
    ["x__1__0", "x__1"].Nodup ∧ autoBase? "x__1" = none := by
  intro first rt second x
  have himitation : generatedName "x__1" 0 = "x__1__0" := by decide +kernel
  have himitated : generatedName "x" 1 = "x__1" := by decide +kernel
  have hfirst : second.Drew ["x__1__0"] := by
    rw [← himitation]
    refine .perform (.attach (.start _) [] "main" _) rfl (.andThen (.pure "x__1" _) rfl ?_) nofun
    have hname : (Eval.freshName "x__1").Draws (first.stateFor rt) [generatedName "x__1" 0] :=
      .freshName rfl
    exact hname.map rfl Value.symbol
  have hsecond : x.Draws (second.stateFor rt) ["x__1"] := by
    rw [← himitated]
    have hname : (Eval.freshName "x").Draws (second.stateFor rt) [generatedName "x" 1] :=
      .freshName rfl
    have hrename := hname.map rfl fun fresh => (fresh, [("x#", fresh)])
    have hfill := hrename.map rfl fun r => (Value.symbol r.1, r.2)
    exact hfill.map rfl Prod.fst
  have hall := (nodup_append.2 second _ hfirst).2 x rt _ hsecond
  exact ⟨hfirst, hsecond, hall.1, (hall.2 "x__1" (by simp)).1⟩

end Session

end Lisp
