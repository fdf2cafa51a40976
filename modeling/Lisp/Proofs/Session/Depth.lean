import Lisp.Proofs.Eval.CallStack
import Lisp.Proofs.Repl.Answers
import Lisp.Proofs.Session.Actions

/-!
# No call outlives its request

Whatever an evaluator is asked for, it ends with as many calls in progress as it began with. A new
runtime begins with none, so between two requests there is never a call in progress, neither in a
session nor in a dialogue, and every request finds the whole depth limit at its disposal.
-/

namespace Lisp

variable {α β : Type}

namespace Eval

theorem pervasive_balanced : Pervasive Balanced where
  compatible := compatible_balanced
  mapFault h g := h.mapFault g
  ofExcept r _ := by cases r <;> rfl
  ensureCore _ := rfl

theorem balanced_request (l : Option Nat) (fuel : Nat) (q : Request) :
    Balanced (q.run l fuel) :=
  pervasive_balanced.request l fuel q

end Eval

namespace Session

inductive Arises : Session → Prop
  | start (natives : Natives) : Arises { natives }
  | attach {s : Session} (h : Arises s) (extra : List Builtin) (home : String) (o : Settings) :
    Arises (s.attach extra home o)
  | perform {s : Session} {α : Type} {x : Eval α} {i : Nat} {rt : Runtime} (h : Arises s)
    (hrt : s.runtimes[i]? = some rt) (hx : Action rt.settings x) : Arises (s.perform i rt x).2

theorem depth_finalState {o : Outcome α} {s : State} (h : o.AtDepth s.depth) :
    (finalState s o).depth = s.depth := by
  cases o with
  | value a t => exact h
  | fault e t => exact h
  | outOfFuel => rfl

/-- A session in which no call is in progress. -/
def Idle (s : Session) : Prop := ∀ rt ∈ s.runtimes, rt.depth = 0

theorem Idle.attach {s : Session} (h : s.Idle) (extra : List Builtin) (home : String)
    (o : Settings) : (s.attach extra home o).Idle := by
  intro rt hrt
  rcases List.mem_append.1 hrt with hold | hnew
  · exact h rt hold
  · rw [List.mem_singleton.1 hnew]

theorem Idle.perform {s : Session} (h : s.Idle) {x : Eval α} {i : Nat} {rt : Runtime}
    (hrt : s.runtimes[i]? = some rt) (hx : x.Balanced) : (s.perform i rt x).2.Idle := by
  intro rt' hrt'
  rcases List.mem_or_eq_of_mem_set hrt' with hold | rfl
  · exact h rt' hold
  · exact (depth_finalState (hx (s.stateFor rt))).trans (h rt (List.mem_of_getElem? hrt))

theorem Arises.idle {s : Session} (h : s.Arises) : s.Idle := by
  induction h with
  | start natives => exact nofun
  | attach _ extra home o ih => exact ih.attach extra home o
  | perform _ hrt hx ih => exact ih.perform hrt (Eval.pervasive_balanced.action hx)

end Session

namespace Repl

inductive Arises : Repl → Prop
  | start (o : Settings) : Arises (.ofSettings o)
  | line {r : Repl} (h : Arises r) (fuel : Nat) (line : String) : Arises (r.handle fuel line).2
  | discard {r : Repl} (h : Arises r) : Arises r.discard

theorem depth_handle (r : Repl) (fuel : Nat) (line : String) :
    (r.handle fuel line).2.state.depth = r.state.depth := by
  have hrun := Eval.pervasive_balanced.programRun r.settings.maxDepth fuel r.settings.sourceName
    (r.buffer line) r.state
  change (r.settings.runText fuel (r.buffer line) r.state).AtDepth r.state.depth at hrun
  cases hanswer : r.handle fuel line with
  | mk reply r' =>
    cases answers_of_handle hanswer with
    | value fs v s hread hvalue =>
      rw [hvalue] at hrun
      exact hrun
    | fault fs e s hread hfault =>
      rw [hfault] at hrun
      exact hrun
    | _ => rfl

theorem Arises.depth_eq_zero {r : Repl} (h : r.Arises) : r.state.depth = 0 := by
  induction h with
  | start o => rfl
  | line _ fuel line ih => exact (depth_handle _ fuel line).trans ih
  | discard _ ih => exact ih

end Repl

/-- The calls in progress are counted right: every request leaves their number as it was, however it
ends. Under a limit that allows the calls before the request, no moment of the run that answers it
has more of them than the limit. Between the steps of a session or of a dialogue there are none. -/
theorem Request.depth_balanced :
    (∀ (l : Option Nat) (fuel : Nat) (q : Request) (s : State),
      (q.run l fuel s).AtDepth s.depth ∧
      Moment.GoesAs l (q.start s) (fun v t => ⟨.done v, [], t⟩) (q.run l fuel s)) ∧
    (∀ (n : Nat) (q : Request) (s : State) (m : Moment), s.depth ≤ n →
      (q.start s).Reaches (some n) m → m.state.depth ≤ n) ∧
    (∀ s : Session, s.Arises → ∀ rt ∈ s.runtimes, rt.depth = 0) ∧
    ∀ r : Repl, r.Arises → r.state.depth = 0 := by
  refine ⟨?_, ?_, fun s hs => hs.idle, fun r hr => hr.depth_eq_zero⟩
  · intro l fuel q s
    exact ⟨Eval.balanced_request l fuel q s, q.goesAs l fuel s⟩
  · intro n q s m hdepth hreaches
    exact Moment.depth_le_of_reaches hdepth hreaches

/-- A function that calls itself until the limit stops it, also as a step of a session. -/
theorem Request.depth_balanced_endless :
    let q := Request.eval .empty (.list [.list [.symbol "fn", .symbol "f", .vector [],
      .list [.symbol "f"]]])
    let session := (({} : Session).attach [] "main" { maxDepth := some 2 }).perform 0
      ⟨"main", { maxDepth := some 2 }, 0⟩ (q.run (some 2) 9)
    (∃ e t, q.run (some 2) 9 { depth := 1 } = .fault e t ∧ e.kind = .tooDeep ∧ t.depth = 1) ∧
    (∀ m, (q.start { depth := 1 }).Reaches (some 2) m → m.state.depth ≤ 2) ∧
    (∀ rt ∈ session.2.runtimes, rt.depth = 0) ∧
    ((Repl.ofSettings {}).handle 9 "(").2.state.depth = 0 := by
  intro q session
  obtain ⟨hrun, hmoments, hsession, hrepl⟩ := depth_balanced
  have hends : q.run (some 2) 9 { depth := 1 } =
      .fault { cause := .tooDeep 2, passed := [⟨"f", none⟩, ⟨"f", none⟩] }
        { depth := 1, born := 1 } := rfl
  have hdepth := (hrun (some 2) 9 q { depth := 1 }).1
  rw [hends] at hdepth
  have harises : session.2.Arises := .perform (.attach (.start _) _ _ _) rfl (.request 9 q)
  exact ⟨⟨_, _, hends, rfl, hdepth⟩, fun m => hmoments 2 q _ m (by decide),
    hsession _ harises, hrepl _ (.line (.start {}) 9 "(")⟩

end Lisp
