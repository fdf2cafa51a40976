import Lisp.Proofs.Eval.Balance
import Lisp.Proofs.Eval.Bounds
import Lisp.Proofs.Eval.Moment

/-!
# The calls in progress

At every moment of a run, the state counts the calls that were entered and not left, which are those
whose labels stand among the jobs that wait. A call is entered only if the limit has room for it, so
the count stays within the limit. Where a run fails, these labels are what the fault says that it
passed, although it collects them only on its way out.
-/

namespace Lisp

namespace Moment

variable {l : Option Nat} {n d : Nat} {m m' : Moment}

/-- `d` calls were in progress before the run, and the state counts all of them. -/
def Counts (d : Nat) (m : Moment) : Prop := m.state.depth = d + m.calls.length

theorem depth_of_run {b : Builtin} {args : List Value} {s t : State} {v : Value}
    (h : b.run args s = .value v t) : t.depth = s.depth := by
  have hrun := Eval.balanced_run b args s
  rw [h] at hrun
  exact hrun

theorem Counts.next (hm : m.Counts d) (h : Next l m m') : m'.Counts d := by
  cases h with
  | part hjob => exact hm
  | enter hallowed =>
    simp only [Counts, calls, List.filterMap_cons, List.length_cons] at hm ⊢
    omega
  | answer => exact hm
  | leave =>
    simp only [Counts, calls, List.filterMap_cons, List.length_cons] at hm ⊢
    omega
  | native hrun => exact (depth_of_run hrun).trans hm
  | @update f hf next ws s => exact (hf s).trans hm

theorem depth_le_of_next (hm : m.state.depth ≤ n) (h : Next (some n) m m') :
    m'.state.depth ≤ n := by
  cases h with
  | part hjob => exact hm
  | enter hallowed => exact hallowed n rfl
  | answer => exact hm
  | leave => exact Nat.le_trans (Nat.sub_le _ _) hm
  | native hrun => exact (depth_of_run hrun).symm ▸ hm
  | @update f hf next ws s => exact (hf s).symm ▸ hm

theorem Counts.reaches (hm : m.Counts d) (h : m.Reaches l m') : m'.Counts d := by
  induction h with
  | refl => exact hm
  | tail _ hnext ih => exact ih.next hnext

theorem depth_le_of_reaches (hm : m.state.depth ≤ n) (h : m.Reaches (some n) m') :
    m'.state.depth ≤ n := by
  induction h with
  | refl => exact hm
  | tail _ hnext ih => exact depth_le_of_next ih hnext

/-- With a limit of `n` calls, of which `d` were in progress before the run, a call that is refused
has the label of every further one before it, and its own. Any other failure has one label more than
there are calls, at most. -/
theorem Fails.length_labels {c : Cause} {labels : List String} (h : m.Fails (some n) c labels)
    (hcounts : m.Counts d) (hlimit : m.state.depth ≤ n) :
    (c.kind = .tooDeep → labels.length = n - d + 1) ∧
      (c.kind ≠ .tooDeep → labels.length ≤ n - d + 1) := by
  unfold Counts at hcounts
  cases h with
  | @rule _ hkind =>
    refine ⟨fun hdeep => absurd hdeep hkind, fun _ => ?_⟩
    omega
  | native hrun =>
    obtain ⟨-, -, hkind⟩ := Builtin.run_eq_fault hrun
    refine ⟨fun hdeep => ?_, fun _ => ?_⟩
    · cases hdeep.symm.trans hkind
    · simp only [List.length_cons]
      omega
  | refused hl hdepth =>
    cases hl
    refine ⟨fun _ => ?_, fun hother => absurd rfl hother⟩
    have hdepth' : n ≤ d + _ := hcounts ▸ hdepth
    simp only [List.length_cons]
    omega

end Moment

open Moment

theorem Request.counts_start (q : Request) (s : State) : (q.start s).Counts s.depth := rfl

/-- A fault passed exactly the calls that were in progress where the run failed, the innermost first,
after the built-in function that failed, if one did, or the call that was refused. So under a limit
of `n` calls, a fault for too many of them passed one call more than there was room for, and no other
fault passed more. -/
theorem Request.stack_eq_calls (l : Option Nat) (q : Request) (s t : State) (e : Fault)
    (h : Eval.Ends (fun fuel => q.run l fuel) s (.fault e t)) :
    (∃ m labels, (q.start s).Reaches l m ∧ m.Fails l e.cause labels ∧
      e.stack = labels.map (⟨·, none⟩) ∧
      ∀ m' c labels', (q.start s).Reaches l m' → m'.Fails l c labels' → m' = m) ∧
    ∀ n, l = some n → s.depth ≤ n →
      (e.kind = .tooDeep → e.stack.length = n - s.depth + 1) ∧
      (e.kind ≠ .tooDeep → e.stack.length ≤ n - s.depth + 1) := by
  obtain ⟨-, fuel, hrun⟩ := h
  have hgoes := q.goesAs l fuel s
  rw [show q.run l fuel s = .fault e t from hrun] at hgoes
  obtain ⟨m, labels, hreaches, hfails, hstack, -⟩ := hgoes
  have hbase : labels ++ (q.start s).calls = labels := List.append_nil labels
  rw [hbase] at hfails
  constructor
  · refine ⟨m, labels, hreaches, hfails, hstack, ?_⟩
    intro m' c labels' hreaches' hfails'
    exact hfails'.moment_unique hreaches' hfails hreaches
  · rintro n rfl hdepth
    rw [hstack, List.length_map]
    exact hfails.length_labels ((q.counts_start s).reaches hreaches)
      (depth_le_of_reaches hdepth hreaches)

/-- A built-in function fails inside two calls, as many as there may be. -/
theorem Request.stack_eq_calls_nested :
    let inner := Value.list [.symbol "fn", .symbol "f", .vector [],
      .list [.symbol "inc", .str "x"]]
    let q := Request.eval .empty (.list [.list [.symbol "fn", .symbol "g", .vector [],
      .list [inner]]])
    let s : State := { registry := ⟨[("inc", .builtin .inc)], false⟩ }
    ∃ m c, (q.start s).Reaches (some 2) m ∧ m.Fails (some 2) c ["inc", "f", "g"] := by
  intro inner q s
  let passed := ["inc", "f", "g"].map (⟨·, none⟩ : String → Passed)
  let e : Fault := { cause := .builtin (.notNumber .inc 1 "str"), passed := passed.reverse }
  have hend : Eval.Ends (fun fuel => q.run (some 2) fuel) s (.fault e { s with born := 2 }) :=
    ⟨nofun, 6, rfl⟩
  obtain ⟨⟨m, labels, hreaches, hfails, hstack, -⟩, -⟩ := stack_eq_calls (some 2) q s _ e hend
  have hlabels : e.stack.map Passed.callee = labels := by simp [hstack, Function.comp_def]
  rw [← hlabels] at hfails
  exact ⟨m, e.cause, hreaches, hfails⟩

end Lisp
