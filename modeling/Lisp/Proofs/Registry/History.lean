import Lisp.Proofs.Eval.Definitions
import Lisp.Session

/-!
# The history of a registry

Runtimes come and go, evaluate programs that may fail, and share a registry with the program around
them. All that they can do to it is to make definitions, and the core functions are defined once. So
a cell is there for ever as soon as its name is defined, and it holds what the last definition of its
name says.
-/

namespace Lisp

namespace Registry

/-- The names in the order of their first definition. -/
def keys (r : Registry) : List String := r.cells.map Prod.fst

theorem keys_define (r : Registry) (name : String) (v : Value) :
    (r.define name v).keys = if name ∈ r.keys then r.keys else r.keys ++ [name] := by
  change (put name v r.cells).map Prod.fst = _
  rw [keys]
  induction r.cells with
  | nil => rfl
  | cons c rest ih =>
    by_cases hc : c.1 = name
    · simp [put, hc]
    · simp only [put, hc, if_false, List.map_cons, ih]
      by_cases hname : name ∈ rest.map Prod.fst <;> simp [hname, Ne.symm hc]

theorem nodup_define {r : Registry} (h : r.keys.Nodup) (name : String) (v : Value) :
    (r.define name v).keys.Nodup := by
  rw [keys_define]
  split
  · exact h
  · rename_i hname
    simpa [List.nodup_append] using ⟨h, fun k hk hkname => hname (hkname ▸ hk)⟩

/-- A definition keeps the names that there are in their places. -/
theorem keys_isPrefix_define (r : Registry) (name : String) (v : Value) :
    r.keys <+: (r.define name v).keys := by
  rw [keys_define]
  split
  · exact List.prefix_refl _
  · exact List.prefix_append _ _

theorem cell?_eq_findIdx? (r : Registry) (name : String) :
    r.cell? name = r.keys.findIdx? (· == name) := by
  simp [cell?, keys, List.findIdx?_map, Function.comp_def]

theorem cell?_of_isPrefix {r r' : Registry} {name : String} {cell : Nat}
    (h : r.keys <+: r'.keys) (hcell : r.cell? name = some cell) : r'.cell? name = some cell := by
  obtain ⟨new, hnew⟩ := h
  rw [cell?_eq_findIdx?] at hcell ⊢
  rw [← hnew, List.findIdx?_append, hcell]
  rfl

/-- The cell with a number belongs to one name. -/
theorem keys_getElem?_of_cell? {r : Registry} {name : String} {cell : Nat}
    (h : r.cell? name = some cell) : r.keys[cell]? = some name := by
  rw [cell?_eq_findIdx?, List.findIdx?_eq_some_iff_getElem] at h
  obtain ⟨hlt, hname, -⟩ := h
  rw [List.getElem?_eq_getElem hlt, eq_of_beq hname]

theorem isSome_cell?_iff (r : Registry) (name : String) :
    (r.cell? name).isSome = true ↔ name ∈ r.keys := by
  simp [cell?_eq_findIdx?, List.findIdx?_isSome]

/-- A name has the value that its cell holds. -/
theorem bind_valueAt?_cell? (r : Registry) (name : String) :
    (r.cell? name).bind r.valueAt? = r.get? name := by
  change (r.cells.findIdx? (·.1 == name)).bind (fun i => (r.cells[i]?).map (·.2)) =
    r.cells.lookup name
  induction r.cells with
  | nil => rfl
  | cons c rest ih =>
    obtain ⟨k, w⟩ := c
    by_cases hk : k = name
    · simp [List.findIdx?_cons, hk]
    · have hne : (name == k) = false := beq_eq_false_iff_ne.2 (Ne.symm hk)
      have hkb : (k == name) = false := beq_eq_false_iff_ne.2 hk
      simp only [List.findIdx?_cons, List.lookup_cons, hkb, hne, ← ih, Option.bind_map,
        Bool.false_eq_true, if_false]
      rfl

theorem mem_names_iff (r : Registry) (name : String) : name ∈ r.names ↔ name ∈ r.keys := by
  simp [names, keys]

theorem pairwise_names {r : Registry} (h : r.keys.Nodup) : r.names.Pairwise (· < ·) := by
  have hsorted : r.names.Pairwise (fun a b => decide (a ≤ b) = true) :=
    List.pairwise_mergeSort (by simpa using fun a b c => String.le_trans)
      (by simpa using String.le_total) r.keys
  have hnodup : r.names.Nodup := (List.mergeSort_perm _ _).nodup_iff.2 h
  refine (hsorted.and hnodup).imp ?_
  rintro a b ⟨hle, hne⟩
  apply String.not_le.1
  intro hge
  exact hne (String.le_antisymm (of_decide_eq_true hle) hge)

def lastDefinition? (ds : List Definition) (name : String) : Option Value := ds.reverse.lookup name

theorem get?_defineAll (r : Registry) (ds : List Definition) (name : String) :
    (r.defineAll ds).get? name = (lastDefinition? ds name).or (r.get? name) := by
  induction ds generalizing r with
  | nil => rfl
  | cons d ds ih =>
    obtain ⟨k, v⟩ := d
    have hcons : r.defineAll ((k, v) :: ds) = (r.define k v).defineAll ds := rfl
    rw [hcons, ih, get?_define, lastDefinition?, lastDefinition?, List.reverse_cons,
      List.lookup_append, Option.or_assoc]
    by_cases hname : name = k
    · simp [hname]
    · simp [hname, List.lookup_cons, beq_eq_false_iff_ne.2 hname]

theorem nodup_defineAll {r : Registry} (h : r.keys.Nodup) (ds : List Definition) :
    (r.defineAll ds).keys.Nodup := by
  induction ds generalizing r with
  | nil => exact h
  | cons d ds ih => exact ih (nodup_define h d.1 d.2)

theorem keys_isPrefix_defineAll (r : Registry) (ds : List Definition) :
    r.keys <+: (r.defineAll ds).keys := by
  induction ds generalizing r with
  | nil => exact List.prefix_refl _
  | cons d ds ih => exact (keys_isPrefix_define r d.1 d.2).trans (ih _)

theorem coreInstalled_defineAll (r : Registry) (ds : List Definition) :
    (r.defineAll ds).coreInstalled = r.coreInstalled := by
  induction ds generalizing r with
  | nil => rfl
  | cons d ds ih => exact ih _

theorem isSome_lastDefinition?_iff (ds : List Definition) (name : String) :
    (lastDefinition? ds name).isSome = true ↔ ∃ v, (name, v) ∈ ds := by
  simp [lastDefinition?, List.lookup_isSome_iff]

def coreDefinitions : List Definition := Builtin.core.map fun b => (b.name, .builtin b)

theorem ensureCore_eq (r : Registry) :
    r.ensureCore = { r.defineAll (if r.coreInstalled then [] else coreDefinitions) with
      coreInstalled := true } := by
  obtain ⟨cells, core⟩ := r
  cases core with
  | true => rfl
  | false =>
    simp only [ensureCore, defineBuiltins, defineAll, coreDefinitions, Bool.false_eq_true, if_false,
      List.foldl_map]

theorem ensureCore_of_coreInstalled {r : Registry} (h : r.coreInstalled = true) :
    r.ensureCore = r := by
  rw [ensureCore, if_pos h]

end Registry

inductive Task where
  | request (q : Request)
  | text (t : String)
  | document (d : Document)

namespace Task

def run (o : Settings) (fuel : Nat) : Task → Eval Value
  | request q => q.run o.maxDepth fuel
  | text t => o.runText fuel t
  | document d => Program.runDocument (o.evaluator fuel) d

/-- The definitions that a task makes. A document that cannot be read makes none. -/
def definitions (o : Settings) (fuel : Nat) : Task → State → List Definition
  | request q => q.definitions o.maxDepth fuel
  | text t => Program.definitions o.maxDepth fuel t
  | document d =>
    match d.text with
    | .ok t => Program.definitions o.maxDepth fuel t
    | .error _ => fun _ => []

theorem makes_run (o : Settings) (fuel : Nat) (task : Task) :
    Eval.Makes (task.run o fuel) (task.definitions o fuel) := by
  cases task with
  | request q => exact q.makes_run o.maxDepth fuel
  | text t => exact Program.makes_run o.maxDepth fuel o.sourceName t
  | document d =>
    simp only [run, definitions, Program.runDocument]
    cases d.text with
    | ok t => exact Program.makes_run o.maxDepth fuel (some d.path) t
    | error e => exact .fail _

end Task

namespace Registry

/-- What can be done with a registry: a definition from outside, the request for the core functions,
a new runtime, and a task of a runtime, which has a depth and counters of its own in `s`. -/
inductive Event where
  | define (name : String) (v : Value)
  | ensureCore
  | attach (o : Settings)
  | evaluate (o : Settings) (s : State) (fuel : Nat) (task : Task)

namespace Event

/-- The registry after an event. A task that runs out of fuel has not ended and counts for
nothing. -/
def apply (r : Registry) : Event → Registry
  | define name v => r.define name v
  | ensureCore => r.ensureCore
  | attach o => o.prepare r
  | evaluate o s fuel task =>
    let before := { s with registry := r }
    (Session.finalState before (task.run o fuel before)).registry

/-- Whether an event asks for the core functions. -/
def asksCore : Event → Bool
  | ensureCore => true
  | attach o => !o.noBuiltins
  | _ => false

/-- The definitions that an event makes. Of all events that ask for the core functions, only
the first one defines them. -/
def definitions (coreAsked : Bool) (r : Registry) : Event → List Definition
  | define name v => [(name, v)]
  | ensureCore => if coreAsked then [] else coreDefinitions
  | attach o => if o.noBuiltins || coreAsked then [] else coreDefinitions
  | evaluate o s fuel task =>
    let before := { s with registry := r }
    match task.run o fuel before with
    | .outOfFuel => []
    | _ => task.definitions o fuel before

/-- All that an event does to a registry is to make its definitions, and to note that the core
functions were asked for. -/
theorem apply_eq (r : Registry) (event : Event) :
    event.apply r = { r.defineAll (event.definitions r.coreInstalled r) with
      coreInstalled := r.coreInstalled || event.asksCore } := by
  have hkeep (ds : List Definition) :
      r.defineAll ds = { r.defineAll ds with coreInstalled := r.coreInstalled || false } := by
    rw [Bool.or_false, ← coreInstalled_defineAll r ds]
  cases event with
  | define name v => exact hkeep [(name, v)]
  | ensureCore =>
    rw [apply, ensureCore_eq, definitions, asksCore, Bool.or_true]
  | attach o =>
    rw [apply, Settings.prepare, definitions, asksCore]
    cases o.noBuiltins with
    | true => exact hkeep []
    | false =>
      rw [ensureCore_eq]
      cases r.coreInstalled <;> simp
  | evaluate o s fuel task =>
    have hmakes := task.makes_run o fuel { s with registry := r }
    simp only [apply, definitions, asksCore, ← hkeep]
    cases h : task.run o fuel { s with registry := r } with
    | value v t =>
      rw [h] at hmakes
      exact hmakes
    | fault e t =>
      rw [h] at hmakes
      exact hmakes
    | outOfFuel => rfl

end Event

end Registry

open Registry

/-- A registry, what was defined in it since it was empty, and whether the core functions were ever
asked for. -/
structure History where
  registry : Registry := {}
  definitions : List Definition := []
  coreAsked : Bool := false

namespace History

def step (h : History) (event : Event) : History where
  registry := event.apply h.registry
  definitions := h.definitions ++ event.definitions h.coreAsked h.registry
  coreAsked := h.coreAsked || event.asksCore

def ofEvents (events : List Event) : History := events.foldl step {}

/-- The registry is what the history says. -/
structure Tells (h : History) : Prop where
  core : h.registry.coreInstalled = h.coreAsked
  nodup : h.registry.keys.Nodup
  get? (name : String) : h.registry.get? name = lastDefinition? h.definitions name

theorem Tells.step {h : History} (hh : h.Tells) (event : Event) : (h.step event).Tells := by
  have happly := event.apply_eq h.registry
  rw [hh.core] at happly
  constructor
  · exact congrArg coreInstalled happly
  · change (event.apply h.registry).keys.Nodup
    rw [happly]
    exact nodup_defineAll hh.nodup _
  · intro name
    change (event.apply h.registry).get? name = _
    rw [happly]
    refine (get?_defineAll h.registry _ name).trans ?_
    rw [hh.get?, lastDefinition?, lastDefinition?, lastDefinition?, History.step, List.reverse_append,
      List.lookup_append]

theorem keys_isPrefix_step (h : History) (event : Event) :
    h.registry.keys <+: (h.step event).registry.keys := by
  change _ <+: (event.apply h.registry).keys
  rw [event.apply_eq]
  exact keys_isPrefix_defineAll h.registry _

theorem Tells.foldl {h : History} (hh : h.Tells) (events : List Event) :
    (events.foldl History.step h).Tells := by
  induction events generalizing h with
  | nil => exact hh
  | cons event events ih => exact ih (hh.step event)

theorem keys_isPrefix_foldl (h : History) (events : List Event) :
    h.registry.keys <+: (events.foldl step h).registry.keys := by
  induction events generalizing h with
  | nil => exact List.prefix_refl _
  | cons event events ih => exact (keys_isPrefix_step h event).trans (ih _)

theorem tells_ofEvents (events : List Event) : (ofEvents events).Tells := by
  have hnew : Tells {} := ⟨rfl, List.nodup_nil, fun _ => rfl⟩
  exact hnew.foldl events

theorem coreAsked_foldl (h : History) (events : List Event) :
    (events.foldl step h).coreAsked = (h.coreAsked || events.any Event.asksCore) := by
  induction events generalizing h with
  | nil => exact (Bool.or_false _).symm
  | cons event events ih => rw [List.foldl_cons, ih, step, List.any_cons, Bool.or_assoc]

/-- The names that have a cell are those that were defined. -/
theorem Tells.mem_keys_iff {h : History} (hh : h.Tells) (name : String) :
    name ∈ h.registry.keys ↔ ∃ v, (name, v) ∈ h.definitions := by
  rw [← isSome_lastDefinition?_iff, ← hh.get?, Registry.get?, List.lookup_isSome_iff]
  simp [keys]

/-- The cell of a name holds what the last definition of the name says. -/
theorem Tells.valueAt?_of_cell? {h : History} (hh : h.Tells) {name : String} {cell : Nat}
    (hcell : h.registry.cell? name = some cell) :
    h.registry.valueAt? cell = lastDefinition? h.definitions name := by
  rw [← hh.get?, ← bind_valueAt?_cell?, hcell]
  rfl

/-- Whatever happens to a registry, whoever works on it and however it ends: a cell once given to a
name stays the cell of this name for ever, and at any time it holds the value in the last definition
of the name. No name is lost, and no two names share a cell. A look-up gives the value in the last
definition, too. The names are listed in their order and once each, and they are exactly those that
were defined. As soon as the core functions were asked for, to ask for them changes nothing. -/
theorem cells_ofEvents (events more : List Event) :
    let h := ofEvents events
    let later := ofEvents (events ++ more)
    (∀ name cell, h.registry.cell? name = some cell →
      later.registry.cell? name = some cell ∧
      later.registry.valueAt? cell = lastDefinition? later.definitions name) ∧
    (∀ name name' cell, h.registry.cell? name = some cell → h.registry.cell? name' = some cell →
      name = name') ∧
    (∀ name, h.registry.get? name = lastDefinition? h.definitions name) ∧
    h.registry.names.Pairwise (· < ·) ∧
    h.registry.names ⊆ later.registry.names ∧
    (∀ name, name ∈ h.registry.names ↔ ∃ v, (name, v) ∈ h.definitions) ∧
    (∀ name, (h.registry.cell? name).isSome = true ↔ name ∈ h.registry.names) ∧
    (events.any Event.asksCore = true → h.registry.ensureCore = h.registry) := by
  intro h later
  have hh : h.Tells := tells_ofEvents events
  have hlater : later.Tells := tells_ofEvents (events ++ more)
  have hkeys : h.registry.keys <+: later.registry.keys := by
    have happend : later = more.foldl step h := List.foldl_append
    rw [happend]
    exact keys_isPrefix_foldl h more
  refine ⟨?_, ?_, hh.get?, pairwise_names hh.nodup, ?_, ?_, ?_, ?_⟩
  · intro name cell hcell
    have hstays : later.registry.cell? name = some cell := cell?_of_isPrefix hkeys hcell
    exact ⟨hstays, hlater.valueAt?_of_cell? hstays⟩
  · intro name name' cell hcell hcell'
    exact Option.some.inj ((keys_getElem?_of_cell? hcell).symm.trans (keys_getElem?_of_cell? hcell'))
  · intro name hname
    rw [mem_names_iff] at hname ⊢
    exact hkeys.subset hname
  · intro name
    rw [mem_names_iff, hh.mem_keys_iff]
  · intro name
    rw [mem_names_iff, isSome_cell?_iff]
  · intro hasked
    apply ensureCore_of_coreInstalled
    have hcore : h.coreAsked = events.any Event.asksCore := coreAsked_foldl {} events
    rw [hh.core, hcore, hasked]

/-- A built-in name that was defined before the core functions, and again by a program that then
fails. -/
theorem cells_ofEvents_inc :
    let events := [Event.attach { noBuiltins := true }, .define "inc" (.int 7), .ensureCore,
      .evaluate {} {} 9 (.text "(def inc 1) (do (defn f [] 2) (inc 3)) (def inc 4)")]
    let more := [Event.attach {}, .define "f" (.int 5)]
    let later := ofEvents (events ++ more)
    (ofEvents events).registry.cell? "inc" = some 0 ∧ later.registry.cell? "inc" = some 0 ∧
      later.registry.valueAt? 0 = lastDefinition? later.definitions "inc" ∧
      (lastDefinition? later.definitions "inc").map Value.display = some "1" := by
  intro events more later
  have hcell : (ofEvents events).registry.cell? "inc" = some 0 := by decide +kernel
  obtain ⟨hstays, hvalue⟩ := (cells_ofEvents events more).1 "inc" 0 hcell
  exact ⟨hcell, hstays, hvalue, by decide +kernel⟩

end History

end Lisp
