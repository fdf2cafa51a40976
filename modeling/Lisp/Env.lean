/-!
# Lexical environments

A frame binds names to values, and an environment is a chain of frames. A name means what the
innermost frame that binds it says. Environments are immutable: binding a name makes a new one, so
a closure keeps the bindings that it was made with.
-/

namespace Lisp

variable {α : Type}

/-- One layer of bindings, the newest first. An older binding of the same name is hidden. -/
structure Frame (α : Type) where
  bindings : List (String × α)

namespace Frame

def empty : Frame α := ⟨[]⟩

def get? (f : Frame α) (name : String) : Option α := f.bindings.lookup name

def set (f : Frame α) (name : String) (a : α) : Frame α := ⟨(name, a) :: f.bindings⟩

/-- A binding put into a list that is sorted by name, in place of one with the same name. -/
def insertSorted (name : String) (a : α) : List (String × α) → List (String × α)
  | [] => [(name, a)]
  | (k, b) :: rest =>
    if name < k then (name, a) :: (k, b) :: rest
    else if name = k then (name, a) :: rest
    else (k, b) :: insertSorted name a rest

/-- The bindings in force, each name once, sorted by name. -/
def entries (f : Frame α) : List (String × α) :=
  f.bindings.foldr (fun b sorted => insertSorted b.1 b.2 sorted) []

theorem get?_empty (name : String) : (empty : Frame α).get? name = none := rfl

theorem get?_set (f : Frame α) (k name : String) (a : α) :
    (f.set k a).get? name = if name = k then some a else f.get? name := by
  by_cases h : name = k
  · simp [get?, set, h]
  · simp [get?, set, List.lookup_cons, h, beq_eq_false_iff_ne.2 h]

end Frame

/-- A chain of frames, the innermost first. -/
structure Env (α : Type) where
  inner : Frame α
  outer : List (Frame α)

namespace Env

def empty : Env α := ⟨.empty, []⟩

def child (e : Env α) : Env α := ⟨.empty, e.inner :: e.outer⟩

def set (e : Env α) (name : String) (a : α) : Env α := { e with inner := e.inner.set name a }

def parent? (e : Env α) : Option (Env α) :=
  match e.outer with
  | [] => none
  | f :: fs => some ⟨f, fs⟩

def frames (e : Env α) : List (Frame α) := e.inner :: e.outer

/-- What a name means: its binding in the innermost frame that has one. -/
def get? (e : Env α) (name : String) : Option α := e.frames.findSome? (·.get? name)

def bindsLocally (e : Env α) (name : String) : Bool := (e.inner.get? name).isSome

def depth (e : Env α) : Nat := e.outer.length + 1

/-- Every binding of every frame, the outermost frame first, so that a binding stands before those
that hide it. -/
def flatten (e : Env α) : List (String × α) := e.frames.reverse.flatMap Frame.entries

theorem get?_empty (name : String) : (empty : Env α).get? name = none := rfl

theorem get?_child (e : Env α) (name : String) : e.child.get? name = e.get? name := by
  simp [get?, child, frames, List.findSome?_cons, Frame.get?_empty]

theorem get?_set (e : Env α) (k name : String) (a : α) :
    (e.set k a).get? name = if name = k then some a else e.get? name := by
  by_cases h : name = k <;> simp [get?, set, frames, List.findSome?_cons, Frame.get?_set, h]

end Env

end Lisp
