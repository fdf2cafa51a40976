import Lisp.Program
import Lisp.Value.Printer

/-!
# The read-eval-print loop

Lines are collected until they hold complete forms, and only then evaluated. Between forms, a line
may also be a command.
-/

namespace Lisp

/-- A dialogue: its settings, its state, and the lines that are not complete yet. -/
structure Repl where
  settings : Settings
  state : State
  pending : String := ""

/-- What the loop answers to a line. -/
inductive Reply where
  | empty
  | incomplete
  | value (v : Value)
  | error (e : Fault)
  | lines (texts : List String)
  | exit
  | outOfFuel

namespace Repl

def ofSettings (o : Settings) : Repl := { settings := o, state := o.freshState }

/-- Whether lines wait for more. -/
def isContinuing (r : Repl) : Bool := !r.pending.isEmpty

def prompt (r : Repl) : String := if r.isContinuing then "  ...> " else "sprig> "

def discard (r : Repl) : Repl := { r with pending := "" }

inductive Command where
  | quit
  | vars
  | help
  deriving DecidableEq

/-- The command that a line without blanks around it is: one word after a colon, in any case. -/
def command? (line : List Char) : Option Command :=
  match line with
  | ':' :: name =>
    match String.ofList (name.map Char.toLower) with
    | "q" | "quit" => some .quit
    | "vars" => some .vars
    | "h" | "help" => some .help
    | _ => none
  | _ => none

def obey (r : Registry) : Command → Reply
  | .quit => .exit
  | .vars => .lines <| r.names.map fun name =>
    match r.get? name with
    | some v => name ++ " = " ++ v.display
    | none => name
  | .help => .lines [":q/:quit to exit, :vars to list defined vars"]

def evaluate (fuel : Nat) (r : Repl) (text : String) : Reply × Repl :=
  match r.settings.runText fuel text r.state with
  | .value v s => (.value v, { r with state := s })
  | .fault e s => (.error e, { r with state := s })
  | .outOfFuel => (.outOfFuel, r)

/-- Adds a line to those that wait, and evaluates them when they are complete. -/
def accept (fuel : Nat) (r : Repl) (line : String) : Reply × Repl :=
  let text := if r.isContinuing then r.pending ++ "\n" ++ line else line
  match Source.readAll text with
  | .error e => if e.incomplete then (.incomplete, { r with pending := text }) else (.error e, r.discard)
  | .ok _ => r.discard.evaluate fuel text

def handle (fuel : Nat) (r : Repl) (line : String) : Reply × Repl :=
  if r.isContinuing then r.accept fuel line
  else
    match Text.trimChars line.toList with
    | [] => (.empty, r)
    | cs =>
      match command? cs with
      | some c => (obey r.state.registry c, r)
      | none => r.accept fuel line

end Repl

end Lisp
