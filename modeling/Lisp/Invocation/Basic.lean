import Lisp.CommandLine
import Lisp.Line
import Lisp.Repl

/-!
# What the program does

When the program is started, it answers a question about itself, evaluates a text or a file, or talks
with its standard input, in lines. What a user means with a line as it was typed is up to the
terminal and a parameter here.
-/

namespace Lisp

namespace Invocation

def usage : String := "Usage: sprig [--repl] [-e CODE] [--max-depth N] [--no-builtins] [file]"

def helpLines : List String :=
  [usage,
   "",
   "Options:",
   "  --repl                Start the REPL, or enter it after running a script in the same context",
   "  -e CODE               Evaluate CODE and print the result",
   "  --max-depth N         Limit nested function and macro applications (SPRIG_MAX_DEPTH)",
   "  --no-builtins         Start without the core built-ins (SPRIG_NO_BUILTINS)",
   "  --version             Show version",
   "  -h, --help            Show this help",
   "",
   "Logging is controlled by SPRIG_LOG (default: warn)."]

def versionLine : String := "sprig 0.1.0"

def banner : String := "sprig REPL. :q to quit, :vars to list vars."

def unlines (lines : List String) : String := String.join (lines.map (· ++ "\n"))

structure Written where
  stdout : String := ""
  stderr : String := ""
  deriving DecidableEq

instance : Append Written := ⟨fun a b => ⟨a.stdout ++ b.stdout, a.stderr ++ b.stderr⟩⟩

/-- What a part of a run wrote, and how it goes on: with an exit code, or with the loop. -/
inductive Stage where
  | exit (code : UInt32)
  | loop (r : Repl)
  | outOfFuel

/-- Evaluates what the options name. There may be nothing to evaluate. -/
def input? (o : Options) (ev : Evaluator) (fetch : String → Document) : Option (Eval Value) :=
  match o.code, o.file with
  | some code, _ => some (Program.run ev none code)
  | none, some path => some (Program.runDocument ev (fetch path))
  | none, none => none

def proceed (o : Options) (settings : Settings) (state : State) : Written × Stage :=
  if o.wantsRepl then (⟨unlines [banner], ""⟩, .loop { settings, state }) else ({}, .exit 0)

def flush (s : State) : String × State := (s.output, { s with output := "" })

/-- Runs what the options name. The value of a text is printed, that of a file is not. -/
def runOptions (fuel : Nat) (var : String → Option String) (fetch : String → Document)
    (o : Options) : Written × Stage :=
  let settings := o.settings var
  match input? o (settings.evaluator fuel) fetch with
  | none => proceed o settings settings.freshState
  | some action =>
    match action settings.freshState with
    | .outOfFuel => ({}, .outOfFuel)
    | .fault e s => (⟨s.output, unlines e.report⟩, .exit 1)
    | .value v s =>
      let (printed, s) := flush s
      let answer := if o.code.isSome then unlines [v.display] else ""
      let (more, stage) := proceed o settings s
      (⟨printed ++ answer, ""⟩ ++ more, stage)

/-- Starts the program with the words of a command line. The environment variables and the documents
that paths lead to are given. -/
def start (fuel : Nat) (var : String → Option String) (fetch : String → Document)
    (words : List String) : Written × Stage :=
  match Command.parse words with
  | .error e => (⟨"", unlines [Fault.tag ++ " " ++ e.message, usage]⟩, .exit 2)
  | .ok .help => (⟨unlines helpLines, ""⟩, .exit 0)
  | .ok .version => (⟨unlines [versionLine], ""⟩, .exit 0)
  | .ok (.run o) => runOptions fuel var fetch o

def react (fuel : Nat) (r : Repl) (line : String) : Written × Stage :=
  let (reply, r) := r.handle fuel line
  let (printed, s) := flush r.state
  let r := { r with state := s }
  match reply with
  | .empty | .incomplete => (⟨printed, ""⟩, .loop r)
  | .value v => (⟨printed ++ unlines ["=> " ++ v.display], ""⟩, .loop r)
  | .error e => (⟨printed, unlines e.report⟩, .loop r)
  | .lines texts => (⟨printed ++ unlines texts, ""⟩, .loop r)
  | .exit => (⟨printed, ""⟩, .exit 0)
  | .outOfFuel => (⟨printed, ""⟩, .outOfFuel)

/-- The exit code when a line is broken inside a character. -/
def brokenLine : UInt32 := 101

variable (typed? : List Char → Option String)

def hearTyped (fuel : Nat) (r : Repl) (line : List Char) : Written × Stage :=
  match typed? line with
  | some text => react fuel r text
  | none => ({}, .exit brokenLine)

/-- Talks with the lines of the standard input until they end or the user leaves. -/
def converse (fuel : Nat) : Written × Stage → List (List Char) → Written × Stage
  | (w, .loop r), line :: lines =>
    let (more, stage) := hearTyped typed? fuel r line
    converse fuel (w ++ more, stage) lines
  | (w, .loop _), [] => (w, .exit 0)
  | (w, stage), _ => (w, stage)

/-- A whole run: what it wrote and its exit code, unless the fuel was used up. -/
def runTyped (fuel : Nat) (var : String → Option String) (fetch : String → Document)
    (words : List String) (stdin : String) : Option (Written × UInt32) :=
  match converse typed? fuel (start fuel var fetch words) (Line.cut stdin.toList) with
  | (w, .exit code) => some (w, code)
  | _ => none

end Invocation

end Lisp
