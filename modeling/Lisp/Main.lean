import Lisp.Invocation

/-!
# The command

The program itself: it reads the environment, the file that the command line names and the standard
input, and writes what the run says.
-/

namespace Lisp.Main

def fileError : IO.Error → FileError
  | .noFileOrDirectory .. => .missing
  | .inappropriateType _ code _ => if code = 21 then .directory else .notDirectory
  | .invalidArgument .. => .nameTooLong
  | e => .other e.toString

def fetch (path : String) : IO Document := do
  let shown ← try pure (← IO.FS.realPath path).toString catch _ => pure path
  try
    return ⟨shown, decodeText (← IO.FS.readBinFile shown)⟩
  catch e => return ⟨shown, .error (fileError e)⟩

def put (w : Invocation.Written) : IO Unit := do
  IO.print w.stdout
  IO.eprint w.stderr
  (← IO.getStdout).flush

/-- The exit code when the fuel is used up. -/
def exhausted : UInt32 := 3

partial def converse (stdin : IO.FS.Stream) (r : Repl) : IO UInt32 := do
  let line ← stdin.getLine
  if line.isEmpty then return 0
  let (w, stage) := Invocation.hear ampleFuel r line.toList
  put w
  match stage with
  | .loop r => converse stdin r
  | .exit code => return code
  | .outOfFuel => return exhausted

def namedDocument (words : List String) : IO (Option Document) := do
  match Command.parse words with
  | .ok (.run { file := some path, .. }) => return some (← fetch path)
  | _ => return none

end Lisp.Main

open Lisp Lisp.Main in
def main (words : List String) : IO UInt32 := do
  let vars ← Settings.variableNames.mapM fun name => do return (name, ← IO.getEnv name)
  let document ← namedDocument words
  let fetched path := document.getD ⟨path, .error .missing⟩
  let (w, stage) := Invocation.start ampleFuel (fun name => (vars.lookup name).join) fetched words
  put w
  match stage with
  | .loop r => converse (← IO.getStdin) r
  | .exit code => return code
  | .outOfFuel => return exhausted
