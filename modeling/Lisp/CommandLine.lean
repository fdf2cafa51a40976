import Lisp.Settings

/-!
# The command line

Options and a file name in any order. Asking for help or the version ends the matter at once. An
option that takes a value takes the next word, whatever it looks like.
-/

namespace Lisp

structure Options where
  repl : Bool := false
  code : Option String := none
  maxDepth : Option Nat := none
  noBuiltins : Bool := false
  file : Option String := none
  deriving DecidableEq

inductive Command where
  | run (o : Options)
  | help
  | version
  deriving DecidableEq

inductive UsageError where
  | missingCode
  | missingDepth
  | badDepth (text : String)
  | unknownOption (word : String)
  | unexpectedArgument (word : String)
  | codeAndFile
  deriving DecidableEq

def UsageError.message : UsageError → String
  | missingCode => "-e requires CODE"
  | missingDepth => "--max-depth requires a value"
  | badDepth text => "--max-depth must be a positive integer: " ++ text
  | unknownOption word => "unknown option: " ++ word
  | unexpectedArgument word => "unexpected argument: " ++ word
  | codeAndFile => "-e and a file cannot be combined"

namespace Options

/-- Whether to enter the read-eval-print loop: on demand, or when there is nothing to run. -/
def wantsRepl (o : Options) : Bool := o.repl || (o.code.isNone && o.file.isNone)

/-- The settings: those of the environment, overruled by the command line. -/
def settings (o : Options) (var : String → Option String) : Settings :=
  let base := Settings.ofEnvironment var
  { base with
    maxDepth := o.maxDepth.or base.maxDepth
    noBuiltins := o.noBuiltins || base.noBuiltins }

/-- Whether a word can only be an option: it starts with a dash and is longer than that. -/
def looksLikeOption (word : String) : Bool :=
  match word.toList with
  | '-' :: _ :: _ => true
  | _ => false

end Options

namespace Command

/-- Reads the words of a command line after those that gave the options so far. -/
def parseFrom (o : Options) : List String → Except UsageError Command
  | [] => if o.code.isSome && o.file.isSome then .error .codeAndFile else .ok (.run o)
  | "--repl" :: words => parseFrom { o with repl := true } words
  | "--no-builtins" :: words => parseFrom { o with noBuiltins := true } words
  | "-e" :: code :: words => parseFrom { o with code := some code } words
  | ["-e"] => .error .missingCode
  | "--max-depth" :: text :: words =>
    match Settings.depthOfText? text with
    | some n => parseFrom { o with maxDepth := some n } words
    | none => .error (.badDepth text)
  | ["--max-depth"] => .error .missingDepth
  | "--version" :: _ => .ok .version
  | "-h" :: _ | "--help" :: _ => .ok .help
  | word :: words =>
    if Options.looksLikeOption word then .error (.unknownOption word)
    else if o.file.isSome then .error (.unexpectedArgument word)
    else parseFrom { o with file := some word } words

def parse (words : List String) : Except UsageError Command := parseFrom {} words

end Command

end Lisp
