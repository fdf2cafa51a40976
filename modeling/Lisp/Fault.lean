import Lisp.Builtin
import Lisp.Form
import Lisp.SpecialForm

/-!
# Faults

Why a text cannot be read or a program cannot go on. A fault has a cause, the place and the file
where it was met, and the calls that it passed on its way out. Values that a cause mentions are kept
as their printed text, so faults are plain data. The first place and the first file that a fault is
given stay with it.
-/

namespace Lisp

inductive ReadError where
  | endOfInput
  | unterminated (bracket : Bracket)
  | unterminatedString
  | unterminatedEscape
  | strayCloser (bracket : Bracket)
  | mismatchedCloser (closer opener : Bracket) (opened : Position)
  | badNumber (text : String)
  deriving DecidableEq

inductive Malformation where
  | argumentCount (expected given : Nat)
  | operandCount (given : Nat)
  | branchCount (given : Nat)
  | missingName
  | badName (shown : String)
  | missingParams
  | badParams (shown : String)
  | badParam (shown : String)
  | badRest
  | badClause (shown : String)
  | emptyClause
  | missingBindings
  | badBindings (shown : String)
  | oddBindings
  | badBindingName (shown : String)
  | outsideTemplate
  | spliceAlone
  | badSplice (type : String)
  deriving DecidableEq

inductive BuiltinError where
  | notNumber (op : Builtin) (place : Nat) (type : String)
  | overflow (op : Builtin)
  | divisionByZero
  | notSequence (op : Builtin) (type : String)
  | notIndex (op : Builtin) (shown : String)
  | outOfBounds (index length : Nat)
  | notText (op : Builtin) (type : String)
  | missingArgument (op : Builtin)
  deriving DecidableEq

inductive FileError where
  | missing
  | notDirectory
  | directory
  | nameTooLong
  | nulInName
  | badEncoding
  | other (reason : String)
  deriving DecidableEq

/-- The kinds of faults. A text that cannot be read may be the beginning of one that can. -/
inductive Kind where
  | unbound
  | arity
  | notInvocable
  | malformed
  | native
  | parse (incomplete : Bool)
  | tooDeep
  deriving DecidableEq

/-- Why evaluation cannot go on. -/
inductive Cause where
  | unbound (name : String)
  | arity (callee : String) (given : Nat) (accepts : String)
  | badOperator (shown type form : String)
  | badCallee (shown type : String)
  | malformed (form : SpecialForm) (error : Malformation)
  | builtin (error : BuiltinError)
  | file (path : String) (error : FileError)
  | read (error : ReadError)
  | tooDeep (limit : Nat)
  | stated (kind : Kind) (text : String)
  deriving DecidableEq

/-- A call that a fault passed, and the place of the call if it is known. -/
structure Passed where
  callee : String
  pos : Option Position
  deriving DecidableEq

structure Fault where
  cause : Cause
  pos : Option Position := none
  file : Option String := none
  /-- The calls that the fault passed, the outermost first. -/
  passed : List Passed := []
  deriving DecidableEq

/-- Whether more text could mend the fault. -/
def ReadError.incomplete : ReadError → Bool
  | endOfInput | unterminated _ | unterminatedString | unterminatedEscape => true
  | strayCloser _ | mismatchedCloser .. | badNumber _ => false

def ReadError.message : ReadError → String
  | endOfInput => "unexpected end of input"
  | unterminated b => "unterminated " ++ b.typeName
  | unterminatedString => "unterminated string"
  | unterminatedEscape => "unterminated escape"
  | strayCloser b => "unexpected closing delimiter '" ++ String.singleton b.closing ++ "'"
  | mismatchedCloser closer opener opened =>
    "unexpected closing delimiter '" ++ String.singleton closer.closing ++ "' in " ++
      opener.typeName ++ " opened at " ++ Decimal.ofNat opened.line ++ ":" ++
      Decimal.ofNat opened.col
  | badNumber text => "invalid number literal '" ++ text ++ "'"

def Malformation.message : Malformation → String
  | argumentCount expected given =>
    "expected " ++ Decimal.ofNat expected ++ " argument(s), got " ++ Decimal.ofNat given
  | operandCount given => "expected 1 argument, got " ++ Decimal.ofNat given
  | branchCount given =>
    "expected test, then and optional else, got " ++ Decimal.ofNat given ++ " form(s)"
  | missingName => "missing name"
  | badName shown => "name must be a symbol, got " ++ shown
  | missingParams => "missing parameter vector"
  | badParams shown => "expected parameter vector, got " ++ shown
  | badParam shown => "parameter must be a symbol, got " ++ shown
  | badRest => "'&' must be followed by exactly one symbol"
  | badClause shown => "expected ([params] body*), got " ++ shown
  | emptyClause => "empty arity clause"
  | missingBindings => "missing binding vector"
  | badBindings shown => "expected binding vector, got " ++ shown
  | oddBindings => "odd number of forms in binding vector"
  | badBindingName shown => "binding name must be a symbol, got " ++ shown
  | outsideTemplate => "used outside of syntax-quote"
  | spliceAlone => "only allowed inside a list or vector"
  | badSplice type => "expected a list or vector, got " ++ type

def BuiltinError.message : BuiltinError → String
  | notNumber op place type =>
    op.name ++ " expects number (arg " ++ Decimal.ofNat place ++ "), got " ++ type
  | overflow op => "integer overflow in " ++ op.name
  | divisionByZero => "division by zero"
  | notSequence op type => op.name ++ " expects a list or vector, got " ++ type
  | notIndex op shown => op.name ++ " expects non-negative int index, got " ++ shown
  | outOfBounds index length =>
    "nth index " ++ Decimal.ofNat index ++ " out of bounds for length " ++ Decimal.ofNat length
  | notText op type =>
    op.name ++ (if op = .gensym then " expects string prefix, got " else " expects string, got ")
      ++ type
  | missingArgument op => op.name ++ " expects another argument"

def FileError.message : FileError → String
  | missing => "No such file or directory (os error 2)"
  | notDirectory => "Not a directory (os error 20)"
  | directory => "Is a directory (os error 21)"
  | nameTooLong => "File name too long (os error 36)"
  | nulInName => "file name contained an unexpected NUL byte"
  | badEncoding => "stream did not contain valid UTF-8"
  | other reason => reason

def Kind.label : Kind → String
  | unbound => "Unable to resolve symbol: "
  | arity => "Arity mismatch: "
  | notInvocable => "Not invocable: "
  | malformed => "Malformed special form: "
  | native => ""
  | parse _ => "Parse error: "
  | tooDeep => "Call depth exceeded: "

def Cause.kind : Cause → Kind
  | unbound _ => .unbound
  | arity .. => .arity
  | badOperator .. | badCallee .. => .notInvocable
  | malformed .. => .malformed
  | builtin _ | file .. => .native
  | read e => .parse e.incomplete
  | tooDeep _ => .tooDeep
  | stated kind _ => kind

def Cause.message : Cause → String
  | unbound name => name
  | arity callee given accepts =>
    callee ++ " called with " ++ Decimal.ofNat given ++ " argument(s), accepts " ++ accepts
  | badOperator shown type form => shown ++ " (" ++ type ++ ") in operator position of " ++ form
  | badCallee shown type => shown ++ " (" ++ type ++ ") cannot be applied"
  | malformed form error => "(" ++ form.name ++ " ...): " ++ error.message
  | builtin error => error.message
  | file path error => "failed to read " ++ path ++ ": " ++ error.message
  | read error => error.message
  | tooDeep limit => "more than " ++ Decimal.ofNat limit ++ " nested calls"
  | stated _ text => text

namespace Fault

def kind (f : Fault) : Kind := f.cause.kind

def message (f : Fault) : String := f.cause.message

def display (f : Fault) : String := f.kind.label ++ f.message

def incomplete (f : Fault) : Bool := f.kind == .parse true

/-- Gives the fault a place, unless it has one. -/
def locate (f : Fault) (p : Position) : Fault := { f with pos := f.pos.or (some p) }

/-- Gives the fault a file, unless it has one. -/
def inFile (f : Fault) (file : Option String) : Fault := { f with file := f.file.or file }

def leave (f : Fault) (call : Passed) : Fault := { f with passed := call :: f.passed }

/-- The calls that the fault passed, the innermost first. -/
def stack (f : Fault) : List Passed := f.passed.reverse

def tag : String := "\x1b[31m[ERROR]\x1b[0m"

/-- A place and a file as reports give them, if there is anything to give. -/
def location? (file : Option String) : Option Position → Option String
  | some p =>
    some (file.getD "unknown" ++ ":" ++ Decimal.ofNat p.line ++ ":" ++ Decimal.ofNat p.col)
  | none => file

def passedLine (file : Option String) (c : Passed) : String :=
  match location? file c.pos with
  | some place => "  at " ++ c.callee ++ " (" ++ place ++ ")"
  | none => "  at " ++ c.callee

/-- The lines that report a fault: the message, its place, and the calls that it passed. -/
def report (f : Fault) : List String :=
  (tag ++ " " ++ f.display) ::
    ((location? f.file f.pos).toList.map ("  at " ++ ·) ++ f.stack.map (passedLine f.file))

end Fault

end Lisp
