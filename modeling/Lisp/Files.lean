import Lisp.Fault

/-!
# Documents and files

A document is a text with the path that it came from, or the reason why the text cannot be had. A
small picture of a file system gives the documents below the directory that a program is started in.
-/

namespace Lisp

/-- The text that a path leads to, or why there is none. -/
structure Document where
  path : String
  text : Except FileError String

/-- A text in the one encoding that source texts have. -/
def decodeText (bytes : ByteArray) : Except FileError String :=
  match String.fromUTF8? bytes with
  | some text => .ok text
  | none => .error .badEncoding

inductive Entry where
  | file (bytes : ByteArray)
  | directory

/-- The files and directories below the working directory, by path. -/
structure Files where
  entries : List (String × Entry) := []

namespace Files

def nameLimit : Nat := 255

def pathLimit : Nat := 4095

def segments (path : String) : List String := path.splitOn "/"

/-- What stands at a path that has no `.` and `..` in it. The directories above a file exist. -/
def find? (fs : Files) (path : List String) : Option Entry :=
  match fs.entries.find? fun e => segments e.1 == path with
  | some e => some e.2
  | none =>
    if path.isEmpty || fs.entries.any fun e => path.isPrefixOf (segments e.1) then some .directory
    else none

/-- What every system has, by the names that lead there from the root. -/
def system : List (List String × Entry) :=
  [([], .directory), (["tmp"], .directory), (["dev"], .directory), (["dev", "null"], .file .empty)]

/-- Where a path leads: below the working directory, to names that start at the root, or to some
directory above the working directory, of which nothing else is known. -/
inductive Place where
  | below (names : List String)
  | absolute (names : List String)
  | above

def entry? (fs : Files) : Place → Option Entry
  | .below names => fs.find? names
  | .absolute names => system.lookup names
  | .above => some .directory

def Place.parent : Place → Place
  | .below [] | .above => .above
  | .below names => .below names.dropLast
  | .absolute names => .absolute names.dropLast

def Place.child? (name : String) : Place → Option Place
  | .below names => some (.below (names ++ [name]))
  | .absolute names => some (.absolute (names ++ [name]))
  | .above => none

def enter (fs : Files) (here : Place) (name : String) : Except FileError Place :=
  if nameLimit < name.utf8ByteSize then .error .nameTooLong
  else
    match here.child? name with
    | none => .error .missing
    | some there => if (fs.entry? there).isSome then .ok there else .error .missing

def follow (fs : Files) (here : Place) : List String → Except FileError Place
  | [] => .ok here
  | name :: names =>
    match fs.entry? here with
    | none => .error .missing
    | some (.file _) => .error .notDirectory
    | some .directory =>
      if name = "" ∨ name = "." then follow fs here names
      else if name = ".." then follow fs here.parent names
      else
        match fs.enter here name with
        | .error e => .error e
        | .ok there => follow fs there names

def start (path : String) : Place := if path.startsWith "/" then .absolute [] else .below []

/-- The place that a path leads to, name by name. The empty path stays in the working directory. -/
def resolve (fs : Files) (path : String) : Except FileError Place :=
  if path.contains '\x00' then .error .nulInName else fs.follow (start path) (segments path)

/-- The place that is opened at a path. Unlike one that is resolved, the path must not be too long
as a whole. -/
def locate (fs : Files) (path : String) : Except FileError Place :=
  if pathLimit < path.utf8ByteSize && !path.contains '\x00' then .error .nameTooLong
  else fs.resolve path

/-- The straight path to what stands at a path, or the path itself if that is not known. -/
def canonical (fs : Files) (path : String) : String :=
  match fs.resolve path with
  | .ok (.below names) => "/".intercalate names
  | .ok (.absolute names) => "/" ++ "/".intercalate names
  | _ => path

def read (fs : Files) (path : String) : Except FileError String := do
  match fs.entry? (← fs.locate path) with
  | some (.file bytes) => decodeText bytes
  | some .directory => throw .directory
  | none => throw .missing

def document (fs : Files) (path : String) : Document := ⟨path, fs.read path⟩

def straight (fs : Files) (path : String) : Document := fs.document (fs.canonical path)

/-- The document that a program gets which is started in the working directory. For it, the empty
path leads nowhere. -/
def fetch (fs : Files) (path : String) : Document :=
  if path = "" then ⟨path, .error .missing⟩ else fs.straight path

end Files

end Lisp
