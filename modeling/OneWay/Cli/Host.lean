import OneWay.Cli.Path
import OneWay.Sorted.Map

/-!
# What the command line works on

`Host m` says what commands need of the machine they run on: files, two output streams, a clock
and a source of seeds. A `Desk` is such a machine made of values, so that what a command does can
be told from its result alone.
-/

namespace OneWay

/-- What reading a file gives. -/
inductive FileText where
  | missing
  | unreadable (reason : String)
  | text (content : String)
  deriving DecidableEq, Repr

/-- A machine that commands can run on. -/
class Host (m : Type → Type) where
  readFile : String → m FileText
  /-- Writes a file; the answer is what went wrong. -/
  writeFile : String → String → m (Option String)
  print : String → m Unit
  printError : String → m Unit
  /-- The time in milliseconds. -/
  clock : m Nat
  /-- A seed for random choices. -/
  entropy : m UInt64

/-- What is wrong with a path. -/
inductive PathFault where
  | missing
  | notDirectory
  | isDirectory
  | nameTooLong
  deriving DecidableEq, Repr

/-- The fault in words, with its number. -/
def PathFault.message : PathFault → String
  | .missing => "No such file or directory (os error 2)"
  | .notDirectory => "Not a directory (os error 20)"
  | .isDirectory => "Is a directory (os error 21)"
  | .nameTooLong => "File name too long (os error 36)"

/-- A place in a file tree: the names from the root on. -/
abbrev Place := List String

/-- A file tree and what has been printed. -/
structure Desk where
  /-- The contents of the files, by their places. -/
  files : SortedMap String String := ∅
  output : String := ""
  errors : String := ""
  deriving Repr, Inhabited

namespace Desk

/-- The directory that the commands run in. -/
def home : Place := ["desk"]

/-- The directories that are there without any files: the root, the usual ones in it and the one
that the commands run in. -/
def directories : List Place :=
  [] :: home :: ["bin", "dev", "etc", "home", "lib", "mnt", "opt", "proc", "root", "run", "sbin",
    "srv", "sys", "tmp", "usr", "var"].map fun name => [name]

/-- The file that is always empty, whatever is written to it. -/
def nullDevice : Place := ["dev", "null"]

/-- A place as a text. -/
def key (place : Place) : String := "/".intercalate place

/-- Whether a place is a directory: it is one of the given ones, or files lie below it. -/
def isDirectory (d : Desk) (place : Place) : Bool :=
  directories.contains place || d.files.keys.any fun k => (key place ++ "/").isPrefixOf k

/-- The content of the file at a place. -/
def fileAt? (d : Desk) (place : Place) : Option String :=
  if place = nullDevice then some "" else d.files.get? (key place)

/-- Whether a name is longer than names may be. -/
def isTooLong (name : String) : Bool := 255 < name.utf8ByteSize

/-- One step from a directory to another one. -/
def enter (d : Desk) (place : Place) (name : String) : Except PathFault Place :=
  if name = "." then .ok place
  else if name = ".." then .ok place.dropLast
  else if isTooLong name then .error .nameTooLong
  else if d.isDirectory (place ++ [name]) then .ok (place ++ [name])
  else if (d.fileAt? (place ++ [name])).isSome then .error .notDirectory
  else .error .missing

/-- The directory and the name that a path leads to; the name is absent if the path can only be
that of a directory that is there. -/
def locate (d : Desk) (path : Path) : Except PathFault (Place × Option String) := do
  let start := if path.fromRoot then [] else home
  let directory ← path.components.dropLast.foldlM d.enter start
  match path.components.getLast? with
  | none | some "." | some ".." => pure (directory, none)
  | some name => pure (directory, some name)

/-- The path of a text. It must not be longer than paths may be. -/
def pathOf (text : String) : Except PathFault Path :=
  match Path.parse? text with
  | none => .error .missing
  | some path => if 4095 < text.utf8ByteSize then .error .nameTooLong else .ok path

/-- Puts a file into the directory that the commands run in, or below it. -/
def addFile (d : Desk) (path content : String) : Desk :=
  let components := ((Path.parse? path).map (·.components)).getD []
  { d with files := d.files.insert (key (home ++ components)) content }

/-- The content of a file. -/
def content (d : Desk) (text : String) : FileText :=
  match pathOf text with
  | .error _ => .missing
  | .ok path =>
    match d.locate path with
    | .error _ => .missing
    | .ok (_, none) => .unreadable PathFault.isDirectory.message
    | .ok (directory, some name) =>
      let place := directory ++ [name]
      if isTooLong name then .missing
      else if d.isDirectory place then .unreadable PathFault.isDirectory.message
      else
        match d.fileAt? place with
        | some content => if path.endsInSlash then .missing else .text content
        | none => .missing

/-- Where a file can be written, or what prevents it. -/
def writable (d : Desk) (text : String) : Except PathFault Place := do
  let path ← pathOf text
  match ← d.locate path with
  | (_, none) => throw .isDirectory
  | (directory, some name) =>
    let place := directory ++ [name]
    if path.endsInSlash then throw .isDirectory
    else if isTooLong name then throw .nameTooLong
    else if d.isDirectory place then throw .isDirectory
    else pure place

/-- Writes a file. -/
def writeFile (d : Desk) (path content : String) : Option String × Desk :=
  match d.writable path with
  | .error f => (some f.message, d)
  | .ok place => (none, { d with files := d.files.insert (key place) content })

instance : Host (StateM Desk) where
  readFile path := do return (← get).content path
  writeFile path content := modifyGet fun d => d.writeFile path content
  print text := modify fun d => { d with output := d.output ++ text }
  printError text := modify fun d => { d with errors := d.errors ++ text }
  clock := pure 0
  entropy := pure 0

end Desk

end OneWay
