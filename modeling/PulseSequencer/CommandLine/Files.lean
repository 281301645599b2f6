import PulseSequencer.Bytes
import PulseSequencer.Table
import PulseSequencer.Text.Blank
import PulseSequencer.Text.Utf8

/-
# PulseSequencer.CommandLine.Files -- files and the paths to them

A `FileTree` holds files by their places; every directory on the way to a file
exists, and so do the working directory and the common directories of a system.  A
path is followed step by step, and only a directory can be left through.
-/

namespace PulseSequencer

set_option autoImplicit false

/-- Why a file cannot be read or written. -/
inductive FileFault where
  | missing
  | notDirectory
  | directory
  | nameTooLong
  /-- The bytes are no text. -/
  | notText
  | other (reason : String)
deriving Repr, DecidableEq

/-- The number by which the system knows a fault. -/
def FileFault.code? : FileFault → Option Nat
  | .missing => some 2
  | .notDirectory => some 20
  | .directory => some 21
  | .nameTooLong => some 36
  | .notText | .other _ => none

def FileFault.ofCode? (code : Nat) : Option FileFault :=
  [FileFault.missing, .notDirectory, .directory, .nameTooLong].find? fun f => f.code? == some code

def FileFault.reason : FileFault → String
  | .missing => "No such file or directory"
  | .notDirectory => "Not a directory"
  | .directory => "Is a directory"
  | .nameTooLong => "File name too long"
  | .notText => "stream did not contain valid UTF-8"
  | .other reason => reason

/-- The reason, and the number behind it if there is one. -/
def FileFault.message (f : FileFault) : String :=
  f.reason ++ (f.code?.elim "" fun code => " (os error " ++ toString code ++ ")")

/-- The text that bytes stand for. -/
def textOfBytes (bytes : Bytes) : Except FileFault String :=
  let text := String.ofList (Text.decodeUtf8 bytes)
  if Text.utf8 text = bytes then .ok text else .error .notText

namespace FilePath

/-- The steps of a path, as it is written. -/
def steps (path : String) : List String :=
  (Text.splitAll (· = '/') path.toList).map String.ofList

def isAbsolute (path : String) : Bool := path.toList.head? == some '/'

/-- Steps that stay where they are. -/
def isIdle (step : String) : Bool := step == "" || step == "."

/-- Steps that name nothing. -/
def isDots (step : String) : Bool := isIdle step || step == ".."

/-- The name of the file that a path leads to. -/
def name? (path : String) : Option String :=
  match ((steps path).filter fun step => !isIdle step).getLast? with
  | some ".." | none => none
  | some name => some name

/-- What stands behind the last point of the name, where something precedes it. -/
def suffix? (path : String) : Option String := do
  let reversed := (← name? path).toList.reverse
  let (ending, stem) ← Text.splitFirst? (· = '.') reversed
  if stem = [] then none else some (String.ofList ending.reverse)

/-- The path of a file named in another file. -/
def beside (path name : String) : String :=
  if isAbsolute name then name
  else String.ofList (path.toList.reverse.dropWhile (· ≠ '/')).reverse ++ name

end FilePath

/-- A place in the system, by the names on the way to it. -/
abbrev Place := List String

/-- The working directory.  Paths have no empty names, so that none but the relative
ones lead to it. -/
def workingDirectory : Place := ["tmp", ""]

/-- Directories that are there besides the working directory. -/
def systemDirectories : List Place :=
  [] :: ["bin", "dev", "etc", "home", "lib", "opt", "proc", "root", "sbin", "sys", "tmp", "usr",
    "var"].map ([·])

/-- The file that has no bytes and keeps none. -/
def nullDevice : Place := ["dev", "null"]

/-- Files by their places. -/
structure FileTree where
  files : Table Place Bytes := Table.empty

namespace FileTree

/-- Files by their paths from the working directory. -/
def ofList (files : List (String × Bytes)) : FileTree :=
  ⟨Table.ofList (files.map fun (path, bytes) => (workingDirectory ++ FilePath.steps path, bytes))⟩

inductive Node where
  | file (bytes : Bytes)
  | directory
  | null

def isDirectory (t : FileTree) (place : Place) : Bool :=
  place == workingDirectory || systemDirectories.contains place ||
    t.files.keys.any place.isPrefixOf

def node? (t : FileTree) (place : Place) : Option Node :=
  match t.files.get? place with
  | some bytes => some (.file bytes)
  | none =>
      if place = nullDevice then some .null
      else if t.isDirectory place then some .directory
      else none

/-- The longest name that a file can have, in bytes. -/
def nameLimit : Nat := 255

/-- Takes one step from a place, which has to be a directory. -/
def enter (t : FileTree) (place : Place) (step : String) : Except FileFault Place :=
  match t.node? place with
  | none => .error .missing
  | some (.file _) | some .null => .error .notDirectory
  | some .directory =>
      if FilePath.isIdle step then .ok place
      else if step = ".." then .ok place.dropLast
      else if nameLimit < step.utf8ByteSize then .error .nameTooLong
      else .ok (place ++ [step])

/-- The place that a path leads to; the last step may lead to nothing. -/
def follow (t : FileTree) (path : String) (steps : List String) : Except FileFault Place :=
  if path = "" then .error .missing
  else steps.foldlM t.enter (if FilePath.isAbsolute path then [] else workingDirectory)

def read (t : FileTree) (path : String) : Except FileFault Bytes := do
  match t.node? (← t.follow path (FilePath.steps path)) with
  | none => throw .missing
  | some .directory => throw .directory
  | some .null => return []
  | some (.file bytes) => return bytes

/-- Writes a file in an existing directory. -/
def write (t : FileTree) (path : String) (bytes : Bytes) : Except FileFault FileTree := do
  let steps := FilePath.steps path
  let named := (steps.reverse.dropWhile (· = "")).reverse
  let place ← t.follow path named
  if named.length < steps.length ∨ (named.getLast?.elim true FilePath.isDots) then
    throw .directory
  match t.node? place with
  | some .directory => throw .directory
  | some .null => return t
  | some (.file _) | none => return ⟨t.files.insert place bytes⟩

end FileTree

/-- Files as far as a command can see them. -/
structure FileView where
  read : String → Except FileFault Bytes
  /-- The number of lines in all files. -/
  lines : Nat

def FileView.readText (v : FileView) (path : String) : Except FileFault String := do
  textOfBytes (← v.read path)

/-- A number of lines that the texts of files do not exceed. -/
def lineCount (files : List Bytes) : Nat := files.flatten.count 10 + files.length

def FileTree.view (t : FileTree) : FileView :=
  { read := t.read
    lines := lineCount t.files.values }

end PulseSequencer
