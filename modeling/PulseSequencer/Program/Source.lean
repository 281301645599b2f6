import PulseSequencer.Program.Error
import PulseSequencer.Table
import PulseSequencer.Text.Blank

/-
# PulseSequencer.Program.Source -- source files and their inclusion

A line `insert NAME` stands for the lines of the named file.  A file may be
inserted any number of times, but not inside itself.  `expand` keeps for every
line the file and the number it came from.
-/

namespace PulseSequencer

set_option autoImplicit false

/-- The files that can be inserted.  A name that cannot be read is answered by the
reason for that. -/
structure Library where
  read : String → Except String String
  /-- No more than so many names can be open inside each other. -/
  size : Nat

namespace Library

/-- No files.  The reason is the name. -/
def empty : Library := { read := .error, size := 0 }

/-- Texts by their names. -/
def ofTexts (texts : Table String String) : Library :=
  { read := fun name => (texts.get? name).elim (.error name) .ok
    size := texts.size }

end Library

/-- One line of assembly with its file and its number there, counted from one. -/
structure SourceLine where
  file : String
  line : Nat
  text : String
deriving Repr, DecidableEq

/-- The files in the order in which they first came in, and the joined lines. -/
structure SourceSet where
  files : Table String String := Table.empty
  lines : Array SourceLine := #[]

instance : Inhabited SourceSet := ⟨{}⟩

namespace SourceSet

/-- What stands before a comment. -/
def withoutComment (line : List Char) : List Char := line.takeWhile (· ≠ '#')

/-- The file that a line inserts, if it is an `insert` line. -/
def inserted? (line : List Char) : Option String :=
  (Text.after? ['i', 'n', 's', 'e', 'r', 't', ' '] (Text.trim (withoutComment line))).map
    fun name => String.ofList (Text.trim name)

/-- Keeps the first text of a file. -/
def addFile (s : SourceSet) (name text : String) : SourceSet :=
  if s.files.contains name then s else { s with files := s.files.insert name text }

/-- The lines of a text with their numbers. -/
def numbered (text : String) : List (Nat × List Char) :=
  (Text.lines text.toList).zipIdx.map fun (line, i) => (i + 1, line)

/-- Adds the lines of a file and of all it inserts.  `opened` are the files around
it, and the number bounds how deep they can still nest. -/
def splice (library : Library) : Nat → List String → String → String → SourceSet →
    Except LineError SourceSet
  | 0, _, name, _, _ => .error ⟨name, 0, "", .recursiveInsert name⟩
  | depth + 1, opened, name, text, s =>
      (numbered text).foldlM (fun s (line, chars) => do
        let fail (fault : LineFault) : LineError := ⟨name, line, String.ofList chars, fault⟩
        match inserted? chars with
        | none => return { s with lines := s.lines.push ⟨name, line, String.ofList chars⟩ }
        | some file =>
            if file ∈ name :: opened then throw (fail (.recursiveInsert file))
            match library.read file with
            | .error reason => throw (fail (.cannotInsert file reason))
            | .ok included => splice library depth (name :: opened) file included s)
        (s.addFile name text)

/-- The main file with everything inserted.  Files nest no deeper than there are
names of files, since none is open twice. -/
def expand (name text : String) (library : Library) : Except LineError SourceSet :=
  splice library (library.size + 1) [] name text {}

end SourceSet

end PulseSequencer
