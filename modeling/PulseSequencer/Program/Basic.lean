import PulseSequencer.Formula.Value
import PulseSequencer.Program.Source
import PulseSequencer.Program.Variable

/-
# PulseSequencer.Program.Basic -- an assembled pulse program

A program keeps its sources, its symbol tables, and the two memory images that
follow from them.  Its listing shows addresses by the names they have in the program.
-/

namespace PulseSequencer

set_option autoImplicit false

/-- How many words the memories of a sequencer hold. -/
structure MemoryLimits where
  code : Nat := 4096
  data : Nat := 4096
deriving Repr, DecidableEq

instance : Inhabited MemoryLimits := ⟨{}⟩

/-- A slot of data memory and its new word. -/
abbrev Change := Nat × UInt64

structure Program where
  sources : SourceSet := {}
  limits : MemoryLimits := {}
  constants : Table String Value := Table.empty
  vars : Table String Variable := Table.empty
  labels : Table String Nat := Table.empty
  code : List Instruction := []
  /-- The index of the source line of every instruction. -/
  codeLines : List Nat := []
  data : List UInt64 := []
  /-- From lines of the main file to lines of the program it was compiled from. -/
  lineLookup : Table Nat Nat := Table.empty

namespace Program

instance : Inhabited Program := ⟨{}⟩

def withLimits (limits : MemoryLimits) : Program := { limits }

def codeImage (p : Program) : Bytes := instructionBytes p.code

def dataImage (p : Program) : Bytes := bytesOfWords p.data

def find? (p : Program) (name : String) : Option Variable := p.vars.get? name

/-- The variable of a name, which has to exist. -/
def findVariable (p : Program) (name : String) : Except ProgramError Variable :=
  match p.find? name with
  | some v => .ok v
  | none => .error (.unknownVariable name)

end Program

/-! ## Listings -/

/-- One instruction with its symbolic operand and its source line. -/
structure ListingRow where
  address : Nat
  word : UInt32
  mnemonic : String
  operand : String
  source : String
deriving Repr, DecidableEq

/-- Where an instruction came from; the last number is its line in the program
that was compiled, if any. -/
structure SourceLocation where
  file : String
  line : Nat
  compiledLine : Option Nat
deriving Repr, DecidableEq

namespace Program

/-- The name of the variable at a data address, or the number itself. -/
def dataName (p : Program) (address : Nat) : String :=
  match if address % Variable.wordBytes = 0 then p.vars.entries[address / Variable.wordBytes]?
    else none with
  | some (name, _) => name
  | none => toString address

/-- The first label of a code address, or the number itself. -/
def codeName (p : Program) (address : Nat) : String :=
  match p.labels.entries.find? fun entry => entry.2 == address with
  | some (name, _) => name
  | none => toString address

def operandText (p : Program) (i : Instruction) : String :=
  match i.opcode.operandKind with
  | .none => ""
  | .literal => toString i.operand
  | .data => p.dataName i.operand
  | .code => p.codeName i.operand
  | .channelData => toString (i.operand / 4096) ++ ", " ++ p.dataName (i.operand % 4096)

def sourceLine? (p : Program) (address : Nat) : Option SourceLine := do
  let line ← p.codeLines[address]?
  p.sources.lines[line]?

def listing (p : Program) : List ListingRow :=
  p.code.zipIdx.map fun (i, address) =>
    { address, word := i.word, mnemonic := i.opcode.mnemonic, operand := p.operandText i
      source := match p.sourceLine? address with
        | some line => String.ofList (Text.trim line.text.toList)
        | none => "" }

/-- Only lines of the main file were compiled from another program. -/
def location? (p : Program) (address : Nat) : Option SourceLocation := do
  let line ← p.sourceLine? address
  let isMain := p.sources.files.keys.head? = some line.file
  return ⟨line.file, line.line, if isMain then p.lineLookup.get? line.line else none⟩

/-- The comment or name of the first exit code variable with this word. -/
def exitcodeName (p : Program) (code : UInt64) : String :=
  let matching := p.vars.values.find? fun v =>
    v.type == .exitcode && (match v.encode with
      | .ok word => word == code
      | .error _ => false)
  match matching with
  | some v => v.comment.getD v.name
  | none => "Exitcode " ++ hexText code.toNat ++ " Not found"

end Program

end PulseSequencer
