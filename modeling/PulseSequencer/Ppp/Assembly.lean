import PulseSequencer.Machine.Instruction
import PulseSequencer.Table

/-
# PulseSequencer.Ppp.Assembly -- the lines that a source is compiled to

Lines are kept as data and become text in one place.  Each knows the line of the
source that it comes from, if there is one.
-/

namespace PulseSequencer.Ppp

set_option autoImplicit false

inductive AssemblyLine where
  /-- A cell of data memory: value, type, unit and encoding. -/
  | cell (name : String) (fields : List String)
  | constant (name value : String)
  | label (name : String)
  | instruction (opcode : Opcode) (operands : List String)
  /-- Assembly text of the source. -/
  | verbatim (text : String)
deriving Repr, DecidableEq

/-- Fields between commas, without empty ones at the end; the first one stays. -/
def joinFields : List String → String
  | [] => ""
  | first :: rest =>
      ", ".intercalate (first :: (rest.reverse.dropWhile (·.isEmpty)).reverse)

namespace AssemblyLine

def text : AssemblyLine → String
  | .cell name fields => "var " ++ name ++ " " ++ joinFields fields
  | .constant name value => "const " ++ name ++ " " ++ value
  | .label name => name ++ ":"
  | .instruction opcode [] => opcode.mnemonic
  | .instruction opcode operands => opcode.mnemonic ++ " " ++ ", ".intercalate operands
  | .verbatim text => text

/-- An instruction with one operand. -/
def unary (opcode : Opcode) (operand : String) : AssemblyLine := .instruction opcode [operand]

def jump (label : String) : AssemblyLine := unary .jmp label

end AssemblyLine

structure PlacedLine where
  line : AssemblyLine
  source : Option Nat
deriving Repr, DecidableEq

/-- A compiled source. -/
structure Assembly where
  lines : List PlacedLine
deriving Repr, DecidableEq

namespace Assembly

/-- Every line ends with a line feed. -/
def text (a : Assembly) : String :=
  String.join (a.lines.map fun l => l.line.text ++ "\n")

/-- From line numbers of the assembly, counted from one, to lines of the source. -/
def lineLookup (a : Assembly) : Table Nat Nat :=
  Table.ofList (a.lines.zipIdx.filterMap fun (l, i) => l.source.map fun source => (i + 1, source))

end Assembly

end PulseSequencer.Ppp
