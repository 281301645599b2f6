import PulseSequencer.Encoding.Word
import PulseSequencer.Formula.Basic
import PulseSequencer.Formula.Lexer
import PulseSequencer.Formula.Value
import PulseSequencer.Report.Basic

/-
# PulseSequencer.Report.Values -- reports on units, encodings, values and formulas
-/

namespace PulseSequencer

set_option autoImplicit false

namespace Report

/-- Negative, zero or positive. -/
def ordering : Ordering → Report
  | .lt => .number (-1)
  | .eq => .number 0
  | .gt => .number 1

instance : Reported Ordering := ⟨ordering⟩

instance : Reported PhysicalUnit :=
  ⟨fun u => .record [("symbol", u.symbol), ("scale", u.scale),
    ("dims", BaseDimension.all.map fun b => Report.number (u.dimension.exponent b).toInt),
    ("dims_text", u.dimension.text)]⟩

instance : Reported Quantity :=
  ⟨fun q => .record [("m", q.magnitude), ("u", q.unit.symbol), ("s", q.text)]⟩

def representation : Representation → String
  | .unsigned => "unsigned"
  | .twosComplement => "twos_complement"
  | .offset => "offset"

instance : Reported (Encoding Float) :=
  ⟨fun e => .record [("name", e.name), ("bits", e.bits), ("mask_bits", e.maskBits),
    ("unit", e.unit), ("representation", representation e.representation), ("step", e.step),
    ("min", e.lower), ("max", e.upper), ("periodic", e.periodic)]⟩

/-! ## Values and formulas -/

def typed (kind : String) (value : Report) : Report := .record [("t", kind), ("v", value)]

mutual

def value : Value → Report
  | .bool b => typed "bool" b
  | .int n => typed "int" n
  | .float x => typed "float" x
  | .quantity q => .record [("t", "quantity"), ("m", q.magnitude), ("u", q.unit.symbol)]
  | .text s => typed "str" s
  | .list items => typed "list" (.list (values items))
  | .dict entries => typed "dict" (.list (valueEntries entries))

def values : List Value → List Report
  | [] => []
  | v :: rest => value v :: values rest

def valueEntries : List (String × Value) → List Report
  | [] => []
  | (k, v) :: rest => row [k, value v] :: valueEntries rest

end

instance : Reported Value := ⟨value⟩

mutual

/-- Every node is a list of its kind, its place, and its parts. -/
def formula : Formula → Report
  | .int o n => row ["Int", o, n]
  | .float o x => row ["Float", o, x]
  | .quantity o m u => row ["Quantity", o, m, u.symbol]
  | .text o s => row ["Str", o, s]
  | .name o s => row ["Ident", o, s]
  | .list o items => row ["List", o, .list (formulas items)]
  | .dict o items => row ["Dict", o, .list (formulaPairs items)]
  | .unary o op a => row ["Unary", o, op.name, formula a]
  | .binary o op a b => row ["Binary", o, op.name, formula a, formula b]
  | .call o name args => row ["Call", o, name, .list (formulas args)]
  | .index o a b => row ["Index", o, formula a, formula b]

def formulas : List Formula → List Report
  | [] => []
  | f :: rest => formula f :: formulas rest

def formulaPairs : List (Formula × Formula) → List Report
  | [] => []
  | (k, v) :: rest => row [formula k, formula v] :: formulaPairs rest

end

instance : Reported Formula := ⟨formula⟩

def tokenParts : Formula.Token → List Report
  | .int n => ["int", n]
  | .float x => ["float", x]
  | .text s => ["str", s]
  | .name s => ["ident", s]
  | .symbol s => ["op", s.text]
  | .finish => ["end"]

instance : Reported Formula.Located := ⟨fun t => .list (report t.offset :: tokenParts t.token)⟩

end Report

end PulseSequencer
