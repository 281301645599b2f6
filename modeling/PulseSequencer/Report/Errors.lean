import PulseSequencer.Device.Error
import PulseSequencer.Notice
import PulseSequencer.Program.Context
import PulseSequencer.Program.ParameterTable
import PulseSequencer.Report.Values
import PulseSequencer.Scan.Error

/-
# PulseSequencer.Report.Errors -- reports on what went wrong, and on notices

An error is reported by its kind, which programs can tell apart, and its message,
which people can read.  An error that only passes on another one has the kind of
that one.
-/

namespace PulseSequencer

set_option autoImplicit false

structure ErrorReport where
  kind : String
  message : String
  details : List (String × Report) := []

class Failing (ε : Type) where
  failure : ε → ErrorReport

export Failing (failure)

namespace Report

instance : Reported ErrorReport :=
  ⟨fun e => .record ([("error", report e.kind)] ++ e.details ++ [("message", report e.message)])⟩

/-- The result of an operation. -/
def success (r : Report) : Report := .record [("ok", r)]

/-- What an operation gave, or why it failed. -/
def outcome {α ε : Type} [Reported α] [Failing ε] : Except ε α → Report
  | .ok a => success a
  | .error e => failure e

instance : Failing UnitError := ⟨fun e => ⟨"Dimensionality." ++ tag e, e.message, []⟩⟩

instance : Failing EncodingError :=
  ⟨fun e => match e with
    | .unit e => failure e
    | e => ⟨"Encoding." ++ tag e, e.message, []⟩⟩

def formulaErrorKind : FormulaError → String
  | .malformed .. => "Expression.Syntax"
  | .unresolved .. => "Expression.UnresolvedIdentifier"
  | .unit e => (failure e).kind
  | e => "Expression." ++ tag e

instance : Failing FormulaError :=
  ⟨fun e => ⟨formulaErrorKind e, e.message,
    (e.offset?.map fun n => ("offset", report n)).toList⟩⟩

instance : Failing DependencyCycle := ⟨fun c => ⟨"Graph.Cycle", c.message, []⟩⟩

instance : Failing ProgramError :=
  ⟨fun e => match e with
    | .line l => ⟨"Pp", e.message, [("file", l.file), ("line", l.line)]⟩
    | .encoding e => failure e
    | e => ⟨"Program." ++ tag e, e.message, []⟩⟩

instance : Failing ContextError :=
  ⟨fun e => match e with
    | .formula .. => ⟨"Context.Expression", e.message, []⟩
    | e => ⟨"Context." ++ tag e, e.message, []⟩⟩

instance : Failing ParameterError :=
  ⟨fun e => match e with
    | .formula e => failure e
    | .cycle c => failure c⟩

instance : Failing Ppp.CompileError :=
  ⟨fun e => ⟨"Compile", e.message,
    [("line", e.position.line), ("column", e.position.column)]⟩⟩

instance : Failing ScanError :=
  ⟨fun e => match e with
    | .invalid _ => ⟨"Scan.InvalidScan", e.message, []⟩
    | .unit e => failure e
    | .formula e => failure e
    | .program e => failure e⟩

instance : Failing DeviceError :=
  ⟨fun e => match e with
    | .program e => failure e
    | .compile e => failure e
    | .encoding e => failure e
    | e => ⟨"Pulser." ++ tag e, e.message, []⟩⟩

instance : Failing HardwareFault := ⟨fun f => failure (DeviceError.hardware f)⟩
instance : Failing BitfileFault := ⟨fun f => failure (HardwareFault.bitfile f)⟩
instance : Failing BoardFault := ⟨fun f => failure (DeviceError.fpga f)⟩
instance : Failing ConfigurationFault := ⟨fun f => failure (DeviceError.config f)⟩

/-! ## Notices -/

/-- The name under which a part gives its notices. -/
def reporterPath (r : Reporter) : String :=
  "ionpulse.rust::" ++ match r with
    | .program => "pulse_program::program"
    | .updateStream => "scan_generator::stream"
    | .logicAnalyzer => "pulser::logic_analyzer"
    | .client => "pulser::pulser"
    | other => "pulser::" ++ (tag other).toLower

def severityName : Severity → String
  | .debug => "DEBUG"
  | .info => "INFO"
  | .warning => "WARN"
  | .error => "ERROR"

instance : Reported Notice :=
  ⟨fun n => row [severityName n.severity, reporterPath n.reporter, n.text]⟩

/-! ## Quantities -/

/-- All that can be done with two quantities. -/
def binaryArithmetic (a b : Quantity) : Report :=
  .record [("add", outcome (a.add b)), ("sub", outcome (a.sub b)), ("mul", outcome (a.mul b)),
    ("div", outcome (a.div b)), ("rem", outcome (a.rem b)), ("cmp", outcome (a.compare b)),
    ("partial_cmp", (a.compare b).toOption), ("eq", a.same b), ("plus", a.plus b)]

/-- All that can be done with a quantity and a whole number, a real number, or the
name of a unit. -/
def unaryArithmetic (a : Quantity) (n : Int) (x : Float) (unitName : String) : Report :=
  let unit := PhysicalUnit.parse unitName
  .record [("neg", a.neg), ("powi", outcome (a.powInt n)), ("powf", outcome (a.powReal x)),
    ("times", a.scale x), ("over", a.shrink x), ("to_unit", outcome (unit >>= a.convert)),
    ("m_as", outcome (unit >>= a.magnitudeIn)), ("base", a.baseValue), ("plain", a.isPlain),
    ("dimensionless", a.isDimensionless), ("required", outcome (a.requireDimensionless "test")),
    ("zero", a.isZero), ("zero_plus", (Quantity.plain 0.0).plus a)]

end Report

end PulseSequencer
