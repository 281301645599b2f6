import PulseSequencer.CommandLine.Run
import PulseSequencer.DependencyGraph
import PulseSequencer.Device.Bitfile
import PulseSequencer.Device.Client
import PulseSequencer.Device.Configuration
import PulseSequencer.Device.Endpoint
import PulseSequencer.Device.LogicAnalyzer
import PulseSequencer.Device.Memory
import PulseSequencer.Device.Transfer
import PulseSequencer.Device.Waveform
import PulseSequencer.Document.Xml.Record
import PulseSequencer.Encoding.Ramp
import PulseSequencer.Formula.Evaluator
import PulseSequencer.Main
import PulseSequencer.Notice
import PulseSequencer.Number.Arithmetic
import PulseSequencer.Number.Notation
import PulseSequencer.Number.Binary
import PulseSequencer.Number.Reader
import PulseSequencer.Ppp.Compiler
import PulseSequencer.Ppp.Token
import PulseSequencer.Program.Assembler
import PulseSequencer.Program.Basic
import PulseSequencer.Program.Context
import PulseSequencer.Program.Update
import PulseSequencer.Proofs.DependencyGraph.History
import PulseSequencer.Proofs.DependencyGraph.Propagation
import PulseSequencer.Proofs.Device.Events
import PulseSequencer.Proofs.Device.Isolation
import PulseSequencer.Proofs.Device.Merge
import PulseSequencer.Proofs.Device.Synchrony
import PulseSequencer.Proofs.Device.Transfer
import PulseSequencer.Proofs.Device.Updates
import PulseSequencer.Proofs.Encoding.Inverse
import PulseSequencer.Proofs.Formula.Reading
import PulseSequencer.Proofs.Formula.Rendering
import PulseSequencer.Proofs.Ppp.Acceptance
import PulseSequencer.Proofs.Ppp.Arguments
import PulseSequencer.Proofs.Ppp.CallCode
import PulseSequencer.Proofs.Ppp.CallSites
import PulseSequencer.Proofs.Ppp.Declaring
import PulseSequencer.Proofs.Ppp.JumpTargets
import PulseSequencer.Proofs.Ppp.LineMachine
import PulseSequencer.Proofs.Ppp.Literals
import PulseSequencer.Proofs.Ppp.Locations
import PulseSequencer.Proofs.Ppp.Meaning
import PulseSequencer.Proofs.Ppp.Preservation
import PulseSequencer.Proofs.Ppp.ProgramCode
import PulseSequencer.Proofs.Ppp.Roundtrip
import PulseSequencer.Proofs.Ppp.Simulation
import PulseSequencer.Proofs.Ppp.Subroutines
import PulseSequencer.Proofs.Program.DataImage
import PulseSequencer.Proofs.Program.FailedChanges
import PulseSequencer.Proofs.Program.Inheritance
import PulseSequencer.Proofs.Program.OperandLayout
import PulseSequencer.Proofs.Program.ParameterConsistency
import PulseSequencer.Proofs.Scan.Completion
import PulseSequencer.Proofs.Scan.Window
import PulseSequencer.Proofs.Telemetry.Cuts
import PulseSequencer.Proofs.Telemetry.Segments
import PulseSequencer.Proofs.Telemetry.Wire
import PulseSequencer.Proofs.Units.Compositions
import PulseSequencer.Report.Devices
import PulseSequencer.Report.Errors
import PulseSequencer.Report.Programs
import PulseSequencer.Report.Scans
import PulseSequencer.Report.Sources
import PulseSequencer.Scan.Generator
import PulseSequencer.Table
import PulseSequencer.Telemetry.Record
import PulseSequencer.Text.Alphanumeric
import PulseSequencer.Text.Blank
import PulseSequencer.Text.Quoted
import PulseSequencer.Units.Quantity
import PulseSequencer.Proofs.Number.Doubles
import PulseSequencer.Proofs.Ppp.IntegerWords
import PulseSequencer.Proofs.Ppp.Operands
import PulseSequencer.Proofs.Device.Capacity
import PulseSequencer.Proofs.Scan.Stopping
import PulseSequencer.Proofs.DependencyGraph.Countdown
import PulseSequencer.Proofs.Program.Applying
import PulseSequencer.Proofs.Telemetry.Decoding
import PulseSequencer.Proofs.Program.ParentLinks
import PulseSequencer.Proofs.Program.UpdateFraming
import PulseSequencer.Proofs.Program.ConstantOperands
import PulseSequencer.Proofs.Scan.Alignment
import PulseSequencer.Proofs.Encoding.Range
import PulseSequencer.Proofs.Scan.GateFraming
import PulseSequencer.Proofs.Scan.Refilling
import PulseSequencer.Proofs.Scan.Visits
import PulseSequencer.Proofs.Encoding.Nearest
import PulseSequencer.Proofs.Units.Powers
import PulseSequencer.Proofs.Formula.IntegerFolding
import PulseSequencer.Proofs.Text.Utf8
import PulseSequencer.Proofs.Device.FirmwareHeader
import PulseSequencer.Proofs.Device.RunStates
import PulseSequencer.Proofs.Ppp.Positions
import PulseSequencer.Proofs.Ppp.Coverage
import PulseSequencer.Proofs.Ppp.Indentation
