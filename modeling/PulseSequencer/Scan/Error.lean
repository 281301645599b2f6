import PulseSequencer.Formula.Error
import PulseSequencer.Program.Error

/-
# PulseSequencer.Scan.Error -- why a scan cannot be made
-/

namespace PulseSequencer

set_option autoImplicit false

/-- What is wrong with the description of a scan. -/
inductive ScanFault where
  | unknownOrder (name : String)
  | stepSize (size : Float)
  | noPoints
  | unknownGate (name : String)
  | gateCount (sequences steps : Nat)

def ScanFault.message : ScanFault → String
  | .unknownOrder name => "unknown scan type '" ++ name ++ "'"
  | .stepSize size => "invalid step size " ++ Number.plain size
  | .noPoints => "a scan needs at least one point"
  | .unknownGate name => "unknown gate '" ++ name ++ "'"
  | .gateCount sequences steps =>
      toString sequences ++ " gate sequences for a scan of " ++ toString steps ++ " steps"

inductive ScanError where
  | invalid (fault : ScanFault)
  | unit (error : UnitError)
  | formula (error : FormulaError)
  | program (error : ProgramError)

def ScanError.message : ScanError → String
  | .invalid fault => "Invalid scan: " ++ fault.message
  | .unit error => error.message
  | .formula error => error.message
  | .program error => error.message

end PulseSequencer
