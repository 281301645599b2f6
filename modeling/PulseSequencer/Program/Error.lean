import PulseSequencer.Encoding.Word
import PulseSequencer.Formula.Error
import PulseSequencer.Machine.Instruction

/-
# PulseSequencer.Program.Error -- why a program cannot be assembled or changed
-/

namespace PulseSequencer

set_option autoImplicit false

/-- What is wrong with a source line. -/
inductive LineFault where
  | recursiveInsert (file : String)
  | cannotInsert (file reason : String)
  | constantShape
  | variableShape
  | invalidVariable (name : String)
  | duplicateVariable (name : String)
  | unknownType (name : String)
  | notNumeric (shown : String)
  | invalidLabel (name : String)
  | duplicateLabel (name : String)
  | unknownMnemonic (name : String)
  | unresolved (name : String)
  | channelRange (channel : Nat)
  | dataRange (address : Nat)
  | tooManyOperands
  | operandRange (operand : Nat)
  | formula (error : FormulaError)
  | unit (error : UnitError)
  | encoding (error : EncodingError)
  | unreadable (reason : String)
deriving Repr

def unknownTypeText (name : String) : String := "unknown variable type '" ++ name ++ "'"

def LineFault.message : LineFault → String
  | .recursiveInsert file => "recursive insert of '" ++ file ++ "'"
  | .cannotInsert file reason => "cannot insert '" ++ file ++ "': " ++ reason
  | .constantShape => "expected 'const NAME VALUE'"
  | .variableShape => "expected 'var NAME VALUE'"
  | .invalidVariable name => "invalid variable name '" ++ name ++ "'"
  | .duplicateVariable name => "variable '" ++ name ++ "' declared twice"
  | .unknownType name => unknownTypeText name
  | .notNumeric shown => "variable value must be numeric, got " ++ shown
  | .invalidLabel name => "invalid label '" ++ name ++ "'"
  | .duplicateLabel name => "label '" ++ name ++ "' defined twice"
  | .unknownMnemonic name => "unknown mnemonic '" ++ name ++ "'"
  | .unresolved name => "unresolved identifier '" ++ name ++ "'"
  | .channelRange channel => "channel " ++ toString channel ++ " out of range"
  | .dataRange address =>
      "data address " ++ hexText address ++ " does not fit the 12-bit channel operand"
  | .tooManyOperands => "too many operands"
  | .operandRange operand => "operand " ++ hexText operand ++ " exceeds 24 bits"
  | .formula error => error.message
  | .unit error => error.message
  | .encoding error => error.message
  | .unreadable reason => reason

/-- A fault with the line it stands on. -/
structure LineError where
  file : String
  line : Nat
  context : String
  fault : LineFault
deriving Repr

def LineError.message (e : LineError) : String :=
  e.file ++ ":" ++ toString e.line ++ ": " ++ e.fault.message ++ " ('" ++ e.context ++ "')"

inductive ProgramError where
  | line (error : LineError)
  | codeSize (words limit : Nat)
  | dataSize (words limit : Nat)
  | unknownVariable (name : String)
  | image (fault : ImageFault)
  | encoding (error : EncodingError)
deriving Repr

def ProgramError.message : ProgramError → String
  | .line error => error.message
  | .codeSize words limit =>
      "Program needs " ++ toString words ++ " instruction words, the device holds " ++
        toString limit
  | .dataSize words limit =>
      "Program needs " ++ toString words ++ " data words, the device holds " ++ toString limit
  | .unknownVariable name => "Unknown variable '" ++ name ++ "'"
  | .image fault => fault.message
  | .encoding error => error.message

end PulseSequencer
