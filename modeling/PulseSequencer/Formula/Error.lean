import PulseSequencer.Formula.Token
import PulseSequencer.Units.PhysicalUnit

/-
# PulseSequencer.Formula.Error -- why a formula has no value
-/

namespace PulseSequencer

set_option autoImplicit false

namespace Formula

/-- A value of the wrong kind, or outside the domain of an operation.  Kinds of
values are given by name. -/
inductive TypeFault where
  | expectedNumber (kind : String)
  | expectedInteger (shown : String)
  | incomparable (left right : String)
  | divisionByZero
  | moduloByZero
  | remainderOverflow (a b : Int)
  | absOverflow (n : Int)
  | badSign (kind : String)
  | badOperands (operator left right : String)
  | indexOutOfRange (index : Int)
  | missingKey (shown : String)
  | notSubscriptable (kind : String)
  | negativeBits (bits : Nat) (n : Int)
deriving Repr

def TypeFault.message : TypeFault → String
  | .expectedNumber kind => "expected a number, got " ++ kind
  | .expectedInteger shown => "expected an integer, got " ++ shown
  | .incomparable left right => "cannot compare " ++ left ++ " with " ++ right
  | .divisionByZero => "division by zero"
  | .moduloByZero => "modulo by zero"
  | .remainderOverflow a b => "integer overflow in " ++ toString a ++ " % " ++ toString b
  | .absOverflow n => "integer overflow in abs(" ++ toString n ++ ")"
  | .badSign kind => "bad operand type for unary operator: " ++ kind
  | .badOperands operator left right =>
      "unsupported operand types for " ++ operator ++ ": " ++ left ++ " and " ++ right
  | .indexOutOfRange place => "list index " ++ toString place ++ " out of range"
  | .missingKey shown => "key " ++ shown ++ " not found"
  | .notSubscriptable kind => kind ++ " is not subscriptable"
  | .negativeBits bits n =>
      "sint" ++ toString bits ++ " expects a non-negative integer, got " ++ toString n

end Formula

inductive FormulaError where
  | malformed (offset : Nat) (fault : Formula.SyntaxFault)
  | unresolved (offset : Nat) (name : String)
  | unknownFunction (offset : Nat) (name : String)
  | arity (name : String) (expected got : Nat)
  | type (fault : Formula.TypeFault)
  | unit (error : UnitError)
deriving Repr

namespace FormulaError

def message : FormulaError → String
  | .malformed offset fault =>
      "Syntax error at offset " ++ toString offset ++ ": " ++ fault.message
  | .unresolved offset name =>
      "Unresolved identifier '" ++ name ++ "' at offset " ++ toString offset
  | .unknownFunction offset name =>
      "Unknown function '" ++ name ++ "' at offset " ++ toString offset
  | .arity name expected got =>
      "Function '" ++ name ++ "' takes " ++ toString expected ++ " argument(s), got " ++
        toString got
  | .type fault => fault.message
  | .unit error => error.message

/-- The byte of the formula at which the fault shows, where one is known. -/
def offset? : FormulaError → Option Nat
  | .malformed offset _ | .unresolved offset _ | .unknownFunction offset _ => some offset
  | .arity .. | .type _ | .unit _ => none

end FormulaError

end PulseSequencer
