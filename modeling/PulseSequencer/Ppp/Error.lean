import PulseSequencer.Formula.Error
import PulseSequencer.Ppp.Token

/-
# PulseSequencer.Ppp.Error -- why a ppp source cannot be compiled
-/

namespace PulseSequencer.Ppp

set_option autoImplicit false

inductive CompileFault where
  /- Tokens -/
  | unterminatedText
  | strayLetter
  | strayCharacter (c : Char)
  | unmatched (m : Mark)
  | openBrackets
  | badUnindent
  /- Statements -/
  | expected (m : Mark)
  | expectedName
  | expectedFormula
  | expectedBlock
  | unexpected (found : String)
  | unexpectedIndent
  | nestedProcedure
  | nestedDeclaration
  | missingValue (keyword : String)
  | duplicateParameter (name : String)
  | positionalAfterKeyword
  /- Names -/
  | alreadyDeclared (name : String)
  | isBuiltin (name : String)
  | isProcedure (name : String)
  | shadowsBuiltin (name : String)
  | undeclared (name : String)
  | unknownProcedure (name : String)
  | notAValue (name : String)
  | notCallable (name : String)
  | assignToConstant (name : String)
  | assignTo (name : String)
  /- Declarations -/
  | badAttribute (text : String)
  | unitMismatch (value unit : String)
  | encodingMismatch (value encoding : String)
  | encoding (message : String)
  /- Formulas -/
  | formula (error : FormulaError)
  | cannotStore (shown : String)
  | compileTimeOnly
  | conditionOnly
  | notRunTime
  /- Calls -/
  | returnOutside
  | conditionBuiltin (name : String)
  | noResult (name : String)
  | wrongCount (name : String) (expected got : Nat)
  | tooMany (name : String) (most got : Nat)
  | noArgument (name argument : String)
  | argumentTwice (name argument : String)
  | missingArgument (name argument : String)
  | positionalOnly
  | needsVariable (name argument : String)
  | noArguments (name : String)
  | channelNotConstant
  | invalidChannel (shown : String)
deriving Repr

/-- A fault in a formula is told without its place in the formula. -/
def formulaMessage : FormulaError → String
  | .malformed _ fault => fault.message
  | .unresolved _ name => "unresolved identifier '" ++ name ++ "'"
  | .unknownFunction _ name => "unknown function '" ++ name ++ "'"
  | other => other.message

def CompileFault.message : CompileFault → String
  | .unterminatedText => "unterminated string"
  | .strayLetter => "unexpected character"
  | .strayCharacter c => "unexpected character '" ++ String.ofList [c] ++ "'"
  | .unmatched m => "unmatched '" ++ m.text ++ "'"
  | .openBrackets => "unexpected end of file inside brackets"
  | .badUnindent => "unindent does not match any outer indentation level"
  | .expected m => "expected '" ++ m.text ++ "'"
  | .expectedName => "expected a name"
  | .expectedFormula => "expected an expression"
  | .expectedBlock => "expected an indented block"
  | .unexpected found => "unexpected " ++ found
  | .unexpectedIndent => "unexpected indent"
  | .nestedProcedure => "procedures must be defined at top level"
  | .nestedDeclaration => "declarations are only allowed at top level"
  | .missingValue keyword => "'" ++ keyword ++ "' declarations need a value"
  | .duplicateParameter name => "duplicate parameter '" ++ name ++ "'"
  | .positionalAfterKeyword => "positional argument follows keyword argument"
  | .alreadyDeclared name => "'" ++ name ++ "' is already declared"
  | .isBuiltin name => "'" ++ name ++ "' is a builtin"
  | .isProcedure name => "'" ++ name ++ "' is a procedure"
  | .shadowsBuiltin name => "parameter '" ++ name ++ "' shadows a builtin"
  | .undeclared name => "undeclared variable '" ++ name ++ "'"
  | .unknownProcedure name => "unknown procedure '" ++ name ++ "'"
  | .notAValue name => "'" ++ name ++ "' is not a value"
  | .notCallable name => "'" ++ name ++ "' is not callable"
  | .assignToConstant name => "cannot assign to constant '" ++ name ++ "'"
  | .assignTo name => "cannot assign to '" ++ name ++ "'"
  | .badAttribute text =>
      "'" ++ text ++ "' is neither a variable type, a unit nor an encoding"
  | .unitMismatch value unit => "value '" ++ value ++ "' does not match unit '" ++ unit ++ "'"
  | .encodingMismatch value name =>
      "value '" ++ value ++ "' does not match encoding '" ++ name ++ "'"
  | .encoding message => message
  | .formula error => formulaMessage error
  | .cannotStore shown => "cannot store " ++ shown ++ " in a variable"
  | .compileTimeOnly => "'%' and '**' are only supported on compile-time values"
  | .conditionOnly => "comparisons and logic operators can only be used as conditions"
  | .notRunTime => "expression cannot be evaluated at run time"
  | .returnOutside => "'return' outside of a procedure"
  | .conditionBuiltin name => name ++ "() can only be used as a condition"
  | .noResult name => name ++ "() does not return a value"
  | .wrongCount name count got =>
      name ++ "() takes " ++ toString count ++ " argument(s), got " ++ toString got
  | .tooMany name most got =>
      name ++ "() takes at most " ++ toString most ++ " argument(s), got " ++ toString got
  | .noArgument name argument => name ++ "() has no argument '" ++ argument ++ "'"
  | .argumentTwice name argument => name ++ "() got argument '" ++ argument ++ "' twice"
  | .missingArgument name argument => name ++ "() is missing argument '" ++ argument ++ "'"
  | .positionalOnly => "procedures take positional arguments only"
  | .needsVariable name argument => name ++ "() needs a variable for '" ++ argument ++ "'"
  | .noArguments name => name ++ "() takes no arguments"
  | .channelNotConstant => "channel must be a compile-time constant"
  | .invalidChannel shown => "invalid channel " ++ shown

/-- The first fault of a source, and where it is. -/
structure CompileError where
  position : Position
  fault : CompileFault
deriving Repr

/-- The fault without its place. -/
def CompileError.message (e : CompileError) : String := e.fault.message

/-- The fault with its place. -/
def CompileError.text (e : CompileError) : String :=
  "line " ++ toString e.position.line ++ ", column " ++ toString e.position.column ++ ": " ++
    e.message

end PulseSequencer.Ppp
