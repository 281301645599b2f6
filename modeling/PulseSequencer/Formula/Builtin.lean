import PulseSequencer.Formula.Value
import PulseSequencer.Number.Binary

/-
# PulseSequencer.Formula.Builtin -- the functions every formula can call
-/

namespace PulseSequencer.Formula

set_option autoImplicit false

abbrev Function := List Value → Except FormulaError Value

/-- The error of a call with the wrong number of arguments. -/
def wrongArity {α : Type} (name : String) (expected : Nat) (args : List Value) :
    Except FormulaError α :=
  .error (.arity name expected args.length)

/-- A function of exactly one argument. -/
def oneArgument (name : String) (f : Value → Except FormulaError Value) : Function
  | [x] => f x
  | args => wrongArity name 1 args

/-- A function of one number without dimension. -/
def ofFloat (name : String) (f : Float → Float) : Function :=
  oneArgument name fun x => do return .float (f (← x.toFloat name))

/-- Changes the magnitude and keeps the unit. -/
def onMagnitude (f : Float → Float) : Value → Except FormulaError Value
  | .quantity q => .ok (.quantity { q with magnitude := f q.magnitude })
  | other => do return .float (f (← other.toFloat "map"))

/-- The complementary error function by a Chebyshev fit, good to 1.2e-7. -/
def erfc (x : Float) : Float :=
  let z := x.abs
  let t := 1.0 / (1.0 + 0.5 * z)
  let poly := -z * z - 1.26551223 + t * (1.00002368 + t * (0.37409196 + t * (0.09678418 +
    t * (-0.18628806 + t * (0.27886807 + t * (-1.13520398 + t * (1.48851587 +
    t * (-0.82215223 + t * 0.17087277))))))))
  let value := t * poly.exp
  if x >= 0.0 then value else 2.0 - value

def erf (x : Float) : Float := 1.0 - erfc x

def degrees (x : Float) : Float := x * (180.0 / Number.pi)

def radians (x : Float) : Float := x * (Number.pi / 180.0)

/-- The nearest integer, ties to the even one; beyond 64 bits it stays a float. -/
def roundToInt (x : Float) : Value :=
  let rounded := Number.round .halfToEven x
  if rounded.abs < 9223372036854775808.0 then .int (Number.toInt64 rounded) else .float rounded

def roundTo (digits : Int) (x : Float) : Float :=
  let scale := Number.powInt 10.0 (digits.bmod (pow2 32))
  Number.round .halfToEven (x * scale) / scale

def rounding : Function
  | [.int n] => .ok (.int n)
  | [.quantity q] => onMagnitude (Number.round .halfToEven) (.quantity q)
  | [x] => do return roundToInt (← x.toFloat "round")
  | [x, digits] => do onMagnitude (roundTo (← digits.toInt)) x
  | args => wrongArity "round" 1 args

def absolute : Value → Except FormulaError Value
  | .int n =>
      if n = -pow2 63 then .error (.type (.absOverflow n)) else .ok (.int n.natAbs)
  | .bool b => .ok (.int (Value.ofBool b))
  | other => onMagnitude Float.abs other

def truncation : Value → Except FormulaError Value
  | .int n => .ok (.int n)
  | .quantity q => onMagnitude (Number.round .towardZero) (.quantity q)
  | other => do return .int (Number.toInt64 (← other.toFloat "trunc"))

def sign (v : Value) : Except FormulaError Value := do
  let magnitude := (← v.toQuantity).magnitude
  return .int (if magnitude > 0.0 then 1 else if magnitude < 0.0 then -1 else 0)

/-- Reads the low `bits` bits of a non-negative integer in two's complement. -/
def reinterpret (bits : Nat) (v : Value) : Except FormulaError Value := do
  let n ← v.toInt
  if n < 0 then throw (.type (.negativeBits bits n))
  return .int (n.bmod (pow2 bits))

/-- The first item that no other beats. -/
def extremum (name : String) (wins : Ordering) (args : List Value) :
    Except FormulaError Value := do
  let items := match args with
    | [.list items] => items
    | items => items
  match items with
  | [] => throw (.arity name 1 0)
  | head :: rest =>
      rest.foldlM (fun best item => do
        return if (← item.compare best) = wins then item else best) head

/-- The function of a built-in name. -/
def builtin? : String → Option Function
  | "sin" => some (ofFloat "sin" Float.sin)
  | "cos" => some (ofFloat "cos" Float.cos)
  | "tan" => some (ofFloat "tan" Float.tan)
  | "asin" => some (ofFloat "asin" Float.asin)
  | "acos" => some (ofFloat "acos" Float.acos)
  | "atan" => some (ofFloat "atan" Float.atan)
  | "degrees" => some (ofFloat "degrees" degrees)
  | "radians" => some (ofFloat "radians" radians)
  | "exp" => some (ofFloat "exp" Float.exp)
  | "erf" => some (ofFloat "erf" erf)
  | "erfc" => some (ofFloat "erfc" erfc)
  | "sqrt" => some (ofFloat "sqrt" Float.sqrt)
  | "abs" => some (oneArgument "abs" absolute)
  | "round" => some rounding
  | "trunc" => some (oneArgument "trunc" truncation)
  | "sign" => some (oneArgument "sign" sign)
  | "min" => some (extremum "min" .lt)
  | "max" => some (extremum "max" .gt)
  | "sint12" => some (oneArgument "sint12" (reinterpret 12))
  | "sint16" => some (oneArgument "sint16" (reinterpret 16))
  | "sint32" => some (oneArgument "sint32" (reinterpret 32))
  | _ => none

end PulseSequencer.Formula
