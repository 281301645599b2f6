import PulseSequencer.Number.Binary
import PulseSequencer.Units.PhysicalUnit

/-
# PulseSequencer.Units.Quantity -- a magnitude in a unit

Sums and comparisons convert the right operand to the unit of the left one.
Products whose units cancel become plain numbers.  Quantities are compared and
printed in twelve significant digits, because unit scales such as `1e-9` are not
exact.
-/

namespace PulseSequencer

set_option autoImplicit false

structure Quantity where
  magnitude : Float
  unit : PhysicalUnit

namespace Quantity

/-- The digits that count when quantities are compared or printed. -/
def equalityDigits : Nat := 12

def plain (magnitude : Float) : Quantity := ⟨magnitude, .dimensionless⟩

instance : Inhabited Quantity := ⟨plain 0.0⟩

def ofText (magnitude : Float) (unit : String) : Except UnitError Quantity := do
  return ⟨magnitude, ← PhysicalUnit.parse unit⟩

/-- Whether `c` continues the number at the front of a quantity.  An exponent
mark needs a digit or point before it and a digit or sign behind it. -/
def continuesNumber (previous : Option Char) (c : Char) (next : Option Char) : Bool :=
  let digitOrPoint (d : Char) : Bool := d.isDigit || d == '.'
  let sign (d : Char) : Bool := d == '-' || d == '+'
  let mark (d : Char) : Bool := d == 'e' || d == 'E'
  digitOrPoint c
    || (previous.isNone && sign c)
    || (mark c && previous.any digitOrPoint && next.any fun d => d.isDigit || sign d)
    || (sign c && previous.any mark)

/-- Cuts a quantity into its number and its unit. -/
def splitNumber (previous : Option Char) : List Char → List Char × List Char
  | [] => ([], [])
  | c :: rest =>
      if continuesNumber previous c rest.head? then
        let (number, unit) := splitNumber (some c) rest
        (c :: number, unit)
      else ([], c :: rest)

/-- Reads a number and an optional unit, as in `10 MHz` or `-3.5e-6s`. -/
def parse (text : String) : Except UnitError Quantity :=
  let trimmed := Text.trim text.toList
  let (number, unit) := splitNumber none trimmed
  match Number.readFloat? number with
  | none => .error (.unknownUnit (String.ofList trimmed))
  | some magnitude => ofText magnitude (String.ofList unit)

def dimension (q : Quantity) : Dimension := q.unit.dimension

def isDimensionless (q : Quantity) : Bool := q.unit.isDimensionless

/-- Whether the quantity has no unit symbol at all. -/
def isPlain (q : Quantity) : Bool := q.unit.symbol == "" && q.isDimensionless

/-- The magnitude in base units. -/
def baseValue (q : Quantity) : Float := q.magnitude * q.unit.scale

def magnitudeIn (q : Quantity) (unit : PhysicalUnit) : Except UnitError Float := do
  return q.magnitude * (← q.unit.conversionFactor unit)

def convert (q : Quantity) (unit : PhysicalUnit) : Except UnitError Quantity := do
  return ⟨← q.magnitudeIn unit, unit⟩

def neg (q : Quantity) : Quantity := { q with magnitude := -q.magnitude }

def scale (q : Quantity) (x : Float) : Quantity := { q with magnitude := q.magnitude * x }

def shrink (q : Quantity) (x : Float) : Quantity := { q with magnitude := q.magnitude / x }

def add (a b : Quantity) : Except UnitError Quantity := do
  let factor ← b.unit.conversionFactor a.unit
  return { a with magnitude := a.magnitude + b.magnitude * factor }

def sub (a b : Quantity) : Except UnitError Quantity := a.add b.neg

def rem (a b : Quantity) : Except UnitError Quantity := do
  let factor ← b.unit.conversionFactor a.unit
  return { a with magnitude := Number.remainder a.magnitude (b.magnitude * factor) }

/-- A product or quotient of dimensioned operands that cancels out is plain. -/
def simplified (q a b : Quantity) : Quantity :=
  if q.isDimensionless && !(a.isDimensionless && b.isDimensionless) then plain q.baseValue else q

def mul (a b : Quantity) : Except UnitError Quantity := do
  let unit ← a.unit.mul b.unit
  return simplified ⟨a.magnitude * b.magnitude, unit⟩ a b

def div (a b : Quantity) : Except UnitError Quantity := do
  let unit ← a.unit.div b.unit
  return simplified ⟨a.magnitude / b.magnitude, unit⟩ a b

def powInt (q : Quantity) (n : Int) : Except UnitError Quantity := do
  let unit ← q.unit.pow n
  return ⟨Number.powInt q.magnitude (n.bmod (pow2 32)), unit⟩

/-- The value as a number, for an operation that takes no unit. -/
def requireDimensionless (q : Quantity) (operation : String) : Except UnitError Float :=
  if q.isDimensionless then .ok q.baseValue
  else .error (.notDimensionless operation q.unit.symbol)

def powReal (q : Quantity) (exponent : Float) : Except UnitError Quantity := do
  let base ← q.requireDimensionless "pow"
  return plain (Float.pow base exponent)

/-- The order in twelve digits; NaN counts as equal to everything. -/
def compare (a b : Quantity) : Except UnitError Ordering := do
  let factor ← b.unit.conversionFactor a.unit
  let x := Number.roundSignificant equalityDigits a.magnitude
  let y := Number.roundSignificant equalityDigits (b.magnitude * factor)
  return (Number.compare? x y).getD .eq

/-- Same dimension and the same base value in twelve digits. -/
def same (a b : Quantity) : Bool :=
  a.dimension == b.dimension &&
    (Number.roundSignificant equalityDigits a.baseValue).toBits ==
      (Number.roundSignificant equalityDigits b.baseValue).toBits

def isZero (q : Quantity) : Bool := q.magnitude == 0.0

/-- A sum that never fails: a plain zero gives way to the right operand, and
operands that do not fit together leave the left one. -/
def plus (a b : Quantity) : Quantity :=
  if a.isZero && a.isPlain then b
  else match a.add b with
    | .ok sum => sum
    | .error _ => a

/-- The magnitude in twelve digits and the unit symbol. -/
def text (q : Quantity) : String :=
  let number := Number.plain (Number.roundSignificant equalityDigits q.magnitude)
  if q.unit.symbol = "" then number else number ++ " " ++ q.unit.symbol

end Quantity

end PulseSequencer
