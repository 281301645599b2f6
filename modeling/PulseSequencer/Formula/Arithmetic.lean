import PulseSequencer.Formula.Basic
import PulseSequencer.Formula.Value
import PulseSequencer.Number.Binary

/-
# PulseSequencer.Formula.Arithmetic -- operators on values

Integer arithmetic is exact as long as the result fits the signed 64-bit range;
a sum, product or power that does not fit is taken in floats instead.  A quotient
of integers is a float, and a remainder has the sign of its divisor.
-/

namespace PulseSequencer.Formula

set_option autoImplicit false

/-- Whether an integer fits the signed 64-bit range. -/
def fits64 (n : Int) : Bool := -pow2 63 ≤ n && n < pow2 63

def checked (n : Int) : Option Int := if fits64 n then some n else none

/-- An exact power that fits.  Beyond 64 only the powers of -1, 0 and 1 do, and
exponents have at most 32 bits. -/
def powInt? (base exponent : Int) : Option Int :=
  if exponent < 0 ∨ pow2 32 ≤ exponent then none
  else if exponent < 64 then checked (base.pow exponent.toNat)
  else if base = 0 ∨ base = 1 then some base
  else if base = -1 then some (if exponent % 2 = 0 then 1 else -1)
  else none

def floatBinary (op : BinaryOp) (a b : Float) : Float :=
  match op with
  | .add => a + b
  | .sub => a - b
  | .mul => a * b
  | .div => a / b
  | .rem => a - b * Number.round .down (a / b)
  | .pow => Float.pow a b
  | _ => 0.0

/-- The exact result of an operator on integers, where there is one. -/
def exactInt? (op : BinaryOp) (a b : Int) : Option Int :=
  match op with
  | .add => checked (a + b)
  | .sub => checked (a - b)
  | .mul => checked (a * b)
  | .rem => some (a.fmod b)
  | .pow => powInt? a b
  | _ => none

def intBinary (op : BinaryOp) (a b : Int) : Except FormulaError Value :=
  if op = .div ∧ b = 0 then .error (.type .divisionByZero)
  else if op = .rem ∧ b = 0 then .error (.type .moduloByZero)
  else if op = .rem ∧ a = -pow2 63 ∧ b = -1 then .error (.type (.remainderOverflow a b))
  else match exactInt? op a b with
    | some n => .ok (.int n)
    | none => .ok (.float (floatBinary op (Float.ofInt a) (Float.ofInt b)))

/-- A power with a whole exponent keeps the unit. -/
def quantityPow (a b : Quantity) : Except UnitError Quantity := do
  let exponent ← b.requireDimensionless "pow"
  if Number.isWhole exponent then a.powInt (Number.toInt64 exponent) else a.powReal exponent

def quantityBinary (op : BinaryOp) (a b : Quantity) : Except FormulaError Value := do
  let result := match op with
    | .add => a.add b
    | .sub => a.sub b
    | .mul => a.mul b
    | .div => a.div b
    | .rem => a.rem b
    | _ => quantityPow a b
  return .ofQuantity (← result.mapError .unit)

def arithmetic (op : BinaryOp) (a b : Value) : Except FormulaError Value :=
  match op, a, b with
  | .add, .text x, .text y => .ok (.text (x ++ y))
  | .add, .list x, .list y => .ok (.list (x ++ y))
  | op, .int x, .int y => intBinary op x y
  | op, .bool x, .int y => intBinary op (Value.ofBool x) y
  | op, .int x, .bool y => intBinary op x (Value.ofBool y)
  | op, .bool x, .bool y => intBinary op (Value.ofBool x) (Value.ofBool y)
  | op, .quantity x, b => do quantityBinary op x (← b.toQuantity)
  | op, a, .quantity y => do quantityBinary op (← a.toQuantity) y
  | op, a, b =>
      if a.isNumeric && b.isNumeric then do
        return .float (floatBinary op (← a.toFloat "arithmetic") (← b.toFloat "arithmetic"))
      else .error (.type (.badOperands op.name a.kind b.kind))

/-- An operator that takes both operands as values. -/
def applyBinary (op : BinaryOp) (a b : Value) : Except FormulaError Value :=
  let ordered (holds : Ordering → Bool) : Except FormulaError Value := do
    return .bool (holds (← a.compare b))
  match op with
  | .eq => .ok (.bool (a.equal b))
  | .ne => .ok (.bool !(a.equal b))
  | .lt => ordered Ordering.isLT
  | .le => ordered Ordering.isLE
  | .gt => ordered Ordering.isGT
  | .ge => ordered Ordering.isGE
  | op => arithmetic op a b

def applyUnary (op : UnaryOp) (v : Value) : Except FormulaError Value :=
  match op, v with
  | .not, v => .ok (.bool !v.isTrue)
  | .plus, v => if v.isNumeric then .ok v else .error (.type (.badSign v.kind))
  | .neg, .int n =>
      match checked (-n) with
      | some m => .ok (.int m)
      | none => .ok (.float (-Float.ofInt n))
  | .neg, .bool b => .ok (.int (-Value.ofBool b))
  | .neg, .float x => .ok (.float (-x))
  | .neg, .quantity q => .ok (.quantity q.neg)
  | .neg, v => .error (.type (.badSign v.kind))

/-- Lists count from either end; dictionaries are asked by the text of the key. -/
def subscript (target key : Value) : Except FormulaError Value :=
  match target, key with
  | .list items, key => do
      let i ← key.toInt
      let position := if i < 0 then Int.ofNat items.length + i else i
      match position with
      | .ofNat n =>
          match items[n]? with
          | some item => return item
          | none => throw (.type (.indexOutOfRange i))
      | .negSucc _ => throw (.type (.indexOutOfRange i))
  | .dict entries, key =>
      let name := match key with
        | .text s => s
        | other => other.display
      match entries.lookup name with
      | some v => .ok v
      | none => .error (.type (.missingKey key.display))
  | target, _ => .error (.type (.notSubscriptable target.kind))

end PulseSequencer.Formula
