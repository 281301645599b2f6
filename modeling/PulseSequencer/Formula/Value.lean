import PulseSequencer.Formula.Error
import PulseSequencer.Table
import PulseSequencer.Units.Quantity

/-
# PulseSequencer.Formula.Value -- what formulas evaluate to

Truth values, integers, floats and quantities are numbers and mix freely;
integers stay inside the signed 64-bit range.  Equality promotes numbers and
looks into lists; everything else is equal only to its like.
-/

namespace PulseSequencer

set_option autoImplicit false

inductive Value where
  | bool (b : Bool)
  | int (n : Int)
  | float (x : Float)
  | quantity (q : Quantity)
  | text (s : String)
  | list (items : List Value)
  | dict (entries : List (String × Value))
deriving Inhabited

namespace Value

def kind : Value → String
  | .bool _ => "bool"
  | .int _ => "int"
  | .float _ => "float"
  | .quantity _ => "quantity"
  | .text _ => "str"
  | .list _ => "list"
  | .dict _ => "dict"

def isNumeric : Value → Bool
  | .bool _ | .int _ | .float _ | .quantity _ => true
  | .text _ | .list _ | .dict _ => false

/-! ## Text -/

def openBrace : String := "\x7b"

def closeBrace : String := "\x7d"

mutual

def display : Value → String
  | .bool true => "True"
  | .bool false => "False"
  | .int n => toString n
  | .float x => Number.plain x
  | .quantity q => q.text
  | .text s => "'" ++ s ++ "'"
  | .list items => "[" ++ ", ".intercalate (displayItems items) ++ "]"
  | .dict entries => openBrace ++ ", ".intercalate (displayEntries entries) ++ closeBrace

def displayItems : List Value → List String
  | [] => []
  | v :: rest => v.display :: displayItems rest

def displayEntries : List (String × Value) → List String
  | [] => []
  | (k, v) :: rest => ("'" ++ k ++ "': " ++ v.display) :: displayEntries rest

end

/-! ## Numbers -/

def ofBool (b : Bool) : Int := if b then 1 else 0

/-- Every number as a quantity. -/
def toQuantity : Value → Except FormulaError Quantity
  | .bool b => .ok (.plain (Float.ofInt (ofBool b)))
  | .int n => .ok (.plain (Float.ofInt n))
  | .float x => .ok (.plain x)
  | .quantity q => .ok q
  | other => .error (.type (.expectedNumber other.kind))

/-- A number without dimension, for an operation of the given name. -/
def toFloat (v : Value) (operation : String) : Except FormulaError Float := do
  let q ← v.toQuantity
  (q.requireDimensionless operation).mapError .unit

/-- A whole number; floats outside the signed 64-bit range are held inside it. -/
def toInt (v : Value) : Except FormulaError Int :=
  let refused := Except.error (.type (.expectedInteger v.display))
  match v with
  | .bool b => .ok (ofBool b)
  | .int n => .ok n
  | .float x => if Number.isWhole x then .ok (Number.toInt64 x) else refused
  | .quantity q =>
      if q.isPlain && Number.isWhole q.magnitude then .ok (Number.toInt64 q.magnitude)
      else refused
  | _ => refused

def isTrue : Value → Bool
  | .bool b => b
  | .int n => n != 0
  | .float x => x != 0.0
  | .quantity q => q.magnitude != 0.0
  | .text s => s != ""
  | .list items => !items.isEmpty
  | .dict entries => !entries.isEmpty

/-- A quantity without a unit is a float. -/
def ofQuantity (q : Quantity) : Value :=
  if q.isPlain then .float q.magnitude else .quantity q

/-! ## Order and equality -/

def compare (a b : Value) : Except FormulaError Ordering :=
  match a, b with
  | .int x, .int y => .ok (Ord.compare x y)
  | .text x, .text y => .ok (Ord.compare x y)
  | a, b =>
      if a.isNumeric && b.isNumeric then do
        ((← a.toQuantity).compare (← b.toQuantity)).mapError .unit
      else .error (.type (.incomparable a.kind b.kind))

mutual

/-- Same kind and same content; the entries of a dictionary may come in any
order. -/
def identical : Value → Value → Bool
  | .bool a, .bool b => a == b
  | .int a, .int b => a == b
  | .float a, .float b => a == b
  | .quantity a, .quantity b => a.same b
  | .text a, .text b => a == b
  | .list a, .list b => identicalItems a b
  | .dict a, .dict b => a.length == b.length && identicalEntries a b
  | _, _ => false

def identicalItems : List Value → List Value → Bool
  | [], [] => true
  | a :: as, b :: bs => identical a b && identicalItems as bs
  | _, _ => false

/-- Whether every entry of the first dictionary is one of the second. -/
def identicalEntries : List (String × Value) → List (String × Value) → Bool
  | [], _ => true
  | (k, v) :: rest, others =>
      (match others.lookup k with
        | some w => identical v w
        | none => false) && identicalEntries rest others

end

mutual

/-- Equality with promotion of numbers; numbers of different dimension differ. -/
def equal : Value → Value → Bool
  | .list a, .list b => equalItems a b
  | a, b =>
      if a.isNumeric && b.isNumeric then
        match a.compare b with
        | .ok .eq => true
        | _ => false
      else identical a b

def equalItems : List Value → List Value → Bool
  | [], [] => true
  | a :: as, b :: bs => equal a b && equalItems as bs
  | _, _ => false

end

end Value

end PulseSequencer
