import PulseSequencer.Formula.Arithmetic
import PulseSequencer.Formula.Builtin
import PulseSequencer.Formula.Parser

/-
# PulseSequencer.Formula.Evaluator -- the value of a formula and what it read

A name is looked up in the scope first and among the constants second; a function
among the registered ones, the built-in ones and the user's, in this order.  An
evaluation reports the names that it found in the scope.
-/

namespace PulseSequencer.Formula

set_option autoImplicit false

/-- What the names of a formula stand for. -/
abbrev Scope := String → Option Value

def Scope.empty : Scope := fun _ => none

def Scope.ofValues (t : Table String Value) : Scope := t.get?

def Scope.ofQuantities (t : Table String Quantity) : Scope :=
  fun name => (t.get? name).map Value.ofQuantity

/-- The constants, which a scope may redefine. -/
def constant? : String → Option Value
  | "pi" => some (.float Number.pi)
  | "e" => some (.float 2.71828182845904523536)
  | "tau" => some (.float 6.28318530717958647692)
  | "inf" => some (.float (1.0 / 0.0))
  | "nan" => some (.float (0.0 / 0.0))
  | "True" => some (.bool true)
  | "False" => some (.bool false)
  | _ => none

structure Evaluator where
  /-- Whole numbers are read as floats. -/
  useFloat : Bool := false
  functions : String → Option Function := fun _ => none
  userFunctions : String → Option Function := fun _ => none

namespace Evaluator

def default : Evaluator := {}

/-- The function that a name stands for. -/
def function? (e : Evaluator) (name : String) : Option Function :=
  (e.functions name).orElse fun _ => (builtin? name).orElse fun _ => e.userFunctions name

def apply (e : Evaluator) (offset : Nat) (name : String) (args : List Value) :
    Except FormulaError Value :=
  match e.function? name with
  | some f => f args
  | none => .error (.unknownFunction offset name)

/-- A value together with the names read on the way to it, in order. -/
abbrev Reading (α : Type) := α × List String

mutual

def run (e : Evaluator) (scope : Scope) : Formula → Except FormulaError (Reading Value)
  | .int _ n => .ok (if e.useFloat then .float (Float.ofInt n) else .int n, [])
  | .float _ x => .ok (.float x, [])
  | .quantity _ magnitude unit => .ok (.quantity ⟨magnitude, unit⟩, [])
  | .text _ s => .ok (.text s, [])
  | .name offset s =>
      match scope s with
      | some v => .ok (v, [s])
      | none =>
          match constant? s with
          | some v => .ok (v, [])
          | none => .error (.unresolved offset s)
  | .list _ items => do
      let (values, names) ← e.runItems scope items
      return (.list values, names)
  | .dict _ items => do
      let (entries, names) ← e.runPairs scope [] items
      return (.dict entries, names)
  | .unary _ op operand => do
      let (v, names) ← e.run scope operand
      return (← applyUnary op v, names)
  | .binary _ op left right => do
      let (a, names) ← e.run scope left
      if (op = .and ∧ a.isTrue = false) ∨ (op = .or ∧ a.isTrue = true) then return (a, names)
      let (b, more) ← e.run scope right
      if op = .and ∨ op = .or then return (b, names ++ more)
      return (← applyBinary op a b, names ++ more)
  | .call offset function args => do
      let (values, names) ← e.runItems scope args
      return (← e.apply offset function values, names)
  | .index _ target key => do
      let (t, names) ← e.run scope target
      let (k, more) ← e.run scope key
      return (← subscript t k, names ++ more)

def runItems (e : Evaluator) (scope : Scope) :
    List Formula → Except FormulaError (Reading (List Value))
  | [] => .ok ([], [])
  | item :: rest => do
      let (v, names) ← e.run scope item
      let (vs, more) ← e.runItems scope rest
      return (v :: vs, names ++ more)

/-- A repeated key replaces the value and keeps its place. -/
def runPairs (e : Evaluator) (scope : Scope) (entries : List (String × Value)) :
    List (Formula × Formula) → Except FormulaError (Reading (List (String × Value)))
  | [] => .ok (entries, [])
  | (key, item) :: rest => do
      let (k, names) ← e.run scope key
      let (v, more) ← e.run scope item
      let name := match k with
        | .text s => s
        | other => other.display
      let (all, others) ← e.runPairs scope (Table.put name v entries) rest
      return (all, names ++ more ++ others)

end

end Evaluator

/-- Puts a name into an ascending list that does not hold it yet. -/
def insertName (name : String) : List String → List String
  | [] => [name]
  | head :: rest =>
      if name = head then head :: rest
      else if name < head then name :: head :: rest
      else head :: insertName name rest

/-- A value and the names of the scope that it depends on, in ascending order. -/
structure Evaluation where
  value : Value
  dependencies : List String

namespace Evaluator

def evaluateFormula (e : Evaluator) (formula : Formula) (scope : Scope) :
    Except FormulaError Evaluation := do
  let (value, names) ← e.run scope formula
  return ⟨value, names.foldl (fun known name => insertName name known) []⟩

def evaluate (e : Evaluator) (text : String) (scope : Scope) : Except FormulaError Evaluation := do
  e.evaluateFormula (← parse text) scope

end Evaluator

end PulseSequencer.Formula
